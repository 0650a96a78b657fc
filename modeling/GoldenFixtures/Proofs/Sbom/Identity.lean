import Mathlib
import GoldenFixtures.Json.Reader
import GoldenFixtures.Proofs.Json.Compact
import GoldenFixtures.Proofs.Sbom.Merge

/-!
# Which components are taken to be one

`IsSameComponent` says of two components that they are one and the same, by the values
of their members: they have one reference, or neither has a reference and they have
one name and version.

The identity of a component keeps the texts of these values.  Compact texts tell
values apart, but the text of a reference that is a string has no quotes.  So there
is one more case in which two identities are equal: `SpellsReferenceOf`, where the
reference of one component is the string `1`, say, and that of the other the number.
`ofMembers_eq_iff` says that there is no other one, and
`ofMembers_eq_iff_isSameComponent_iff` what follows for the merge: exactly in this case
it drops a component that is not the same as an earlier one.
-/

namespace GoldenFixtures.Sbom

open Json (Value Members)

/-! ## The same component -/

/-- The reference under which a component is known: the value of its `bom-ref` if that
says something, else the value of its `purl`. -/
def referenceOf? (members : Members) : Option Value :=
  (Identity.reference? members "bom-ref").or (Identity.reference? members "purl")

/-- The value of a member; a missing one reads as null. -/
def memberValue (members : Members) (key : String) : Value :=
  (Members.get? members key).getD .null

/-- Two components are one: they have one reference, or neither has a reference and
they have one name and version. -/
inductive IsSameComponent (component other : Members) : Prop where
  | reference {value : Value} :
    referenceOf? component = some value → referenceOf? other = some value →
    IsSameComponent component other
  | nameVersion :
    referenceOf? component = none → referenceOf? other = none →
    memberValue component "name" = memberValue other "name" →
    memberValue component "version" = memberValue other "version" →
    IsSameComponent component other

/-- The reference of a component is a string, and that string is the compact text of
the other one's reference, which is no string. -/
def SpellsReferenceOf (component other : Members) : Prop :=
  ∃ value, value.typeName ≠ "string" ∧ referenceOf? other = some value ∧
    referenceOf? component = some (.string value.toCompact)

section

variable {component other : Members} {value another : Value}

theorem SpellsReferenceOf.not_isSameComponent (h : SpellsReferenceOf component other) :
    ¬ IsSameComponent component other := by
  obtain ⟨value, htype, hother, hcomponent⟩ := h
  rintro (⟨hfirst, hsecond⟩ | ⟨hnone, -, -, -⟩)
  · rw [hcomponent, Option.some.injEq] at hfirst
    rw [hother, Option.some.injEq, ← hfirst] at hsecond
    rw [hsecond] at htype
    exact htype rfl
  · exact nomatch hcomponent.symm.trans hnone

theorem IsSameComponent.symm (h : IsSameComponent component other) :
    IsSameComponent other component := by
  cases h with
  | reference hfirst hsecond => exact .reference hsecond hfirst
  | nameVersion hfirst hsecond hname hversion =>
    exact .nameVersion hsecond hfirst hname.symm hversion.symm

/-! ## Texts of references -/

theorem eq_string_of_typeName (h : value.typeName = "string") : ∃ text, value = .string text := by
  cases value with
  | string text => exact ⟨text, rfl⟩
  | _ => simp [Value.typeName] at h

theorem referenceText_of_ne (h : value.typeName ≠ "string") :
    Identity.referenceText value = value.toCompact := by
  cases value with
  | string text => exact absurd rfl h
  | _ => rfl

/-- Two references with one text are one value, or one of them is a string that spells
the other one. -/
theorem eq_or_spells_of_referenceText_eq
    (h : Identity.referenceText value = Identity.referenceText another) :
    value = another ∨
      (another.typeName ≠ "string" ∧ value = .string another.toCompact) ∨
      (value.typeName ≠ "string" ∧ another = .string value.toCompact) := by
  by_cases hvalue : value.typeName = "string"
  · obtain ⟨text, rfl⟩ := eq_string_of_typeName hvalue
    by_cases hanother : another.typeName = "string"
    · obtain ⟨word, rfl⟩ := eq_string_of_typeName hanother
      exact Or.inl (congrArg Value.string h)
    · rw [referenceText_of_ne hanother] at h
      exact Or.inr (Or.inl ⟨hanother, congrArg Value.string h⟩)
  · rw [referenceText_of_ne hvalue] at h
    by_cases hanother : another.typeName = "string"
    · obtain ⟨word, rfl⟩ := eq_string_of_typeName hanother
      exact Or.inr (Or.inr ⟨hvalue, congrArg Value.string h.symm⟩)
    · rw [referenceText_of_ne hanother] at h
      exact Or.inl (Json.Value.toCompact_injective h)

/-! ## Identities -/

theorem ofMembers_of_reference (h : referenceOf? component = some value) :
    Identity.ofMembers component = .reference (Identity.referenceText value) := by
  unfold referenceOf? at h
  unfold Identity.ofMembers
  cases hfirst : Identity.reference? component "bom-ref" with
  | some first =>
    rw [hfirst, Option.some_or] at h
    rw [Option.some.inj h]
  | none =>
    rw [hfirst, Option.none_or] at h
    rw [h]

theorem ofMembers_of_no_reference (h : referenceOf? component = none) :
    Identity.ofMembers component =
      .nameVersion (memberValue component "name").toCompact
        (memberValue component "version").toCompact := by
  obtain ⟨hfirst, hsecond⟩ := Option.or_eq_none_iff.mp h
  unfold Identity.ofMembers
  rw [hfirst, hsecond]
  rfl

theorem IsSameComponent.ofMembers_eq (h : IsSameComponent component other) :
    Identity.ofMembers component = Identity.ofMembers other := by
  cases h with
  | reference hfirst hsecond =>
    rw [ofMembers_of_reference hfirst, ofMembers_of_reference hsecond]
  | nameVersion hfirst hsecond hname hversion =>
    rw [ofMembers_of_no_reference hfirst, ofMembers_of_no_reference hsecond, hname, hversion]

theorem SpellsReferenceOf.ofMembers_eq (h : SpellsReferenceOf component other) :
    Identity.ofMembers component = Identity.ofMembers other := by
  obtain ⟨value, htype, hother, hcomponent⟩ := h
  rw [ofMembers_of_reference hcomponent, ofMembers_of_reference hother, referenceText_of_ne htype]
  rfl

/-- Two components have one identity if they are the same, or if the reference of one
spells that of the other. -/
theorem ofMembers_eq_iff :
    Identity.ofMembers component = Identity.ofMembers other ↔
      IsSameComponent component other ∨ SpellsReferenceOf component other ∨
        SpellsReferenceOf other component := by
  constructor
  · intro h
    cases hcomponent : referenceOf? component with
    | some value =>
      rw [ofMembers_of_reference hcomponent] at h
      cases hother : referenceOf? other with
      | some another =>
        rw [ofMembers_of_reference hother, Identity.reference.injEq] at h
        rcases eq_or_spells_of_referenceText_eq h with rfl | ⟨htype, rfl⟩ | ⟨htype, rfl⟩
        · exact Or.inl (.reference hcomponent hother)
        · exact Or.inr (Or.inl ⟨another, htype, hother, hcomponent⟩)
        · exact Or.inr (Or.inr ⟨value, htype, hcomponent, hother⟩)
      | none =>
        rw [ofMembers_of_no_reference hother] at h
        exact nomatch h
    | none =>
      rw [ofMembers_of_no_reference hcomponent] at h
      cases hother : referenceOf? other with
      | some another =>
        rw [ofMembers_of_reference hother] at h
        exact nomatch h
      | none =>
        rw [ofMembers_of_no_reference hother, Identity.nameVersion.injEq] at h
        exact Or.inl (.nameVersion hcomponent hother (Json.Value.toCompact_injective h.1)
          (Json.Value.toCompact_injective h.2))
  · rintro (hsame | hspells | hspells)
    · exact hsame.ofMembers_eq
    · exact hspells.ofMembers_eq
    · exact hspells.ofMembers_eq.symm

/-! ## Components that are kept -/

/-- A component is kept behind those that were shown before it exactly if none of them
has its identity. -/
theorem firstShown_append_singleton_prefix_iff {earlier later : List Members} :
    firstShown earlier ++ [component] <+: firstShown (earlier ++ component :: later) ↔
      Identity.ofMembers component ∉ identitiesOf earlier := by
  have hfirst : ∃ rest, firstShown (component :: later) = component :: rest := by
    rw [← List.singleton_append, firstShown_append]
    exact ⟨_, rfl⟩
  obtain ⟨rest, hrest⟩ := hfirst
  rw [firstShown_append, List.prefix_append_right_inj, hrest]
  constructor
  · intro h
    have hmem : component ∈ (component :: rest).filter fun other =>
        decide (Identity.ofMembers other ∉ identitiesOf earlier) :=
      h.subset List.mem_cons_self
    simpa using (List.mem_filter.mp hmem).2
  · intro h
    rw [List.filter_cons_of_pos (by simpa using h)]
    exact ⟨_, rfl⟩

end

/-- **The same identity.**  Components have one identity exactly if they are the same,
unless the reference of one of them spells that of the other.  The merge keeps a
component exactly if no earlier one is the same and no earlier reference spells its
own or is spelled by it. -/
theorem ofMembers_eq_iff_isSameComponent_iff (component other : Members) (documents : List Value) :
    ((Identity.ofMembers component = Identity.ofMembers other ↔ IsSameComponent component other) ↔
        ¬ SpellsReferenceOf component other ∧ ¬ SpellsReferenceOf other component) ∧
      ∀ earlier later, componentsOfAll documents = earlier ++ component :: later →
        (firstShown earlier ++ [component] <+: (merged documents).components ↔
          ∀ shown ∈ earlier, ¬ IsSameComponent shown component ∧
            ¬ SpellsReferenceOf shown component ∧ ¬ SpellsReferenceOf component shown) := by
  constructor
  · rw [ofMembers_eq_iff]
    constructor
    · intro h
      constructor
      · intro hspells
        exact hspells.not_isSameComponent (h.mp (Or.inr (Or.inl hspells)))
      · intro hspells
        exact hspells.not_isSameComponent (h.mp (Or.inr (Or.inr hspells))).symm
    · rintro ⟨hcomponent, hother⟩
      simp only [hcomponent, hother, or_false]
  · intro earlier later hcomponents
    rw [(Merge.holds_merged documents).components, hcomponents,
      firstShown_append_singleton_prefix_iff, identitiesOf, List.mem_map]
    simp only [ofMembers_eq_iff, not_exists, not_and, not_or]

/-- A component that is known by the string `1`. -/
def quotedReference : Members := [("bom-ref", .string "1")]

/-- A component that is known by the number 1. -/
def numberReference : Members := [("bom-ref", .number (.ofNat 1))]

/-- The text of a document with both components. -/
def mixedText : String :=
  "\x7b\"components\":[\x7b\"bom-ref\":\"1\"\x7d,\x7b\"bom-ref\":1\x7d]\x7d"

/-- The document with both components. -/
def mixedDocument : Value :=
  .object [("components", .array [.object quotedReference, .object numberReference])]

/-- The components are not the same, but of the document with both the merge keeps the
first one only. -/
theorem merged_mixedDocument :
    Value.read mixedText.toList = .ok mixedDocument ∧
      componentsOfAll [mixedDocument] = [quotedReference, numberReference] ∧
      ¬ IsSameComponent quotedReference numberReference ∧
      Identity.ofMembers quotedReference = Identity.ofMembers numberReference ∧
      (merged [mixedDocument]).components = [quotedReference] := by
  have hread : Value.read mixedText.toList = .ok mixedDocument := by cbv
  have hcomponents : componentsOfAll [mixedDocument] = [quotedReference, numberReference] := by
    rfl
  have htext : (Value.number (.ofNat 1)).toCompact = "1" := by decide +kernel
  have hspells : SpellsReferenceOf quotedReference numberReference := by
    refine ⟨.number (.ofNat 1), by decide, by rfl, ?_⟩
    rw [htext]
    rfl
  have hsame : Identity.ofMembers quotedReference = Identity.ofMembers numberReference :=
    hspells.ofMembers_eq
  refine ⟨hread, hcomponents, hspells.not_isSameComponent, hsame, ?_⟩
  have hkept : firstShown ([quotedReference] ++ [numberReference]) =
      firstShown [quotedReference] := by
    apply firstShown_append_of_known
    rw [List.forall_mem_singleton, ← hsame]
    exact List.mem_singleton_self _
  rw [(Merge.holds_merged _).components, hcomponents]
  exact hkept

end GoldenFixtures.Sbom
