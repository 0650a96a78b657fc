import Mathlib.Algebra.GroupWithZero.Nat
import Mathlib.Data.Finset.Card
import GoldenFixtures.Sbom.Merge

/-!
# Merged components

The components of a document are told from its form alone (`listed`): they are the
objects of the list under `components`, and a document without such a list has
none.

The scan of the components with its list of seen identities keeps exactly the
components that are the first with theirs.  `firstShown` says which these are
without any state, from the components in front of each.

Components that are shown again add nothing (`firstShown_append_of_known`), nor
does it matter where in a sequence of documents they are
(`firstShown_flatMap_of_shown`).

`Merge.Holds` is the invariant that ties the state to the components shown so
far; `Merge.Holds.add` is its step and `Merge.Holds.foldl_add` the induction.  The
number of components is the number of identities, so what a document adds is a
difference of two such numbers (`Merge.Holds.countNew_eq`).
`merged_eq_firstShown` is the result for a sequence of documents.
-/

namespace GoldenFixtures.Sbom

open Json (Value Members)

/-! ## The components of documents -/

/-- The objects among values, in order. -/
def objectsAmong : List Value → List Members
  | [] => []
  | .object members :: values => members :: objectsAmong values
  | _ :: values => objectsAmong values

/-- The components that a document lists. -/
def listed : Value → List Members
  | .object members =>
    match members.lookup "components" with
    | some (.array items) => objectsAmong items
    | _ => []
  | _ => []

/-- The components of documents, in order. -/
def componentsOfAll (documents : List Value) : List Members := documents.flatMap listed

theorem filterMap_object? (values : List Value) :
    values.filterMap Merge.object? = objectsAmong values := by
  induction values with
  | nil => rfl
  | cons value values ih =>
    cases value <;> simp [List.filterMap_cons, Merge.object?, objectsAmong, ih]

theorem componentsOf_eq_listed (document : Value) :
    Merge.componentsOf document = listed document := by
  cases document with
  | object members =>
    have hget : (Value.object members).get? "components" = members.lookup "components" := rfl
    unfold Merge.componentsOf
    rw [hget, listed]
    cases members.lookup "components" with
    | none => rfl
    | some found =>
      cases found with
      | array items => exact filterMap_object? items
      | _ => rfl
  | _ => rfl

/-! ## The components that count -/

/-- The identities of components, in order. -/
def identitiesOf (components : List Members) : List Identity :=
  components.map Identity.ofMembers

/-- The components with whose identity no earlier one is. -/
def firstShown (components : List Members) : List Members :=
  (components.zipIdx.filter fun entry =>
    decide (Identity.ofMembers entry.1 ∉ identitiesOf (components.take entry.2))).map Prod.fst

theorem identitiesOf_append (components others : List Members) :
    identitiesOf (components ++ others) = identitiesOf components ++ identitiesOf others :=
  List.map_append

/-- The last component counts unless its identity is that of an earlier one. -/
theorem firstShown_append_singleton (components : List Members) (component : Members) :
    firstShown (components ++ [component]) =
      firstShown components ++
        if Identity.ofMembers component ∈ identitiesOf components then [] else [component] := by
  have hfront : ∀ entry ∈ components.zipIdx,
      decide (Identity.ofMembers entry.1 ∉
          identitiesOf ((components ++ [component]).take entry.2)) =
        decide (Identity.ofMembers entry.1 ∉ identitiesOf (components.take entry.2)) := by
    intro entry hentry
    have hplace := (List.mem_zipIdx' hentry).1
    rw [List.take_append_of_le_length (Nat.le_of_lt hplace)]
  unfold firstShown
  rw [List.zipIdx_append, List.filter_append, List.filter_congr hfront, List.map_append]
  by_cases hknown : Identity.ofMembers component ∈ identitiesOf components
  · simp [hknown]
  · simp [hknown]

/-- Every identity is that of a component that counts. -/
theorem mem_identitiesOf_firstShown {components : List Members} {identity : Identity} :
    identity ∈ identitiesOf (firstShown components) ↔ identity ∈ identitiesOf components := by
  induction components using List.reverseRecOn with
  | nil => rfl
  | append_singleton components component ih =>
    rw [firstShown_append_singleton, identitiesOf_append, identitiesOf_append, List.mem_append,
      List.mem_append, ih]
    by_cases hknown : Identity.ofMembers component ∈ identitiesOf components
    · rw [if_pos hknown]
      constructor
      · rintro (h | h)
        · exact Or.inl h
        · exact absurd h List.not_mem_nil
      · rintro (h | h)
        · exact Or.inl h
        · left
          rw [List.mem_singleton.mp h]
          exact hknown
    · rw [if_neg hknown]

theorem mem_of_mem_firstShown {components : List Members} {component : Members}
    (h : component ∈ firstShown components) : component ∈ components := by
  obtain ⟨entry, hentry, rfl⟩ := List.mem_map.mp h
  exact List.fst_mem_of_mem_zipIdx (List.mem_filter.mp hentry).1

/-- Of more components, those count that count by themselves and are new. -/
theorem firstShown_append (components others : List Members) :
    firstShown (components ++ others) =
      firstShown components ++ (firstShown others).filter fun other =>
        decide (Identity.ofMembers other ∉ identitiesOf components) := by
  induction others using List.reverseRecOn with
  | nil => simp [firstShown]
  | append_singleton others other ih =>
    rw [← List.append_assoc, firstShown_append_singleton, firstShown_append_singleton, ih,
      identitiesOf_append, List.filter_append, List.append_assoc]
    by_cases hknown : Identity.ofMembers other ∈ identitiesOf components
    · by_cases hother : Identity.ofMembers other ∈ identitiesOf others <;> simp [hknown, hother]
    · by_cases hother : Identity.ofMembers other ∈ identitiesOf others <;> simp [hknown, hother]

/-- Components with known identities change nothing. -/
theorem firstShown_append_of_known {components others : List Members}
    (h : ∀ other ∈ others, Identity.ofMembers other ∈ identitiesOf components) :
    firstShown (components ++ others) = firstShown components := by
  rw [firstShown_append, List.filter_eq_nil_iff.mpr, List.append_nil]
  intro other hother
  simpa using h other (mem_of_mem_firstShown hother)

/-- No two components that count have one identity. -/
theorem nodup_identitiesOf_firstShown (components : List Members) :
    (identitiesOf (firstShown components)).Nodup := by
  induction components using List.reverseRecOn with
  | nil => exact List.nodup_nil
  | append_singleton components component ih =>
    rw [firstShown_append_singleton, identitiesOf_append]
    by_cases hknown : Identity.ofMembers component ∈ identitiesOf components
    · rw [if_pos hknown]
      simpa [identitiesOf] using ih
    · rw [if_neg hknown]
      have hnew : Identity.ofMembers component ∉ identitiesOf (firstShown components) :=
        fun h => hknown (mem_identitiesOf_firstShown.mp h)
      exact List.nodup_append_comm.mp (List.nodup_cons.mpr ⟨hnew, ih⟩)

/-- Components of distinct identities all count. -/
theorem firstShown_of_nodup {components : List Members} (h : (identitiesOf components).Nodup) :
    firstShown components = components := by
  induction components using List.reverseRecOn with
  | nil => rfl
  | append_singleton components component ih =>
    rw [identitiesOf_append, List.nodup_append_comm, identitiesOf, List.map_singleton,
      List.singleton_append, List.nodup_cons] at h
    rw [firstShown_append_singleton, ih h.2, if_neg h.1]

/-- The components that count may be shown again, behind some of those that they were
taken from. -/
theorem firstShown_append_firstShown (components others : List Members) :
    firstShown (components ++ firstShown (components ++ others)) =
      firstShown (components ++ others) := by
  have hknown : (firstShown components).filter (fun component =>
      decide (Identity.ofMembers component ∉ identitiesOf components)) = [] := by
    rw [List.filter_eq_nil_iff]
    intro component hcomponent
    have hmem : Identity.ofMembers component ∈ identitiesOf components :=
      List.mem_map_of_mem (mem_of_mem_firstShown hcomponent)
    simpa using hmem
  rw [firstShown_append components (firstShown _),
    firstShown_of_nodup (nodup_identitiesOf_firstShown _), firstShown_append components others,
    List.filter_append, hknown, List.nil_append, List.filter_filter]
  simp only [Bool.and_self]

/-- What counts is the same if all that counts is shown in the place of some of the
components, in one piece: what follows it was shown by then. -/
theorem firstShown_flatMap_of_shown {α : Type} {shown : List Members} {old new : α → List Members}
    {sources : List α} (front : List Members)
    (hshown : firstShown (front ++ sources.flatMap old) = shown)
    (hnew : ∀ source ∈ sources, new source = shown ∨ new source = old source) :
    firstShown (front ++ sources.flatMap new) = shown := by
  induction sources generalizing front with
  | nil => exact hshown
  | cons source sources ih =>
    rw [List.forall_mem_cons] at hnew
    rw [List.flatMap_cons] at hshown ⊢
    rcases hnew.1 with hsource | hsource
    · have hknown : ∀ component ∈ sources.flatMap new,
          Identity.ofMembers component ∈ identitiesOf (front ++ shown) := by
        intro component hcomponent
        have hmem : Identity.ofMembers component ∈ identitiesOf shown := by
          obtain ⟨other, hother, hcomponent⟩ := List.mem_flatMap.mp hcomponent
          rcases hnew.2 other hother with hsame | hsame
          · rw [hsame] at hcomponent
            exact List.mem_map_of_mem hcomponent
          · rw [hsame] at hcomponent
            rw [← hshown, mem_identitiesOf_firstShown]
            refine List.mem_map_of_mem (List.mem_append_right _ (List.mem_append_right _ ?_))
            exact List.mem_flatMap.mpr ⟨other, hother, hcomponent⟩
        rw [identitiesOf_append]
        exact List.mem_append_right _ hmem
      rw [hsource, ← List.append_assoc, firstShown_append_of_known hknown, ← hshown,
        firstShown_append_firstShown]
    · rw [hsource, ← List.append_assoc]
      exact ih (front ++ old source) (by rw [List.append_assoc, hshown]) hnew.2

/-- As many components count as there are identities. -/
theorem length_firstShown (components : List Members) :
    (firstShown components).length = (identitiesOf components).toFinset.card := by
  have hsame : (identitiesOf (firstShown components)).toFinset =
      (identitiesOf components).toFinset := by
    ext identity
    rw [List.mem_toFinset, List.mem_toFinset, mem_identitiesOf_firstShown]
  rw [← hsame, List.toFinset_card_of_nodup (nodup_identitiesOf_firstShown components),
    identitiesOf, List.length_map]

/-! ## The invariant -/

namespace Merge

/-- The state of a merge that was shown some components: it has seen their
identities, and it keeps those that count. -/
structure Holds (merge : Merge) (shown : List Members) : Prop where
  seen : ∀ identity, identity ∈ merge.seen ↔ identity ∈ identitiesOf shown
  components : merge.components = firstShown shown

namespace Holds

variable {merge : Merge} {shown : List Members}

theorem start : Holds {} [] :=
  ⟨fun _ => Iff.rfl, rfl⟩

/-- One more component: it is kept if its identity is new. -/
theorem add (h : merge.Holds shown) (count : Nat) (component : Members) :
    (Merge.add (merge, count) component).1.Holds (shown ++ [component]) := by
  have hseen := h.seen (Identity.ofMembers component)
  unfold Merge.add
  by_cases hknown : Identity.ofMembers component ∈ merge.seen
  · simp only [hknown, if_true]
    constructor
    · intro identity
      rw [identitiesOf_append, List.mem_append, h.seen]
      constructor
      · exact Or.inl
      · rintro (hold | hnew)
        · exact hold
        · rw [List.mem_singleton.mp hnew]
          exact hseen.mp hknown
    · rw [firstShown_append_singleton, if_pos (hseen.mp hknown), List.append_nil]
      exact h.components
  · simp only [hknown, if_false]
    constructor
    · intro identity
      rw [identitiesOf_append, List.mem_append, List.mem_cons, h.seen, Or.comm]
      exact or_congr_right List.mem_singleton.symm
    · rw [firstShown_append_singleton, if_neg (fun hmem => hknown (hseen.mpr hmem)), h.components]

/-- The invariant holds after any components. -/
theorem foldl_add (h : merge.Holds shown) (count : Nat) (components : List Members) :
    (components.foldl Merge.add (merge, count)).1.Holds (shown ++ components) := by
  induction components generalizing merge count shown with
  | nil =>
    rw [List.append_nil]
    exact h
  | cons component components ih =>
    have hsplit : shown ++ component :: components = (shown ++ [component]) ++ components := by simp
    rw [List.foldl_cons, hsplit]
    exact ih (h.add count component) _

theorem addDocument (h : merge.Holds shown) (document : Value) :
    (merge.addDocument document).Holds (shown ++ listed document) := by
  rw [← componentsOf_eq_listed]
  exact h.foldl_add 0 (componentsOf document)

/-- There are as many components as identities were shown. -/
theorem size_eq (h : merge.Holds shown) : merge.size = (identitiesOf shown).toFinset.card := by
  rw [size, h.components, length_firstShown]

end Holds

/-! ## The number of new components -/

theorem size_add (state : Merge × Nat) (component : Members) :
    (add state component).1.size + state.2 = state.1.size + (add state component).2 := by
  obtain ⟨merge, count⟩ := state
  unfold add
  by_cases hknown : Identity.ofMembers component ∈ merge.seen
  · simp only [hknown, if_true]
  · simp only [hknown, if_false, size, List.length_append, List.length_singleton]
    omega

theorem size_foldl_add (state : Merge × Nat) (components : List Members) :
    (components.foldl add state).1.size + state.2 =
      state.1.size + (components.foldl add state).2 := by
  induction components generalizing state with
  | nil => rfl
  | cons component components ih =>
    have hstep := size_add state component
    have hrest := ih (add state component)
    rw [List.foldl_cons]
    omega

/-- What a document adds to the number of components is what is told of it. -/
theorem size_addDocument (merge : Merge) (document : Value) :
    (merge.addDocument document).size = merge.size + merge.countNew document :=
  size_foldl_add (merge, 0) (componentsOf document)

/-- A document adds as many components as it has identities that were not shown
before. -/
theorem Holds.countNew_eq {merge : Merge} {shown : List Members} (h : merge.Holds shown)
    (document : Value) :
    merge.countNew document =
      ((identitiesOf (listed document)).toFinset \ (identitiesOf shown).toFinset).card := by
  have hsize := size_addDocument merge document
  rw [(h.addDocument document).size_eq, h.size_eq, identitiesOf_append, List.toFinset_append]
    at hsize
  have hunion := Finset.card_sdiff_add_card (identitiesOf (listed document)).toFinset
    (identitiesOf shown).toFinset
  rw [Finset.union_comm] at hunion
  omega

end Merge

/-! ## Sequences of documents -/

/-- The merge of documents. -/
def merged (documents : List Value) : Merge := documents.foldl Merge.addDocument {}

/-- What is told of each of the documents that are added to a merge. -/
def countsNew (merge : Merge) : List Value → List Nat
  | [] => []
  | document :: documents =>
    merge.countNew document :: countsNew (merge.addDocument document) documents

namespace Merge

/-- The state does not depend on the count that goes with it. -/
theorem fst_foldl_add (merge : Merge) (count other : Nat) (components : List Members) :
    (components.foldl add (merge, count)).1 = (components.foldl add (merge, other)).1 := by
  induction components generalizing merge count other with
  | nil => rfl
  | cons component components ih =>
    rw [List.foldl_cons, List.foldl_cons]
    by_cases hknown : Identity.ofMembers component ∈ merge.seen
    · simp only [add, hknown, if_true]
      exact ih merge count other
    · simp only [add, hknown, if_false]
      exact ih _ (count + 1) (other + 1)

theorem fst_addAll_append (merge : Merge) (components others : List Members) :
    (merge.addAll (components ++ others)).1 = ((merge.addAll components).1.addAll others).1 := by
  unfold addAll
  rw [List.foldl_append]
  exact fst_foldl_add _ _ 0 others

/-- Documents are merged as one document with all their components is. -/
theorem foldl_addDocument (merge : Merge) (documents : List Value) :
    documents.foldl addDocument merge = (merge.addAll (componentsOfAll documents)).1 := by
  induction documents generalizing merge with
  | nil => rfl
  | cons document documents ih =>
    have hsplit : componentsOfAll (document :: documents) =
        listed document ++ componentsOfAll documents := List.flatMap_cons
    rw [List.foldl_cons, ih, hsplit, fst_addAll_append, ← componentsOf_eq_listed]
    rfl

/-- The merged document has the components that were kept. -/
theorem get?_toValue_components (merge : Merge) :
    merge.toValue.get? "components" = some (.array (merge.components.map Value.object)) := by
  simp [toValue, Value.get?, Json.Members.get?, List.lookup_cons]

theorem holds_merged (documents : List Value) :
    (merged documents).Holds (componentsOfAll documents) := by
  unfold merged
  rw [foldl_addDocument]
  exact Holds.start.foldl_add 0 (componentsOfAll documents)

theorem size_foldl_addDocument (merge : Merge) (documents : List Value) :
    (documents.foldl addDocument merge).size = merge.size + (countsNew merge documents).sum := by
  induction documents generalizing merge with
  | nil => rfl
  | cons document documents ih =>
    rw [List.foldl_cons, ih, size_addDocument, countsNew, List.sum_cons, Nat.add_assoc]

/-- What is told of a document in a sequence, from the documents in front of
it. -/
theorem countsNew_append_cons (merge : Merge) (earlier : List Value) (document : Value)
    (later : List Value) :
    (countsNew merge (earlier ++ document :: later))[earlier.length]? =
      some ((earlier.foldl addDocument merge).countNew document) := by
  induction earlier generalizing merge with
  | nil => rfl
  | cons first earlier ih => exact ih (merge.addDocument first)

end Merge

/-- The components of reordered documents have the same identities. -/
theorem toFinset_identitiesOf_of_perm {documents others : List Value}
    (h : documents.Perm others) :
    (identitiesOf (componentsOfAll documents)).toFinset =
      (identitiesOf (componentsOfAll others)).toFinset :=
  List.toFinset_eq_of_perm _ _ ((h.flatMap_right listed).map Identity.ofMembers)

/-- The merge of documents keeps, unchanged and in order, exactly the components
with whose identity no earlier one is.  So their identities are distinct and
are all that were shown; each document adds as many components as it has
identities that are new, and these numbers add up to that of all; only the
sequence of the components counts, not how documents divide it; and documents in
another order have as many components with the same identities. -/
theorem merged_eq_firstShown (documents : List Value) :
    (merged documents).components = firstShown (componentsOfAll documents) ∧
      (merged documents).toValue.get? "components" =
        some (.array ((firstShown (componentsOfAll documents)).map Value.object)) ∧
      (identitiesOf (merged documents).components).Nodup ∧
      (∀ component ∈ componentsOfAll documents,
        Identity.ofMembers component ∈ identitiesOf (merged documents).components) ∧
      (∀ earlier document later, documents = earlier ++ document :: later →
        (countsNew {} documents)[earlier.length]? = some ((merged earlier).countNew document) ∧
        (merged earlier).countNew document =
          ((identitiesOf (listed document)).toFinset \
            (identitiesOf (componentsOfAll earlier)).toFinset).card) ∧
      (merged documents).size = (countsNew {} documents).sum ∧
      (∀ others, componentsOfAll others = componentsOfAll documents →
        merged others = merged documents) ∧
      (∀ others : List Value, others.Perm documents →
        (identitiesOf (merged others).components).toFinset =
            (identitiesOf (merged documents).components).toFinset ∧
          (merged others).size = (merged documents).size) := by
  have hholds := Merge.holds_merged documents
  refine ⟨hholds.components, ?_, ?_, ?_, ?_, ?_, ?_, ?_⟩
  · rw [Merge.get?_toValue_components, hholds.components]
  · rw [hholds.components]
    exact nodup_identitiesOf_firstShown _
  · intro component hcomponent
    rw [hholds.components, mem_identitiesOf_firstShown]
    exact List.mem_map_of_mem hcomponent
  · rintro earlier document later rfl
    refine ⟨Merge.countsNew_append_cons {} earlier document later, ?_⟩
    exact (Merge.holds_merged earlier).countNew_eq document
  · have hsize := Merge.size_foldl_addDocument {} documents
    rw [show Merge.size {} = 0 from rfl, Nat.zero_add] at hsize
    exact hsize
  · intro others hothers
    unfold merged
    rw [Merge.foldl_addDocument, Merge.foldl_addDocument, hothers]
  · intro others hperm
    have hsame := toFinset_identitiesOf_of_perm hperm
    constructor
    · ext identity
      rw [List.mem_toFinset, List.mem_toFinset, (Merge.holds_merged others).components,
        hholds.components, mem_identitiesOf_firstShown, mem_identitiesOf_firstShown,
        ← List.mem_toFinset, hsame, List.mem_toFinset]
    · rw [(Merge.holds_merged others).size_eq, hholds.size_eq, hsame]

/-- Documents with components, and others where something else stands in their place. -/
def mixedDocuments : List Value :=
  [.object [("components", .array
      [.object [("bom-ref", .string "a"), ("name", .string "first")], .number (.ofNat 7),
        .object [("name", .string "b"), ("version", .string "1")], .null,
        .object [("bom-ref", .string "a"), ("name", .string "again")],
        .array [.object [("name", .string "c")]]])],
    .array [.object [("components", .array [.object [("name", .string "c")]])]],
    .object [("name", .string "c")],
    .object [("components", .object [("name", .string "c")])],
    .object [("version", .number (.ofNat 1)), ("components", .array
      [.object [("name", .string "d"), ("purl", .string "a")],
        .object [("version", .string "1"), ("name", .string "b")],
        .object [("version", .null), ("name", .string "d")], .string "c"])],
    .null]

/-- Three components count, two of the first document and one of the last but one. -/
theorem merged_mixedDocuments :
    (merged mixedDocuments).components =
        [[("bom-ref", .string "a"), ("name", .string "first")],
          [("name", .string "b"), ("version", .string "1")],
          [("version", .null), ("name", .string "d")]] ∧
      (merged mixedDocuments).toValue.get? "components" = some (.array
        [.object [("bom-ref", .string "a"), ("name", .string "first")],
          .object [("name", .string "b"), ("version", .string "1")],
          .object [("version", .null), ("name", .string "d")]]) ∧
      countsNew {} mixedDocuments = [2, 0, 0, 0, 1, 0] ∧
      (merged mixedDocuments).size = 3 ∧
      (merged mixedDocuments.reverse).size = 3 := by
  obtain ⟨hcomponents, hvalue, -, -, -, hsize, -, hperm⟩ := merged_eq_firstShown mixedDocuments
  have hcounts : countsNew {} mixedDocuments = [2, 0, 0, 0, 1, 0] := by decide
  have hthree : (merged mixedDocuments).size = 3 := by rw [hsize, hcounts]; rfl
  refine ⟨hcomponents.trans rfl, hvalue.trans rfl, hcounts, hthree, ?_⟩
  rw [(hperm _ mixedDocuments.reverse_perm).2, hthree]

end GoldenFixtures.Sbom
