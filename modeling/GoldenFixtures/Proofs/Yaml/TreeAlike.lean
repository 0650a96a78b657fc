import Mathlib.Data.List.Forall2
import GoldenFixtures.Proofs.Yaml.Number
import GoldenFixtures.Proofs.Yaml.TreeValue

/-!
# Values that a text has in JSON and in YAML

`Value.IsLike` compares the two values of a text part by part.  A tree has like values
exactly under three conditions on its parts (`Tree.isLike_yaml_iff`): its numbers fit the
integers or the binary format, the characters of its strings mean the same, and its keys
are short and do not name a number.
-/

namespace GoldenFixtures

namespace Json

open Yaml (IsWide IsNarrow)

/-! ## Like values -/

/-- The two values are the same, part by part.  A number is the integer that it is spelled
as, or else the nearest one of the binary format. -/
inductive Value.IsLike : Value → Yaml.Value → Prop
  | null : IsLike .null .null
  | bool (flag : Bool) : IsLike (.bool flag) (.bool flag)
  | integer {n : Number} {i : Yaml.Integer} (h : n.integer? = some i.value) :
    IsLike (.number n) (.integer i)
  | real {n : Number} {magnitude : Binary64.Magnitude} (h : n.magnitude? = some magnitude) :
    IsLike (.number n) (.real (.finite n.negative magnitude))
  | string (text : String) : IsLike (.string text) (.string text)
  | array {items : List Value} {others : List Yaml.Value} (h : List.Forall₂ IsLike items others) :
    IsLike (.array items) (.sequence others)
  | object {members : Members} {entries : List (Yaml.Value × Yaml.Value)}
    (hkeys : entries.map Prod.fst = members.map fun member => .string member.1)
    (h : List.Forall₂ IsLike (members.map Prod.snd) (entries.map Prod.snd)) :
    IsLike (.object members) (.mapping entries)

namespace Value

theorem isLike_string_iff {text other : String} :
    (string text).IsLike (.string other) ↔ text = other := by
  constructor
  · rintro ⟨⟩
    rfl
  · rintro rfl
    exact .string text

theorem isLike_array_iff {items : List Value} {others : List Yaml.Value} :
    (array items).IsLike (.sequence others) ↔ List.Forall₂ IsLike items others := by
  constructor
  · rintro ⟨⟩
    assumption
  · exact .array

theorem isLike_object_iff {members : Members} {entries : List (Yaml.Value × Yaml.Value)} :
    (object members).IsLike (.mapping entries) ↔
      (entries.map Prod.fst = members.map fun member => .string member.1) ∧
        List.Forall₂ IsLike (members.map Prod.snd) (entries.map Prod.snd) := by
  constructor
  · rintro ⟨⟩
    exact ⟨‹_›, ‹_›⟩
  · exact fun h => .object h.1 h.2

theorem not_isLike_number_mapping {n : Number} {entries : List (Yaml.Value × Yaml.Value)} :
    ¬ (number n).IsLike (.mapping entries) := nofun

end Value

/-! ## Numbers -/

/-- The number is one of YAML as well.  An integer of 128 bits has to be one of 64 bits, and
what is no integer of 64 bits has a finite number of the binary format nearest to it. -/
structure Number.Fits (n : Number) : Prop where
  narrow : ∀ i ∈ n.integer?, IsWide i → IsNarrow i
  finite : (∀ i ∈ n.integer?, ¬ IsNarrow i) → n.magnitude?.isSome = true

/-- A number has a value in YAML that is like it exactly if it fits.  An integer of 65 to
128 bits is refused; past 128 bits it is taken for a floating-point number. -/
theorem Number.isLike_plain?_iff (n : Number) (style : ExponentStyle) :
    ((Scalar.number n style).HasYaml ∧ (Value.number n).IsLike (Scalar.number n style).yaml) ↔
      n.Fits := by
  rw [Scalar.HasYaml, Scalar.yaml]
  by_cases hwide : ∃ i ∈ n.integer?, IsWide i
  · obtain ⟨i, hinteger, hwide⟩ := hwide
    rw [Yaml.plain?_of_isWide hinteger hwide]
    by_cases hnarrow : IsNarrow i
    · have hlike : (Value.number n).IsLike (.integer ⟨i, hnarrow.1, hnarrow.2⟩) :=
        .integer hinteger
      have hfits : n.Fits := by
        refine ⟨fun j hj _ => ?_, fun hnone => absurd hnarrow (hnone i hinteger)⟩
        rwa [Option.mem_unique hj hinteger]
      have hsome : Yaml.ofInteger? i = some (.integer ⟨i, hnarrow.1, hnarrow.2⟩) := dif_pos hnarrow
      rw [hsome]
      exact iff_of_true ⟨rfl, hlike⟩ hfits
    · have hnone : Yaml.ofInteger? i = none := dif_neg hnarrow
      rw [hnone]
      exact iff_of_false (fun h => Bool.false_ne_true h.1)
        fun h => hnarrow (h.narrow i hinteger hwide)
  · have hwide : ∀ i ∈ n.integer?, ¬ IsWide i := by simpa using hwide
    have hfits : n.Fits ↔ n.magnitude?.isSome = true :=
      ⟨fun h => h.finite fun i hi hnarrow => hwide i hi hnarrow.isWide,
        fun h => ⟨fun i hi hi' => absurd hi' (hwide i hi), fun _ => h⟩⟩
    rw [Yaml.plain?_of_not_isWide hwide, hfits]
    cases hmagnitude : n.magnitude? with
    | none => exact iff_of_false (fun h => nomatch h.2) Bool.false_ne_true
    | some magnitude => exact iff_of_true ⟨rfl, .real hmagnitude⟩ rfl

/-! ## Strings -/

/-- The characters of a string mean in YAML what they mean here. -/
def MeanSame (letters : List Letter) : Prop :=
  Yaml.quotedText? letters = some (letters.map Letter.value)

theorem meanSame_iff {letters : List Letter} :
    MeanSame letters ↔ (Yaml.quotedText? letters).isSome = true ∧
      textOf letters = String.ofList (Yaml.foldedText letters) := by
  unfold MeanSame Yaml.foldedText textOf
  cases Yaml.quotedText? letters with
  | none => simp
  | some text => simp [String.ofList_inj, eq_comm]

/-- No character of a string is written as a surrogate pair. -/
def NoPair (letters : List Letter) : Prop := ∀ letter ∈ letters, letter.isPair = false

/-- A surrogate pair means nothing in YAML. -/
theorem quotedTextFrom?_of_pair {letters : List Letter} (h : ¬ NoPair letters)
    (white : List Char) : Yaml.quotedTextFrom? white letters = none := by
  induction letters generalizing white with
  | nil => exact absurd (fun _ h => nomatch h) h
  | cons letter letters ih =>
    rw [Yaml.quotedTextFrom?]
    cases hpair : letter.isPair with
    | true =>
      have hwhite : letter.isWhite = false := by
        cases letter with
        | pair first second hfirst hsecond => rfl
        | _ => cases hpair
      rw [hwhite]
      rfl
    | false =>
      have hmore : ¬ NoPair letters := fun hletters =>
        h (List.forall_mem_cons.mpr ⟨hpair, hletters⟩)
      rw [ih hmore, ih hmore]
      split_ifs <;> rfl

/-! ## Trees -/

/-- No string is written with a surrogate pair. -/
def Scalar.NoPair : Scalar → Prop
  | .string letters => Json.NoPair letters
  | _ => True

/-- A scalar has the same value in YAML. -/
def Scalar.IsSame : Scalar → Prop
  | .number n _ => n.Fits
  | .string letters => MeanSame letters
  | _ => True

/-- A key is short, and has the same text in YAML. -/
structure Key.IsSame (key : Key) : Prop where
  short : key.isShort = true
  same : MeanSame key.letters

theorem Key.isSame_iff {key : Key} :
    key.IsSame ↔ (Yaml.quotedText? key.letters).isSome = true ∧ key.isShort = true ∧
      key.folded = key.text := by
  rw [Key.folded, Key.text, eq_comm (a := String.ofList _)]
  exact ⟨fun h => ⟨(meanSame_iff.mp h.same).1, h.short, (meanSame_iff.mp h.same).2⟩,
    fun h => ⟨h.2.1, meanSame_iff.mpr ⟨h.1, h.2.2⟩⟩⟩

/-- Keys that are the same in YAML are distinct there as well. -/
theorem keys_isSame_iff {keys : List Key} (hdistinct : (keys.map Key.text).Nodup) :
    ((∀ key ∈ keys, (Yaml.quotedText? key.letters).isSome = true) ∧
        (∀ key ∈ keys, key.isShort = true) ∧ (keys.map Key.folded).Nodup ∧
          ∀ key ∈ keys, key.folded = key.text) ↔ ∀ key ∈ keys, key.IsSame := by
  constructor
  · rintro ⟨hscanned, hshort, -, hfolded⟩ key hkey
    exact Key.isSame_iff.mpr ⟨hscanned key hkey, hshort key hkey, hfolded key hkey⟩
  · intro hsame
    have hkey := fun key hkey => Key.isSame_iff.mp (hsame key hkey)
    have hfolded : ∀ key ∈ keys, key.folded = key.text := fun key h => (hkey key h).2.2
    refine ⟨fun key h => (hkey key h).1, fun key h => (hkey key h).2.1, ?_, hfolded⟩
    rwa [List.map_congr_left hfolded]

namespace Tree

/-- No key comes twice in an object. -/
def KeysDistinct : Tree → Prop := All (fun _ => True) fun keys => (keys.map Key.text).Nodup

/-- Every scalar and every key has the same value in YAML, and no object stands for a
number. -/
def IsSame : Tree → Prop :=
  All Scalar.IsSame fun keys =>
    (∀ key ∈ keys, key.IsSame) ∧ ∀ key ∈ keys.head?, key.text ≠ numberKey

theorem isLike_array_iff {items : List (Spaced Tree)} {space : Space} :
    (array space items).value.IsLike (array space items).yaml ↔
      ∀ item ∈ items, item.content.value.IsLike item.content.yaml := by
  rw [value_array, yaml_array, Value.isLike_array_iff, List.forall₂_map_left_iff,
    List.forall₂_map_right_iff, List.forall₂_same]

/-- The values of an object are like exactly if it stands for no number, and its keys and
the values of its members are. -/
theorem isLike_object_iff {members : List (Member Tree)} {space : Space}
    (hdistinct : ((members.map Member.key).map Key.text).Nodup) :
    (object space members).value.IsLike (object space members).yaml ↔
      (∀ key ∈ (members.map Member.key).head?, key.text ≠ numberKey) ∧
        (∀ key ∈ members.map Member.key, key.folded = key.text) ∧
        ∀ member ∈ members, member.part.content.value.IsLike member.part.content.yaml := by
  rw [value_object, yaml_object]
  by_cases hnumber : ∀ key ∈ (members.map Member.key).head?, key.text ≠ numberKey
  · have hobject : objectOf (members.map fun member =>
        (member.key.text, member.part.content.value)) =
        .object (members.map fun member => (member.key.text, member.part.content.value)) := by
      rw [objectOf_of_ne, Members.ofPairs_of_nodup]
      · simpa [Members.keys, Function.comp_def] using hdistinct
      · simpa using hnumber
    rw [hobject, Value.isLike_object_iff]
    simp only [List.map_map, Function.comp_def, List.forall₂_map_left_iff,
      List.forall₂_map_right_iff, List.forall₂_same, List.map_inj_left, List.forall_mem_map,
      Yaml.Value.string.injEq]
    exact (and_iff_right hnumber).symm
  · refine iff_of_false ?_ fun h => hnumber h.1
    cases members with
    | nil => exact absurd (by simp) hnumber
    | cons member members =>
      have hkey : member.key.text = numberKey := by simpa using hnumber
      rw [List.map_cons, objectOf, if_pos hkey]
      exact Value.not_isLike_number_mapping

/-- No string and no key of a tree is written with a surrogate pair. -/
def NoPair : Tree → Prop := All Scalar.NoPair fun keys => ∀ key ∈ keys, Json.NoPair key.letters

theorem noPair_of_isScanned {tree : Tree} (h : tree.IsScanned) : tree.NoPair := by
  have hletters : ∀ letters : List Letter, (Yaml.quotedText? letters).isSome = true →
      Json.NoPair letters := by
    intro letters hsome
    by_contra hpair
    rw [Yaml.quotedText?, quotedTextFrom?_of_pair hpair] at hsome
    cases hsome
  refine h.mono (fun scalar hscalar => ?_) fun keys hkeys key hkey => hletters _ (hkeys key hkey)
  cases scalar with
  | string letters => exact hletters letters hscalar
  | _ => trivial

/-- A tree has like values exactly if its parts are the same in YAML. -/
theorem isLike_yaml_iff {tree : Tree} (hdistinct : tree.KeysDistinct) :
    (tree.IsScanned ∧ tree.KeysShort ∧ tree.HasYaml ∧ tree.value.IsLike tree.yaml) ↔
      tree.IsSame := by
  induction tree using Tree.inductionOn with
  | scalar scalar =>
    rw [IsScanned, all_scalar, KeysShort, all_scalar, HasYaml, all_scalar, IsSame, all_scalar,
      value_scalar, yaml_scalar]
    cases scalar with
    | null => exact iff_of_true ⟨trivial, trivial, trivial, .null⟩ trivial
    | bool flag => exact iff_of_true ⟨trivial, trivial, trivial, .bool flag⟩ trivial
    | number n style =>
      rw [Scalar.IsSame, ← n.isLike_plain?_iff style]
      exact ⟨fun h => h.2.2, fun h => ⟨trivial, trivial, h⟩⟩
    | string letters =>
      rw [Scalar.IsSame, meanSame_iff, Scalar.value, Scalar.yaml, Value.isLike_string_iff]
      exact ⟨fun h => ⟨h.1, h.2.2.2⟩, fun h => ⟨h.1, trivial, trivial, h.2⟩⟩
  | array space items ih =>
    rw [KeysDistinct, all_array] at hdistinct
    rw [IsScanned, all_array, KeysShort, all_array, HasYaml, all_array, IsSame, all_array,
      isLike_array_iff, ← forall₂_and, ← forall₂_and, ← forall₂_and]
    exact forall₂_congr fun item hitem => ih item hitem (hdistinct item hitem)
  | object space members ih =>
    rw [KeysDistinct, all_object] at hdistinct
    rw [IsScanned, all_object, KeysShort, all_object, HasYaml, all_object, IsSame, all_object,
      isLike_object_iff hdistinct.1]
    have hih := fun member hmember => ih member hmember (hdistinct.2 member hmember)
    constructor
    · rintro ⟨⟨hscanned, hs⟩, ⟨hshort, hk⟩, ⟨hnodup, hy⟩, hnumber, hfolded, hlike⟩
      have hkeys := (keys_isSame_iff hdistinct.1).mp ⟨hscanned, hshort, hnodup, hfolded⟩
      exact ⟨⟨hkeys, hnumber⟩, fun member hmember => (hih member hmember).mp
        ⟨hs member hmember, hk member hmember, hy member hmember, hlike member hmember⟩⟩
    · rintro ⟨⟨hkeys, hnumber⟩, hcontents⟩
      obtain ⟨hscanned, hshort, hnodup, hfolded⟩ := (keys_isSame_iff hdistinct.1).mpr hkeys
      have hcontent := fun member hmember => (hih member hmember).mpr (hcontents member hmember)
      exact ⟨⟨hscanned, fun member hmember => (hcontent member hmember).1⟩,
        ⟨hshort, fun member hmember => (hcontent member hmember).2.1⟩,
        ⟨hnodup, fun member hmember => (hcontent member hmember).2.2.1⟩, hnumber, hfolded,
        fun member hmember => (hcontent member hmember).2.2.2⟩

end Tree

end Json

end GoldenFixtures
