import Mathlib.Data.List.Induction
import GoldenFixtures.Proofs.Json.ReadBack

/-!
# What the reader gives

Every value that the reader gives nests no deeper than it allows, and in every
object of it the keys are distinct: a key that repeats in the text has one
place.  No object starts with the key that spells a number, since such an object
is read as the number.  `read_readable` says so for a whole text: the value can
be written and read back (`read_toPretty`).
-/

namespace GoldenFixtures.Json

theorem bind_eq_ok {ε α β : Type} {x : Except ε α} {f : α → Except ε β} {b : β} :
    (x >>= f) = .ok b ↔ ∃ a, x = .ok a ∧ f a = .ok b := by
  constructor
  · intro h
    cases x with
    | error e => cases h
    | ok a => exact ⟨a, rfl, h⟩
  · rintro ⟨a, rfl, h⟩
    exact h

theorem map_eq_ok {ε α β : Type} {x : Except ε α} {f : α → β} {b : β} :
    x.map f = .ok b ↔ ∃ a, x = .ok a ∧ f a = b := by
  constructor
  · intro h
    cases x with
    | error e => cases h
    | ok a => exact ⟨a, rfl, Except.ok.inj h⟩
  · rintro ⟨a, rfl, h⟩
    exact congrArg Except.ok h

/-! ## Members -/

namespace Members

theorem keys_set_of_mem {members : Members} {key : String} {value : Value}
    (h : key ∈ keys members) : keys (set members key value) = keys members := by
  induction members with
  | nil => simp at h
  | cons member members ih =>
    rw [set]
    split
    · rfl
    · rename_i hne
      rw [keys_cons, keys_cons, ih ((List.mem_cons.mp h).resolve_left (Ne.symm hne))]

theorem nodup_keys_set {members : Members} (h : members.keys.Nodup) (key : String)
    (value : Value) : (set members key value).keys.Nodup := by
  by_cases hmem : key ∈ keys members
  · rw [keys_set_of_mem hmem]
    exact h
  · rw [set_of_notMem hmem, keys_append]
    exact List.nodup_append_comm.mp (List.nodup_cons.mpr ⟨hmem, h⟩)

theorem mem_set {members : Members} {key : String} {value : Value} {member : String × Value}
    (h : member ∈ set members key value) : member = (key, value) ∨ member ∈ members := by
  induction members with
  | nil => exact Or.inl (List.mem_singleton.mp h)
  | cons first members ih =>
    rw [set] at h
    split at h
    · rename_i hkey
      rcases List.mem_cons.mp h with hfirst | hrest
      · exact Or.inl (by rw [hfirst, hkey])
      · exact Or.inr (List.mem_cons_of_mem _ hrest)
    · rcases List.mem_cons.mp h with hfirst | hrest
      · exact Or.inr (by rw [hfirst]; exact List.mem_cons_self)
      · exact (ih hrest).imp_right (List.mem_cons_of_mem _)

/-- However often keys repeat, the members have distinct ones, and each is one
of the pairs.  The pairs are folded from the front, so the induction takes the last
one off. -/
theorem ofPairs_shape (pairs : List (String × Value)) :
    (ofPairs pairs).keys.Nodup ∧ ∀ member ∈ ofPairs pairs, member ∈ pairs := by
  unfold ofPairs
  induction pairs using List.reverseRecOn with
  | nil => simp
  | append_singleton pairs pair ih =>
    rw [List.foldl_append, List.foldl_cons, List.foldl_nil]
    refine ⟨nodup_keys_set ih.1 _ _, ?_⟩
    intro member hmember
    rcases mem_set hmember with hlast | hfront
    · simp [hlast]
    · exact List.mem_append_left _ (ih.2 member hfront)

theorem head?_keys_set {members : Members} (h : members ≠ []) (key : String) (value : Value) :
    (set members key value).keys.head? = members.keys.head? := by
  obtain ⟨first, members, rfl⟩ := List.exists_cons_of_ne_nil h
  rw [set]
  split
  · rfl
  · rfl

/-- The first key stays the first one. -/
theorem head?_keys_ofPairs (pairs : List (String × Value)) :
    (ofPairs pairs).keys.head? = pairs.head?.map Prod.fst := by
  unfold ofPairs
  induction pairs using List.reverseRecOn with
  | nil => rfl
  | append_singleton pairs pair ih =>
    rw [List.foldl_append, List.foldl_cons, List.foldl_nil]
    by_cases hpairs : pairs = []
    · rw [hpairs]
      rfl
    · have hhead : pairs.head?.map Prod.fst ≠ none := by simpa using hpairs
      have hne : pairs.foldl (fun members pair => set members pair.1 pair.2) [] ≠ [] := by
        intro hnil
        rw [hnil] at ih
        exact hhead ih.symm
      rw [head?_keys_set hne, ih, List.head?_append_of_ne_nil _ hpairs]

end Members

/-! ## The reader -/

section

variable {α : Type} {part : List Char → Except Fault (α × List Char)} {closing : Closing}
  {P : α → Prop}

/-- What holds of every part that is read holds of all of them. -/
theorem readParts_forall (hpart : ∀ text a left, part text = .ok (a, left) → P a) {steps : Nat}
    {text left : List Char} {as : List α} (h : readParts closing part steps text = .ok (as, left)) :
    ∀ a ∈ as, P a := by
  induction steps generalizing text as left with
  | zero => cases h
  | succ steps ih =>
    rw [readParts] at h
    obtain ⟨⟨first, behind⟩, hfirst, h⟩ := bind_eq_ok.mp h
    have hP := hpart _ _ _ hfirst
    simp only at h
    split at h
    · cases h
    · split at h
      · cases h
        simpa using hP
      · split at h
        · split at h
          · cases h
          · split at h
            · cases h
            · obtain ⟨⟨others, left⟩, hothers, h⟩ := bind_eq_ok.mp h
              cases h
              exact List.forall_mem_cons.mpr ⟨hP, ih hothers⟩
        · cases h

/-- The first part is read where the parts start. -/
theorem exists_of_readParts {steps : Nat} {text left : List Char} {as : List α}
    (h : readParts closing part steps text = .ok (as, left)) :
    ∃ a others behind, as = a :: others ∧ part text = .ok (a, behind) := by
  cases steps with
  | zero => cases h
  | succ steps =>
    rw [readParts] at h
    obtain ⟨⟨first, behind⟩, hfirst, h⟩ := bind_eq_ok.mp h
    simp only at h
    split at h
    · cases h
    · split at h
      · cases h
        exact ⟨first, [], behind, rfl, hfirst⟩
      · split at h
        · split at h
          · cases h
          · split at h
            · cases h
            · obtain ⟨⟨others, left⟩, _, h⟩ := bind_eq_ok.mp h
              cases h
              exact ⟨first, others, behind, rfl, hfirst⟩
        · cases h

end

/-- A value that nests at most so deep, with distinct keys in every object. -/
def HasShape (depth : Nat) (value : Value) : Prop :=
  value.depth ≤ depth ∧ value.EveryObject List.Nodup

/-- A value that nests at most so deep, with keys that are read back. -/
def IsReadable (depth : Nat) (value : Value) : Prop :=
  value.depth ≤ depth ∧ value.EveryObject ReadableKeys

theorem isReadable_array_iff {depth : Nat} {items : List Value} :
    IsReadable (depth + 1) (.array items) ↔ ∀ item ∈ items, IsReadable depth item := by
  unfold IsReadable
  rw [Value.depth_array_le_succ_iff, Value.everyObject_array]
  simp only [imp_and, forall_and]

theorem isReadable_object_iff {depth : Nat} {members : Members} :
    IsReadable (depth + 1) (.object members) ↔
      ReadableKeys members.keys ∧ ∀ member ∈ members, IsReadable depth member.2 := by
  unfold IsReadable
  rw [Value.depth_object_le_succ_iff, Value.everyObject_object]
  simp only [imp_and, forall_and]
  exact and_left_comm

theorem IsReadable.hasShape {depth : Nat} {value : Value} (h : IsReadable depth value) :
    HasShape depth value :=
  ⟨h.1, h.2.mono fun _ hkeys => hkeys.1⟩

section

variable {item : List Char → Except Fault (Value × List Char)} {depth : Nat}

theorem readArray_readable
    (hitem : ∀ text value left, item text = .ok (value, left) → IsReadable depth value)
    {text left : List Char} {items : List Value} (h : readArray item text = .ok (items, left)) :
    IsReadable (depth + 1) (.array items) := by
  rw [isReadable_array_iff]
  unfold readArray at h
  split at h
  · cases h
  · cases h
    simp
  · exact readParts_forall hitem h

/-- An object that does not spell a number starts with another key. -/
theorem readMember_key_ne {text left : List Char} {member : String × Value}
    (hnumber : behindNumberKey? text = none) (h : readMember item text = .ok (member, left)) :
    member.1 ≠ numberKey := by
  unfold readMember at h
  split at h
  · obtain ⟨⟨key, behind⟩, hkey, h⟩ := bind_eq_ok.mp h
    simp only at h
    split at h
    · cases h
    · obtain ⟨⟨value, behind⟩, _, h⟩ := bind_eq_ok.mp h
      cases h
      rw [behindNumberKey?, hkey] at hnumber
      simpa using hnumber
    · cases h
  · cases h

theorem readMember_readable
    (hitem : ∀ text value left, item text = .ok (value, left) → IsReadable depth value)
    (text : List Char) (member : String × Value) (left : List Char)
    (h : readMember item text = .ok (member, left)) : IsReadable depth member.2 := by
  unfold readMember at h
  split at h
  · obtain ⟨⟨key, behind⟩, _, h⟩ := bind_eq_ok.mp h
    simp only at h
    split at h
    · cases h
    · obtain ⟨⟨value, behind⟩, hvalue, h⟩ := bind_eq_ok.mp h
      cases h
      exact hitem _ _ _ hvalue
    · cases h
  · cases h

theorem readObject_readable
    (hitem : ∀ text value left, item text = .ok (value, left) → IsReadable depth value)
    {text left : List Char} {value : Value} (h : readObject item text = .ok (value, left)) :
    IsReadable (depth + 1) value := by
  unfold readObject at h
  split at h
  · cases h
  · cases h
    exact isReadable_object_iff.mpr ⟨by simp [ReadableKeys], by simp⟩
  · split at h
    · obtain ⟨⟨n, behind⟩, _, h⟩ := map_eq_ok.mp h
      cases h
      exact ⟨Nat.zero_le _, trivial⟩
    · rename_i hnumber
      obtain ⟨⟨pairs, behind⟩, hpairs, h⟩ := map_eq_ok.mp h
      cases h
      have hmembers := readParts_forall (readMember_readable hitem) hpairs
      obtain ⟨hnodup, hmem⟩ := Members.ofPairs_shape pairs
      obtain ⟨first, others, _, rfl, hfirst⟩ := exists_of_readParts hpairs
      have hhead := readMember_key_ne hnumber hfirst
      refine isReadable_object_iff.mpr ⟨⟨hnodup, ?_⟩,
        fun member hmember => hmembers member (hmem member hmember)⟩
      rw [Members.head?_keys_ofPairs]
      simpa using hhead

end

/-- The value is neither an array nor an object. -/
def IsScalar (value : Value) : Prop :=
  (∀ items, value ≠ .array items) ∧ ∀ members, value ≠ .object members

theorem IsScalar.isReadable {value : Value} (h : IsScalar value) (depth : Nat) :
    IsReadable depth value := by
  cases value with
  | array items => exact absurd rfl (h.1 items)
  | object members => exact absurd rfl (h.2 members)
  | _ => exact ⟨Nat.zero_le _, trivial⟩

theorem isScalar_of_map {α : Type} {x : Except Fault α} {f : α → Value × List Char}
    {read : Value × List Char} (hf : ∀ a, IsScalar (f a).1) (h : x.map f = .ok read) :
    IsScalar read.1 := by
  obtain ⟨a, _, rfl⟩ := map_eq_ok.mp h
  exact hf a

/-- A value that is read is a scalar, or an array or object that is read one
level deeper. -/
theorem readValue_cases {depth : Nat} {text left : List Char} {value : Value}
    (h : readValue depth text = .ok (value, left)) :
    IsScalar value ∨
      ∃ n inside, depth = n + 1 ∧
        ((∃ items, value = .array items ∧ readArray (readValue n) inside = .ok (items, left)) ∨
          readObject (readValue n) inside = .ok (value, left)) := by
  rw [readValue] at h
  split at h
  · cases h
  split at h
  · exact Or.inl (isScalar_of_map (fun _ => ⟨by simp, by simp⟩) h)
  split at h
  · cases depth with
    | zero => cases h
    | succ n =>
      obtain ⟨_, harray, h⟩ := map_eq_ok.mp h
      cases h
      exact Or.inr ⟨n, _, rfl, Or.inl ⟨_, rfl, harray⟩⟩
  split at h
  · cases depth with
    | zero => cases h
    | succ n => exact Or.inr ⟨n, _, rfl, Or.inr h⟩
  split at h
  · exact Or.inl (isScalar_of_map (fun _ => ⟨by simp, by simp⟩) h)
  split at h
  · exact Or.inl (isScalar_of_map (fun _ => ⟨by simp, by simp⟩) h)
  split at h
  · exact Or.inl (isScalar_of_map (fun _ => ⟨by simp, by simp⟩) h)
  split at h
  · exact Or.inl (isScalar_of_map (fun _ => ⟨by simp, by simp⟩) h)
  split at h
  · exact Or.inl (isScalar_of_map (fun _ => ⟨by simp, by simp⟩) h)
  · cases h

/-- Every value that is read nests at most as deep as allowed, with keys that are
read back. -/
theorem readValue_readable {depth : Nat} {text left : List Char} {value : Value}
    (h : readValue depth text = .ok (value, left)) : IsReadable depth value := by
  induction depth generalizing text value left with
  | zero =>
    rcases readValue_cases h with hscalar | ⟨n, _, hdepth, _⟩
    · exact hscalar.isReadable 0
    · exact absurd hdepth (by omega)
  | succ depth ih =>
    rcases readValue_cases h with hscalar | ⟨n, inside, hdepth, hinside⟩
    · exact hscalar.isReadable (depth + 1)
    · obtain rfl : depth = n := Nat.succ.inj hdepth
      rcases hinside with ⟨items, rfl, harray⟩ | hobject
      · exact readArray_readable (fun _ _ _ => ih) harray
      · exact readObject_readable (fun _ _ _ => ih) hobject

/-- A whole text is read as a value with nothing but white space behind it. -/
theorem exists_of_read {text : List Char} {value : Value} (h : Value.read text = .ok value) :
    ∃ left, readValue maxDepth text = .ok (value, left) ∧ skipSpace left = [] := by
  have hwhole : readWholeText text = .ok value := by
    unfold Value.read at h
    cases hread : readWholeText text with
    | error fault => rw [hread] at h; cases h
    | ok found => rw [hread] at h; cases h; rfl
  unfold readWholeText at hwhole
  obtain ⟨⟨found, left⟩, hfound, hwhole⟩ := bind_eq_ok.mp hwhole
  simp only at hwhole
  split at hwhole
  · rename_i hleft
    cases hwhole
    exact ⟨left, hfound, hleft⟩
  · cases hwhole

/-- The value of a whole text can be written and read back. -/
theorem read_readable {text : List Char} {value : Value} (h : Value.read text = .ok value) :
    IsReadable maxDepth value := by
  obtain ⟨left, hread, -⟩ := exists_of_read h
  exact readValue_readable hread

/-- The value of a whole text has the shape that the reader allows. -/
theorem read_shape {text : List Char} {value : Value} (h : Value.read text = .ok value) :
    HasShape maxDepth value :=
  (read_readable h).hasShape

end GoldenFixtures.Json
