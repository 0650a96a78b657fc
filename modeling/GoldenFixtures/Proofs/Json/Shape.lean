import Mathlib.Data.List.Nodup
import GoldenFixtures.Json.Sorted
import GoldenFixtures.Json.Writer

/-!
# The shape of JSON values

Two things that the reader and the writer care for: `Value.depth` counts the
arrays and objects that stand inside one another, and `Value.EveryObject p` says
that the keys of every object of the value satisfy `p`.

The functions on values go through the elements of an array and the members of
an object with functions of their own.  The lemmas here say that these are maps
over lists, so that an induction over a value needs no more than
`Value.inductionOn`.
-/

namespace GoldenFixtures.Json

/-- The keys of an object, in order. -/
def Members.keys (members : Members) : List String := members.map Prod.fst

@[simp] theorem Members.keys_nil : Members.keys [] = [] := rfl

@[simp] theorem Members.keys_cons (member : String × Value) (members : Members) :
    Members.keys (member :: members) = member.1 :: Members.keys members := rfl

namespace Members

theorem keys_append (members others : Members) :
    keys (members ++ others) = keys members ++ keys others :=
  List.map_append

theorem mem_keys_of_mem {members : Members} {key : String} {value : Value}
    (h : (key, value) ∈ members) : key ∈ keys members :=
  List.mem_map_of_mem h

theorem mem_of_get? {members : Members} {key : String} {value : Value}
    (h : get? members key = some value) : (key, value) ∈ members := by
  obtain ⟨front, back, rfl, -⟩ := List.lookup_eq_some_iff.mp h
  simp

/-- A key has a value if it is one of the keys. -/
theorem exists_get?_iff {members : Members} {key : String} :
    (∃ value, get? members key = some value) ↔ key ∈ keys members := by
  rw [get?, ← Option.isSome_iff_exists, List.lookup_isSome_iff, keys, List.mem_map]
  simp only [beq_iff_eq, @eq_comm _ key]

/-- Of distinct keys, each has the one value that stands with it. -/
theorem get?_eq_some_iff {members : Members} (h : (keys members).Nodup) {key : String}
    {value : Value} : get? members key = some value ↔ (key, value) ∈ members := by
  induction members with
  | nil => simp [get?]
  | cons member members ih =>
    obtain ⟨first, firstValue⟩ := member
    rw [keys_cons, List.nodup_cons] at h
    have hrest := ih h.2
    rw [get?] at hrest ⊢
    rw [List.mem_cons, Prod.mk.injEq]
    by_cases hkey : key = first
    · subst hkey
      have hnot : (key, value) ∉ members := fun hmem => h.1 (mem_keys_of_mem hmem)
      rw [List.lookup_cons_self]
      simp [hnot, eq_comm]
    · have hne : (key == first) = false := beq_eq_false_iff_ne.mpr hkey
      rw [List.lookup_cons, hne]
      simp [hkey, hrest]

theorem set_of_notMem {members : Members} {key : String} {value : Value}
    (h : key ∉ keys members) : set members key value = members ++ [(key, value)] := by
  induction members with
  | nil => rfl
  | cons member members ih =>
    rw [keys_cons, List.mem_cons, not_or] at h
    rw [set, if_neg (Ne.symm h.1), ih h.2, List.cons_append]

/-- Members with distinct keys stay as they are. -/
theorem ofPairs_of_nodup {pairs : List (String × Value)} (h : (keys pairs).Nodup) :
    ofPairs pairs = pairs := by
  have hfold : ∀ (front later : List (String × Value)), (keys (front ++ later)).Nodup →
      later.foldl (fun members pair => set members pair.1 pair.2) front = front ++ later := by
    intro front later hkeys
    induction later generalizing front with
    | nil => simp
    | cons pair later ih =>
      have hnew : pair.1 ∉ keys front := by
        rw [keys_append, keys_cons] at hkeys
        intro hmem
        exact List.disjoint_of_nodup_append hkeys hmem (by simp)
      have hsplit : front ++ pair :: later = (front ++ [pair]) ++ later := by simp
      rw [List.foldl_cons, set_of_notMem hnew, hsplit]
      exact ih (front ++ [pair]) (by rw [← hsplit]; exact hkeys)
  exact hfold [] pairs h

end Members

namespace Value

/-- An induction over a value, in which the elements of an array and the values
of an object's members come before the array or the object. -/
@[elab_as_elim]
theorem inductionOn {motive : Value → Prop} (value : Value) (null : motive .null)
    (bool : ∀ flag, motive (.bool flag)) (number : ∀ n, motive (.number n))
    (string : ∀ text, motive (.string text))
    (array : ∀ items, (∀ item ∈ items, motive item) → motive (.array items))
    (object : ∀ members : Members, (∀ member ∈ members, motive member.2) →
      motive (.object members)) :
    motive value :=
  @Value.rec motive (fun items => ∀ item ∈ items, motive item)
    (fun members => ∀ member ∈ members, motive member.2) (fun member => motive member.2)
    null bool number string array object
    (fun _ h => by simp at h)
    (fun _ _ hfirst hrest => List.forall_mem_cons.mpr ⟨hfirst, hrest⟩)
    (fun _ h => by simp at h)
    (fun _ _ hfirst hrest => List.forall_mem_cons.mpr ⟨hfirst, hrest⟩)
    (fun _ _ hvalue => hvalue)
    value

/-! ## Depth -/

mutual

/-- The number of arrays and objects that stand inside one another. -/
def depth : Value → Nat
  | .array items => depthOfItems items + 1
  | .object members => depthOfMembers members + 1
  | _ => 0

/-- The greatest depth of the elements of an array. -/
def depthOfItems : List Value → Nat
  | [] => 0
  | item :: items => max (depth item) (depthOfItems items)

/-- The greatest depth of the members of an object. -/
def depthOfMembers : List (String × Value) → Nat
  | [] => 0
  | (_, value) :: members => max (depth value) (depthOfMembers members)

end

theorem depthOfItems_le_iff {items : List Value} {n : Nat} :
    depthOfItems items ≤ n ↔ ∀ item ∈ items, item.depth ≤ n := by
  induction items with
  | nil => simp [depthOfItems]
  | cons item items ih => rw [depthOfItems, Nat.max_le, ih, List.forall_mem_cons]

theorem depthOfMembers_le_iff {members : Members} {n : Nat} :
    depthOfMembers members ≤ n ↔ ∀ member ∈ members, member.2.depth ≤ n := by
  induction members with
  | nil => simp [depthOfMembers]
  | cons member members ih => rw [depthOfMembers, Nat.max_le, ih, List.forall_mem_cons]

@[simp] theorem depth_array_le_succ_iff {items : List Value} {n : Nat} :
    (array items).depth ≤ n + 1 ↔ ∀ item ∈ items, item.depth ≤ n := by
  rw [depth, Nat.succ_le_succ_iff, depthOfItems_le_iff]

@[simp] theorem depth_object_le_succ_iff {members : Members} {n : Nat} :
    (object members).depth ≤ n + 1 ↔ ∀ member ∈ members, member.2.depth ≤ n := by
  rw [depth, Nat.succ_le_succ_iff, depthOfMembers_le_iff]

/-- An array in a bounded depth has its elements one level deeper. -/
theorem depth_array_le_iff {items : List Value} {n : Nat} :
    (array items).depth ≤ n ↔ ∃ m, n = m + 1 ∧ ∀ item ∈ items, item.depth ≤ m := by
  cases n with
  | zero => simp [depth]
  | succ n => simp

/-- An object in a bounded depth has its members one level deeper. -/
theorem depth_object_le_iff {members : Members} {n : Nat} :
    (object members).depth ≤ n ↔ ∃ m, n = m + 1 ∧ ∀ member ∈ members, member.2.depth ≤ m := by
  cases n with
  | zero => simp [depth]
  | succ n => simp

/-! ## The keys of every object -/

mutual

/-- The keys of every object of a value satisfy a property. -/
def EveryObject (p : List String → Prop) : Value → Prop
  | .array items => EveryObjectOfItems p items
  | .object members => p (Members.keys members) ∧ EveryObjectOfMembers p members
  | _ => True

/-- The keys of every object of the elements of an array do. -/
def EveryObjectOfItems (p : List String → Prop) : List Value → Prop
  | [] => True
  | item :: items => EveryObject p item ∧ EveryObjectOfItems p items

/-- The keys of every object of the members of an object do. -/
def EveryObjectOfMembers (p : List String → Prop) : List (String × Value) → Prop
  | [] => True
  | (_, value) :: members => EveryObject p value ∧ EveryObjectOfMembers p members

end

variable {p q : List String → Prop}

theorem everyObjectOfItems_iff {items : List Value} :
    EveryObjectOfItems p items ↔ ∀ item ∈ items, item.EveryObject p := by
  induction items with
  | nil => simp [EveryObjectOfItems]
  | cons item items ih => rw [EveryObjectOfItems, ih, List.forall_mem_cons]

theorem everyObjectOfMembers_iff {members : Members} :
    EveryObjectOfMembers p members ↔ ∀ member ∈ members, member.2.EveryObject p := by
  induction members with
  | nil => simp [EveryObjectOfMembers]
  | cons member members ih => rw [EveryObjectOfMembers, ih, List.forall_mem_cons]

@[simp] theorem everyObject_array {items : List Value} :
    (array items).EveryObject p ↔ ∀ item ∈ items, item.EveryObject p := by
  rw [EveryObject, everyObjectOfItems_iff]

@[simp] theorem everyObject_object {members : Members} :
    (object members).EveryObject p ↔
      p (Members.keys members) ∧ ∀ member ∈ members, member.2.EveryObject p := by
  rw [EveryObject, everyObjectOfMembers_iff]

@[simp] theorem everyObject_string {text : String} : (string text).EveryObject p := by
  rw [EveryObject]
  · trivial
  · intro items
    exact Value.noConfusion
  · intro members
    exact Value.noConfusion

theorem EveryObject.mono {value : Value} (h : value.EveryObject p)
    (himp : ∀ keys, p keys → q keys) : value.EveryObject q := by
  induction value using inductionOn with
  | array items ih =>
    rw [everyObject_array] at h ⊢
    intro item hitem
    exact ih item hitem (h item hitem)
  | object members ih =>
    rw [everyObject_object] at h ⊢
    refine ⟨himp _ h.1, ?_⟩
    intro member hmember
    exact ih member hmember (h.2 member hmember)
  | _ => simp [EveryObject]

theorem EveryObject.and {value : Value} (hp : value.EveryObject p) (hq : value.EveryObject q) :
    value.EveryObject fun keys => p keys ∧ q keys := by
  induction value using inductionOn with
  | array items ih =>
    rw [everyObject_array] at hp hq ⊢
    intro item hitem
    exact ih item hitem (hp item hitem) (hq item hitem)
  | object members ih =>
    rw [everyObject_object] at hp hq ⊢
    refine ⟨⟨hp.1, hq.1⟩, ?_⟩
    intro member hmember
    exact ih member hmember (hp.2 member hmember) (hq.2 member hmember)
  | _ => simp [EveryObject]

/-! ## Maps over elements and members -/

theorem prettyItems_eq_map (level : Nat) (items : List Value) :
    prettyItems level items = items.map fun item => newLine level ++ item.pretty level := by
  induction items with
  | nil => rfl
  | cons item items ih => rw [prettyItems, ih, List.map_cons]

theorem prettyMembers_eq_map (level : Nat) (members : Members) :
    prettyMembers level members =
      members.map fun member =>
        newLine level ++ quote member.1 ++ ':' :: ' ' :: member.2.pretty level := by
  induction members with
  | nil => rfl
  | cons member members ih => rw [prettyMembers, ih, List.map_cons]

theorem compactItems_eq_map (items : List Value) : compactItems items = items.map compact := by
  induction items with
  | nil => rfl
  | cons item items ih => rw [compactItems, ih, List.map_cons]

theorem compactMembers_eq_map (members : Members) :
    compactMembers members =
      members.map fun member => quote member.1 ++ ':' :: member.2.compact := by
  induction members with
  | nil => rfl
  | cons member members ih => rw [compactMembers, ih, List.map_cons]

theorem sortedItems_eq_map (items : List Value) : sortedItems items = items.map sorted := by
  induction items with
  | nil => rfl
  | cons item items ih => rw [sortedItems, ih, List.map_cons]

theorem sortedMembers_eq_map (members : Members) :
    sortedMembers members = members.map fun member => (member.1, member.2.sorted) := by
  induction members with
  | nil => rfl
  | cons member members ih => rw [sortedMembers, ih, List.map_cons]

end Value

end GoldenFixtures.Json
