import Mathlib.Data.List.Forall2
import Mathlib.Data.String.Basic
import GoldenFixtures.Proofs.Json.Shape

/-!
# Sorted values

Sorting an object's members keeps them all and brings their keys in ascending
order, and what is sorted already stays as it is.  `Value.Alike` is equality of
values up to the order of the members of objects, at every depth; a value and
its sorted form are alike (`Value.alike_sorted`), and values that are alike have one
sorted form (`Value.sorted_eq_of_alike`).
-/

namespace GoldenFixtures.Json

/-! ## Members -/

namespace Members

theorem sortByKey_perm (members : Members) : (sortByKey members).Perm members :=
  List.mergeSort_perm _ _

@[simp] theorem mem_sortByKey {members : Members} {member : String × Value} :
    member ∈ sortByKey members ↔ member ∈ members :=
  (sortByKey_perm members).mem_iff

theorem keys_sortByKey_perm (members : Members) :
    (keys (sortByKey members)).Perm (keys members) :=
  (sortByKey_perm members).map _

theorem pairwise_sortByKey (members : Members) :
    (sortByKey members).Pairwise fun a b => a.1 ≤ b.1 := by
  have hsorted : (sortByKey members).Pairwise fun a b => decide (a.1 ≤ b.1) = true := by
    apply List.pairwise_mergeSort
    · intro a b c hab hbc
      simp only [decide_eq_true_eq] at hab hbc ⊢
      exact String.le_trans hab hbc
    · intro a b
      simpa using String.le_total a.1 b.1
  simpa using hsorted

/-- Members in the order of their keys stay as they are. -/
theorem sortByKey_of_pairwise {members : Members}
    (h : members.Pairwise fun a b => a.1 ≤ b.1) : sortByKey members = members := by
  apply List.mergeSort_of_pairwise
  simpa using h

@[simp] theorem sortByKey_sortByKey (members : Members) :
    sortByKey (sortByKey members) = sortByKey members :=
  sortByKey_of_pairwise (pairwise_sortByKey members)

/-- Distinct keys are sorted into strictly ascending order. -/
theorem keys_sortByKey_strict {members : Members} (h : (keys members).Nodup) :
    (keys (sortByKey members)).Pairwise (· < ·) := by
  have hnodup : (keys (sortByKey members)).Nodup := (keys_sortByKey_perm members).nodup_iff.mpr h
  have hle : (keys (sortByKey members)).Pairwise (· ≤ ·) :=
    List.pairwise_map.mpr (pairwise_sortByKey members)
  refine (hle.and hnodup).imp ?_
  rintro a b ⟨hab, hne⟩
  exact lt_of_le_of_ne hab hne

/-- Of distinct keys, each stands with one value. -/
theorem eq_of_mem_of_fst_eq {members : Members} (h : (keys members).Nodup)
    {member other : String × Value} (hmember : member ∈ members) (hother : other ∈ members)
    (hkey : member.1 = other.1) : member = other := by
  have hvalue := (get?_eq_some_iff h).mpr hmember
  rw [hkey, (get?_eq_some_iff h).mpr hother] at hvalue
  exact Prod.ext hkey (Option.some.inj hvalue).symm

/-- Members with distinct keys are sorted in one way, whatever their order. -/
theorem sortByKey_eq_of_perm {members others : Members} (hperm : members.Perm others)
    (hkeys : (keys others).Nodup) : sortByKey members = sortByKey others := by
  have hsorted : (sortByKey members).Perm others := (sortByKey_perm members).trans hperm
  apply List.Perm.eq_of_pairwise ?_ (pairwise_sortByKey members) (pairwise_sortByKey others)
    (hsorted.trans (sortByKey_perm others).symm)
  intro member other hmember hother hle hge
  have hmember' : member ∈ others := hsorted.mem_iff.mp hmember
  have hother' : other ∈ others := mem_sortByKey.mp hother
  exact eq_of_mem_of_fst_eq hkeys hmember' hother' (le_antisymm hle hge)

end Members

/-! ## Values -/

namespace Value

theorem sorted_array (items : List Value) : (array items).sorted = .array (items.map sorted) := by
  rw [sorted, sortedItems_eq_map]

theorem sorted_object (members : Members) :
    (object members).sorted =
      .object (Members.sortByKey (members.map fun member => (member.1, member.2.sorted))) := by
  rw [sorted, sortedMembers_eq_map]

theorem keys_map_sorted (members : Members) :
    Members.keys (members.map fun member => (member.1, member.2.sorted)) = members.keys := by
  simp [Members.keys, Function.comp_def]

/-- A sorted value stays as it is. -/
@[simp] theorem sorted_sorted (value : Value) : value.sorted.sorted = value.sorted := by
  induction value using inductionOn with
  | array items ih =>
    rw [sorted_array, sorted_array, List.map_map]
    congr 1
    exact List.map_congr_left ih
  | object members ih =>
    have hmembers : ∀ member ∈ Members.sortByKey
        (members.map fun member => (member.1, member.2.sorted)),
        (member.1, member.2.sorted) = member := by
      intro member hmember
      rw [Members.mem_sortByKey, List.mem_map] at hmember
      obtain ⟨original, horiginal, rfl⟩ := hmember
      rw [ih original horiginal]
    rw [sorted_object, sorted_object, List.map_congr_left hmembers, List.map_id',
      Members.sortByKey_sortByKey]
  | _ => rfl

theorem depth_sorted_le {value : Value} {n : Nat} (h : value.depth ≤ n) :
    value.sorted.depth ≤ n := by
  induction value using inductionOn generalizing n with
  | array items ih =>
    obtain ⟨n, rfl, hitems⟩ := depth_array_le_iff.mp h
    rw [sorted_array, depth_array_le_succ_iff, List.forall_mem_map]
    intro item hitem
    exact ih item hitem (hitems item hitem)
  | object members ih =>
    obtain ⟨n, rfl, hmembers⟩ := depth_object_le_iff.mp h
    rw [sorted_object, depth_object_le_succ_iff]
    intro member hmember
    rw [Members.mem_sortByKey, List.mem_map] at hmember
    obtain ⟨original, horiginal, rfl⟩ := hmember
    exact ih original horiginal (hmembers original horiginal)
  | _ => exact h

/-- What holds of the keys of every object in any order holds of them sorted. -/
theorem everyObject_sorted {p : List String → Prop} {value : Value}
    (hp : ∀ keys others, keys.Perm others → p keys → p others) (h : value.EveryObject p) :
    value.sorted.EveryObject p := by
  induction value using inductionOn with
  | array items ih =>
    rw [everyObject_array] at h
    rw [sorted_array, everyObject_array, List.forall_mem_map]
    intro item hitem
    exact ih item hitem (h item hitem)
  | object members ih =>
    rw [everyObject_object] at h
    rw [sorted_object, everyObject_object]
    constructor
    · have hperm := (Members.keys_sortByKey_perm
        (members.map fun member => (member.1, member.2.sorted))).symm
      rw [keys_map_sorted] at hperm
      exact hp _ _ hperm h.1
    · intro member hmember
      rw [Members.mem_sortByKey, List.mem_map] at hmember
      obtain ⟨original, horiginal, rfl⟩ := hmember
      exact ih original horiginal (h.2 original horiginal)
  | _ => exact h

/-! ## Equality up to the order of members -/

mutual

/-- Two values are the same up to the order of the members of objects, at every
depth. -/
def Alike : Value → Value → Prop
  | .null, .null => True
  | .bool flag, .bool other => flag = other
  | .number n, .number other => n = other
  | .string text, .string other => text = other
  | .array items, .array others => AlikeItems items others
  | .object members, .object others =>
    ∃ reordered : Members, others.Perm reordered ∧ AlikeMembers members reordered
  | _, _ => False

/-- Two lists of elements are alike, one by one. -/
def AlikeItems : List Value → List Value → Prop
  | [], [] => True
  | item :: items, other :: others => Alike item other ∧ AlikeItems items others
  | _, _ => False

/-- Two lists of members have the same keys in the same order, and values that
are alike. -/
def AlikeMembers : List (String × Value) → List (String × Value) → Prop
  | [], [] => True
  | (key, value) :: members, (otherKey, otherValue) :: others =>
    key = otherKey ∧ Alike value otherValue ∧ AlikeMembers members others
  | _, _ => False

end

theorem alikeItems_map {f : Value → Value} {items : List Value}
    (h : ∀ item ∈ items, item.Alike (f item)) : AlikeItems items (items.map f) := by
  induction items with
  | nil => trivial
  | cons item items ih =>
    exact ⟨h item (by simp), ih fun other hother => h other (by simp [hother])⟩

theorem alikeMembers_map {f : Value → Value} {members : Members}
    (h : ∀ member ∈ members, member.2.Alike (f member.2)) :
    AlikeMembers members (members.map fun member => (member.1, f member.2)) := by
  induction members with
  | nil => trivial
  | cons member members ih =>
    exact ⟨rfl, h member (by simp), ih fun other hother => h other (by simp [hother])⟩

/-- Sorting changes nothing but the order of members. -/
theorem alike_sorted (value : Value) : value.Alike value.sorted := by
  induction value using inductionOn with
  | array items ih =>
    rw [sorted_array]
    exact alikeItems_map ih
  | object members ih =>
    rw [sorted_object]
    exact ⟨_, Members.sortByKey_perm _, alikeMembers_map ih⟩
  | null => trivial
  | bool flag => rfl
  | number n => rfl
  | string text => rfl

theorem alikeItems_iff {items others : List Value} :
    AlikeItems items others ↔ List.Forall₂ Alike items others := by
  induction items generalizing others with
  | nil => cases others <;> simp [AlikeItems]
  | cons item items ih => cases others <;> simp [AlikeItems, ih]

theorem alikeMembers_iff {members others : Members} :
    AlikeMembers members others ↔
      List.Forall₂ (fun member other => member.1 = other.1 ∧ member.2.Alike other.2)
        members others := by
  induction members generalizing others with
  | nil => cases others <;> simp [AlikeMembers]
  | cons member members ih =>
    cases others with
    | nil => simp [AlikeMembers]
    | cons other others => simp [AlikeMembers, ih, and_assoc]

/-- What is the same for two lists, one by one, is the same for their maps. -/
theorem map_eq_map_of_forall₂ {α β γ : Type} {f : α → γ} {g : β → γ} {r : α → β → Prop}
    {as : List α} {bs : List β} (h : List.Forall₂ r as bs)
    (heq : ∀ a ∈ as, ∀ b ∈ bs, r a b → f a = g b) : as.map f = bs.map g := by
  induction h with
  | nil => rfl
  | cons hr _ ih =>
    have hfirst := heq _ List.mem_cons_self _ List.mem_cons_self hr
    rw [List.map_cons, List.map_cons, hfirst, ih]
    intro a ha b hb
    exact heq a (List.mem_cons_of_mem _ ha) b (List.mem_cons_of_mem _ hb)

/-- Values that are the same up to the order of members have one sorted form. -/
theorem sorted_eq_of_alike {value other : Value} (halike : value.Alike other)
    (hkeys : other.EveryObject List.Nodup) : value.sorted = other.sorted := by
  induction value using inductionOn generalizing other with
  | array items ih =>
    cases other with
    | array others =>
      rw [everyObject_array] at hkeys
      have hitems := alikeItems_iff.mp halike
      rw [sorted_array, sorted_array, map_eq_map_of_forall₂ hitems]
      intro item hitem another hanother h
      exact ih item hitem h (hkeys another hanother)
    | _ => exact absurd halike (by simp [Alike])
  | object members ih =>
    cases other with
    | object others =>
      rw [everyObject_object] at hkeys
      obtain ⟨reordered, hperm, hmembers⟩ := halike
      have hsame : members.map (fun member => (member.1, member.2.sorted)) =
          reordered.map fun member => (member.1, member.2.sorted) := by
        apply map_eq_map_of_forall₂ (alikeMembers_iff.mp hmembers)
        intro member hmember another hanother h
        have hnodup := hkeys.2 another (hperm.mem_iff.mpr hanother)
        rw [h.1, ih member hmember h.2 hnodup]
      rw [sorted_object, sorted_object, hsame]
      congr 1
      apply Members.sortByKey_eq_of_perm (hperm.symm.map _)
      rw [keys_map_sorted]
      exact hkeys.1
    | _ => exact absurd halike (by simp [Alike])
  | null => cases other <;> simp_all [Alike]
  | bool flag => cases other <;> simp_all [Alike]
  | number n => cases other <;> simp_all [Alike]
  | string text => cases other <;> simp_all [Alike]

end Value

end GoldenFixtures.Json
