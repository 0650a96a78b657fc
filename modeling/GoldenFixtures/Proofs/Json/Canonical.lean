import Mathlib.Data.List.Perm.Basic
import GoldenFixtures.Proofs.Json.Compact
import GoldenFixtures.Proofs.Json.Sorted

/-!
# Sorted values as canonical forms

Every object of a sorted value has its keys in strictly ascending order
(`Value.everyObject_sorted_strict`).  Two values have one sorted form exactly if they
are the same up to the order of members: what is alike is sorted into one form
(`Value.sorted_eq_of_alike`), and the form tells all elements and members that it was
made from (`Value.alike_of_sorted_eq`).

Compact texts tell values apart, so the compact text of a sorted value stands for
all values that are alike and for no others (`Value.sorted_isCanonical`).
-/

namespace GoldenFixtures.Json

/-! ## Lists with the same images -/

section

variable {α γ : Type} {f : α → γ}

/-- Lists with the same images are related one by one, if elements with one image are. -/
theorem forall₂_of_map_eq {r : α → α → Prop} {as bs : List α} (hmap : as.map f = bs.map f)
    (h : ∀ a ∈ as, ∀ b, f a = f b → r a b) : List.Forall₂ r as bs := by
  induction as generalizing bs with
  | nil =>
    rw [List.map_eq_nil_iff.mp hmap.symm]
    exact .nil
  | cons a as ih =>
    cases bs with
    | nil => exact nomatch hmap
    | cons b bs =>
      obtain ⟨hfirst, hrest⟩ := List.cons.inj hmap
      refine .cons (h a List.mem_cons_self b hfirst) (ih hrest fun other hother => ?_)
      exact h other (List.mem_cons_of_mem _ hother)

/-- A list whose images come in another order can be reordered so that they do not. -/
theorem exists_perm_of_map_perm {as bs : List α} (h : (bs.map f).Perm (as.map f)) :
    ∃ reordered, bs.Perm reordered ∧ as.map f = reordered.map f := by
  have himages : List.Forall₂ (fun b image => f b = image) bs (bs.map f) := by
    rw [List.forall₂_map_right_iff, List.forall₂_same]
    exact fun _ _ => rfl
  have hcomp : Relation.Comp List.Perm (List.Forall₂ fun b image => f b = image) bs
      (as.map f) := by
    rw [← List.forall₂_comp_perm_eq_perm_comp_forall₂]
    exact ⟨bs.map f, himages, h⟩
  obtain ⟨reordered, hperm, hreordered⟩ := hcomp
  refine ⟨reordered, hperm, ?_⟩
  rw [← List.forall₂_eq_eq_eq, List.forall₂_map_right_iff]
  exact hreordered.flip.imp fun _ _ h => h.symm

end

namespace Value

/-! ## The keys of a sorted value -/

/-- Distinct keys stand in strictly ascending order after sorting, in every object. -/
theorem everyObject_sorted_strict {value : Value} (hkeys : value.EveryObject List.Nodup) :
    value.sorted.EveryObject fun keys => keys.Pairwise (· < ·) := by
  induction value using inductionOn with
  | array items ih =>
    rw [everyObject_array] at hkeys
    rw [sorted_array, everyObject_array, List.forall_mem_map]
    intro item hitem
    exact ih item hitem (hkeys item hitem)
  | object members ih =>
    rw [everyObject_object] at hkeys
    rw [sorted_object, everyObject_object]
    constructor
    · apply Members.keys_sortByKey_strict
      rw [keys_map_sorted]
      exact hkeys.1
    · intro member hmember
      rw [Members.mem_sortByKey, List.mem_map] at hmember
      obtain ⟨original, horiginal, rfl⟩ := hmember
      exact ih original horiginal (hkeys.2 original horiginal)
  | _ => exact hkeys

/-! ## One form for what is alike, and for nothing else -/

/-- Values with one sorted form are the same up to the order of members: both lists of
sorted members are one list in some order.  Nothing is asked of their keys. -/
theorem alike_of_sorted_eq {value other : Value} (h : value.sorted = other.sorted) :
    value.Alike other := by
  induction value using inductionOn generalizing other with
  | array items ih =>
    cases other with
    | array others =>
      rw [sorted_array, sorted_array, array.injEq] at h
      exact alikeItems_iff.mpr (forall₂_of_map_eq h fun item hitem _ => ih item hitem)
    | object others =>
      rw [sorted_array, sorted_object] at h
      exact nomatch h
    | _ =>
      rw [sorted_array] at h
      exact nomatch h
  | object members ih =>
    cases other with
    | object others =>
      rw [sorted_object, sorted_object, object.injEq] at h
      have hperm := (Members.sortByKey_perm
        (others.map fun member => (member.1, member.2.sorted))).symm
      rw [← h] at hperm
      obtain ⟨reordered, hothers, hmap⟩ :=
        exists_perm_of_map_perm (hperm.trans (Members.sortByKey_perm _))
      refine ⟨reordered, hothers, alikeMembers_iff.mpr (forall₂_of_map_eq hmap ?_)⟩
      intro member hmember another hsame
      obtain ⟨hkey, hvalue⟩ := Prod.mk.inj hsame
      exact ⟨hkey, ih member hmember hvalue⟩
    | array others =>
      rw [sorted_array, sorted_object] at h
      exact nomatch h
    | _ =>
      rw [sorted_object] at h
      exact nomatch h
  | null => cases other <;> simp_all [sorted, Alike]
  | bool flag => cases other <;> simp_all [sorted, Alike]
  | number n => cases other <;> simp_all [sorted, Alike]
  | string text => cases other <;> simp_all [sorted, Alike]

/-- **Sorted values are canonical.**  A value with distinct keys in each of its objects
is sorted into one with strictly ascending keys in each, which is the same up to the
order of members and stays as it is when it is sorted again.  Two values are sorted
into one compact text exactly if they are the same up to the order of members. -/
theorem sorted_isCanonical {value : Value} (hkeys : value.EveryObject List.Nodup) :
    value.sorted.EveryObject (fun keys => keys.Pairwise (· < ·)) ∧
      value.Alike value.sorted ∧
      value.sorted.sorted = value.sorted ∧
      ∀ other : Value, other.EveryObject List.Nodup →
        (value.sorted.toCompact = other.sorted.toCompact ↔ value.Alike other) := by
  refine ⟨everyObject_sorted_strict hkeys, alike_sorted value, sorted_sorted value, ?_⟩
  intro other hother
  constructor
  · intro htext
    exact alike_of_sorted_eq (toCompact_injective htext)
  · intro halike
    rw [sorted_eq_of_alike halike hother]

/-- An object in a list in an object, none of them in the order of its keys. -/
def shuffled : Value :=
  .object
    [("steps", .array
        [.object [("seconds", .number (.ofNat 90)), ("Name", .string "load")], .null]),
      ("mode", .string "replay")]

/-- The same value with its members in other orders. -/
def reshuffled : Value :=
  .object
    [("mode", .string "replay"),
      ("steps", .array
        [.object [("Name", .string "load"), ("seconds", .number (.ofNat 90))], .null])]

theorem sorted_isCanonical_shuffled :
    shuffled.EveryObject List.Nodup ∧
      shuffled.sorted.EveryObject (fun keys => keys.Pairwise (· < ·)) ∧
      shuffled.Alike shuffled.sorted ∧
      shuffled.sorted.sorted = shuffled.sorted ∧
      reshuffled.EveryObject List.Nodup ∧
      shuffled.Alike reshuffled ∧
      shuffled.sorted.toCompact = reshuffled.sorted.toCompact := by
  have hkeys : shuffled.EveryObject List.Nodup := by
    simp [shuffled, EveryObject, EveryObjectOfItems, EveryObjectOfMembers]
  have hother : reshuffled.EveryObject List.Nodup := by
    simp [reshuffled, EveryObject, EveryObjectOfItems, EveryObjectOfMembers]
  have halike : shuffled.Alike reshuffled := by
    refine ⟨_, .swap _ _ _, rfl, ⟨?_, trivial, trivial⟩, rfl, rfl, trivial⟩
    exact ⟨_, .swap _ _ _, rfl, rfl, rfl, rfl, trivial⟩
  obtain ⟨hstrict, hform, hagain, htext⟩ := sorted_isCanonical hkeys
  exact ⟨hkeys, hstrict, hform, hagain, hother, halike, (htext _ hother).mpr halike⟩

end Value

end GoldenFixtures.Json
