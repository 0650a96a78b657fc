/-!
# Steps that succeed under a condition

A step of a reader either gives one result, known beforehand, or nothing.  `Gives` names
the condition and the result, and `Gives.bind` puts two steps together.
-/

namespace GoldenFixtures.Yaml

/-- The step gives the result if the condition holds, and nothing otherwise. -/
def Gives {α : Type} (step : Option α) (condition : Prop) (result : α) : Prop :=
  ∀ a, step = some a ↔ condition ∧ result = a

namespace Gives

variable {α β : Type} {step : Option α} {p q : Prop} {a : α}

theorem eq_some (h : Gives step p a) (hp : p) : step = some a := (h a).mpr ⟨hp, rfl⟩

theorem eq_none (h : Gives step p a) (hp : ¬ p) : step = none :=
  Option.eq_none_iff_forall_ne_some.mpr fun b hb => hp ((h b).mp hb).1

theorem of_eq_some (h : step = some a) (hp : p) : Gives step p a := fun b => by simp [h, hp]

theorem of_eq_none (h : step = none) (hp : ¬ p) (a : α) : Gives step p a := fun b => by
  simp [h, hp]

theorem of_iff (h : Gives step p a) (hiff : p ↔ q) : Gives step q a :=
  fun b => (h b).trans (and_congr_left' hiff)

theorem of_eq {b : α} (h : Gives step p a) (heq : a = b) : Gives step p b := heq ▸ h

/-- A step of its own is given if it succeeds. -/
theorem getD (step : Option α) (default : α) :
    Gives step (step.isSome = true) (step.getD default) := by
  cases step with
  | none => exact of_eq_none rfl (by simp) default
  | some a => exact of_eq_some rfl rfl

theorem bind {f : α → Option β} {b : β} (h : Gives step p a) (hf : p → Gives (f a) q b) :
    Gives (step.bind f) (p ∧ q) b := by
  by_cases hp : p
  · rw [h.eq_some hp, Option.bind_some]
    exact (hf hp).of_iff (by simp [hp])
  · rw [h.eq_none hp]
    exact of_eq_none rfl (fun hpq => hp hpq.1) b

theorem map (h : Gives step p a) (f : α → β) : Gives (step.map f) p (f a) := by
  by_cases hp : p
  · rw [h.eq_some hp]
    exact of_eq_some rfl hp
  · rw [h.eq_none hp]
    exact of_eq_none rfl hp (f a)

end Gives

end GoldenFixtures.Yaml
