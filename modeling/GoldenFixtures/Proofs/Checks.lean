/-!
# Checks made in order

A reader makes its checks one after another and gives up at the first that
fails.  A list of checks says which these are, each without regard to the
others, and `Follows checks result` that a result is theirs.

Results that follow checks are put together as the readers are
(`Follows.bind`).  A result that follows checks is a success exactly if all of
them pass (`Follows.exists_ok_iff`), and else the error of the first that does
not (`Follows.eq_error_iff`).
-/

namespace GoldenFixtures

/-- What a check asks for, and the error that says that it failed. -/
structure Check (ε : Type) where
  passes : Prop
  error : ε

section

variable {ε α β : Type} {checks later : List (Check ε)}

/-- The first check that fails has this error. -/
def FirstFailure (checks : List (Check ε)) (error : ε) : Prop :=
  ∃ front check back, checks = front ++ check :: back ∧ (∀ passed ∈ front, passed.passes) ∧
    ¬ check.passes ∧ check.error = error

/-- The result of checks that are made in order. -/
inductive Follows : List (Check ε) → Except ε α → Prop where
  | done (a : α) : Follows [] (.ok a)
  | fail {check : Check ε} {checks : List (Check ε)} : ¬ check.passes →
      Follows (check :: checks) (.error check.error)
  | pass {check : Check ε} {checks : List (Check ε)} {result : Except ε α} : check.passes →
      Follows checks result → Follows (check :: checks) result

/-! ## Putting checks together -/

/-- A reader and the next one make the checks of the one and then those of the
other, which may depend on what was read. -/
theorem Follows.bind {result : Except ε α} {next : α → Except ε β} (h : Follows checks result)
    (hnext : ∀ a, result = .ok a → Follows later (next a)) :
    Follows (checks ++ later) (result >>= next) := by
  induction h with
  | done a => exact hnext a rfl
  | fail hfail => exact .fail hfail
  | pass hpass _ ih => exact .pass hpass (ih hnext)

theorem Follows.map {result : Except ε α} (h : Follows checks result) (f : α → β) :
    Follows checks (result.map f) := by
  induction h with
  | done a => exact .done (f a)
  | fail hfail => exact .fail hfail
  | pass hpass _ ih => exact .pass hpass ih

/-- One check, by its two results. -/
theorem Follows.single {check : Check ε} {result : Except ε α}
    (h : (check.passes ∧ ∃ a, result = .ok a) ∨ (¬ check.passes ∧ result = .error check.error)) :
    Follows [check] result := by
  rcases h with ⟨hpass, a, rfl⟩ | ⟨hfail, rfl⟩
  · exact .pass hpass (.done a)
  · exact .fail hfail

/-- A check that is made in line. -/
theorem Follows.guard {check : Check ε} {result : Except ε α} {fails : Prop} [Decidable fails]
    (hcheck : fails ↔ ¬ check.passes) (h : Follows later result) :
    Follows (check :: later) (if fails then .error check.error else result) := by
  by_cases hfails : fails
  · rw [if_pos hfails]
    exact .fail (hcheck.mp hfails)
  · rw [if_neg hfails]
    exact .pass (Classical.not_not.mp fun hfail => hfails (hcheck.mpr hfail)) h

/-! ## What a result tells -/

theorem Follows.exists_ok_iff {result : Except ε α} (h : Follows checks result) :
    (∃ a, result = .ok a) ↔ ∀ check ∈ checks, check.passes := by
  induction h with
  | done a => simp
  | fail hfail => simp [hfail]
  | pass hpass _ ih => simp [hpass, ih]

theorem not_firstFailure_nil (error : ε) : ¬ FirstFailure [] error := by
  rintro ⟨front, check, back, hsplit, -⟩
  exact List.append_ne_nil_of_right_ne_nil front (List.cons_ne_nil check back) hsplit.symm

/-- Either the first check fails, or it passes and the others tell. -/
theorem firstFailure_cons_iff {check : Check ε} {error : ε} :
    FirstFailure (check :: checks) error ↔
      (¬ check.passes ∧ check.error = error) ∨ (check.passes ∧ FirstFailure checks error) := by
  constructor
  · rintro ⟨front, failed, back, hsplit, hfront, hfailed, herror⟩
    cases front with
    | nil =>
      obtain ⟨rfl, rfl⟩ := List.cons.inj hsplit
      exact Or.inl ⟨hfailed, herror⟩
    | cons first front =>
      obtain ⟨rfl, rfl⟩ := List.cons.inj hsplit
      rw [List.forall_mem_cons] at hfront
      exact Or.inr ⟨hfront.1, front, failed, back, rfl, hfront.2, hfailed, herror⟩
  · rintro (⟨hfail, herror⟩ | ⟨hpass, front, failed, back, rfl, hfront, hfailed, herror⟩)
    · exact ⟨[], check, checks, rfl, by simp, hfail, herror⟩
    · exact ⟨check :: front, failed, back, rfl, List.forall_mem_cons.mpr ⟨hpass, hfront⟩, hfailed,
        herror⟩

theorem Follows.eq_error_iff {result : Except ε α} (h : Follows checks result) {error : ε} :
    result = .error error ↔ FirstFailure checks error := by
  induction h with
  | done a => simp [not_firstFailure_nil]
  | fail hfail => simp [firstFailure_cons_iff, hfail]
  | pass hpass _ ih => simp [firstFailure_cons_iff, hpass, ih]

end

end GoldenFixtures
