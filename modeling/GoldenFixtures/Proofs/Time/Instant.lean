import Mathlib.Tactic.ByContra
import GoldenFixtures.Time.Pattern
import GoldenFixtures.Proofs.Time.Calendar

/-!
# Moments

A moment is a whole number of milliseconds in the range of instants.  Rounding
gives only such moments, the fields of a moment name it again, and rounding it
once more changes nothing.
-/

namespace GoldenFixtures.Time

/-! ## Moments -/

namespace MilliInstant

/-- The moment lies in the range of instants and less than a second after its
second. -/
structure IsValid (moment : MilliInstant) : Prop where
  inRange : Instant.inRange moment.second = true
  millisecond_lt : moment.millisecond < 1000

/-- The date of a moment. -/
def date (moment : MilliInstant) : Date := Date.ofDays (moment.second / secondsPerDay)

/-- The second of the day of a moment. -/
def secondOfDay (moment : MilliInstant) : Nat := (moment.second % secondsPerDay).toNat

theorem secondOfDay_lt (moment : MilliInstant) : moment.secondOfDay < 86400 := by
  unfold secondOfDay secondsPerDay
  omega

theorem hour_lt (moment : MilliInstant) : moment.secondOfDay / 3600 < Nat.pow 10 2 := by
  have hday := moment.secondOfDay_lt
  have hten : Nat.pow 10 2 = 100 := rfl
  omega

theorem minute_lt (moment : MilliInstant) : moment.secondOfDay / 60 % 60 < Nat.pow 10 2 := by
  have hten : Nat.pow 10 2 = 100 := rfl
  omega

theorem secondOfMinute_lt (moment : MilliInstant) : moment.secondOfDay % 60 < Nat.pow 10 2 := by
  have hten : Nat.pow 10 2 = 100 := rfl
  omega

theorem month_lt (moment : MilliInstant) : moment.date.month < Nat.pow 10 2 := by
  have hmonth : moment.date.month ≤ 12 := (Date.month_of_isValid (Date.isValid_ofDays _)).2
  have hten : Nat.pow 10 2 = 100 := rfl
  omega

theorem day_lt (moment : MilliInstant) : moment.date.day < Nat.pow 10 2 := by
  have hvalid : moment.date.isValid = true := Date.isValid_ofDays _
  have hten : Nat.pow 10 2 = 100 := rfl
  have hdays : daysInMonth moment.date.year moment.date.month ≤ 31 := by
    unfold daysInMonth
    split <;> first | omega | (split <;> omega)
  simp only [Date.isValid, Bool.and_eq_true, decide_eq_true_eq] at hvalid
  omega

/-- The date of a moment lies in the range of years. -/
theorem IsValid.year_bounds {moment : MilliInstant} (hvalid : moment.IsValid) :
    firstYear ≤ moment.date.year ∧ moment.date.year ≤ lastYear := by
  have hdays : moment.date.toDays = moment.second / secondsPerDay := Date.toDays_ofDays _
  have hyear : firstDay moment.date.year ≤ moment.date.toDays ∧
      moment.date.toDays < firstDay (moment.date.year + 1) :=
    Date.toDays_bounds (Date.isValid_ofDays _)
  have hrange := hvalid.inRange
  have hfirst : firstSecond = firstDay firstYear * secondsPerDay := rfl
  have hlast : lastSecond =
      (firstDay (lastYear + 1) - 1) * secondsPerDay + (secondsPerDay - 1) := by
    decide
  simp only [Instant.inRange, Bool.and_eq_true, decide_eq_true_eq, hfirst, hlast] at hrange
  unfold secondsPerDay at hdays hrange
  constructor
  · by_contra hbefore
    have hnext : firstDay (moment.date.year + 1) ≤ firstDay firstYear := firstDay_le (by omega)
    omega
  · by_contra hbehind
    have hnext : firstDay (lastYear + 1) ≤ firstDay moment.date.year := firstDay_le (by omega)
    omega

/-- What the one form of a timestamp says. -/
def fields (moment : MilliInstant) : Fields where
  year := moment.date.year
  month := moment.date.month
  day := moment.date.day
  hour := moment.secondOfDay / 3600
  minute := moment.secondOfDay / 60 % 60
  second := moment.secondOfDay % 60
  nanosecond := moment.millisecond * 1000000
  offset := 0

/-- The fields of a moment name it. -/
theorem toInstant?_fields {moment : MilliInstant} (hvalid : moment.IsValid) :
    moment.fields.toInstant? = some ⟨moment.second, moment.millisecond * 1000000⟩ := by
  obtain ⟨hfirst, hlast⟩ := hvalid.year_bounds
  have hsecond := secondOfDay_lt moment
  have hdays : (Date.mk moment.date.year moment.date.month moment.date.day).toDays =
      moment.second / secondsPerDay := Date.toDays_ofDays _
  have hdate : (Date.mk moment.date.year moment.date.month moment.date.day).isValid = true :=
    Date.isValid_ofDays _
  have hleap : ¬moment.secondOfDay % 60 = 60 := by omega
  have hutc : moment.second / secondsPerDay * secondsPerDay
      + ((moment.secondOfDay / 3600 * 3600 + moment.secondOfDay / 60 % 60 * 60
        + moment.secondOfDay % 60 : Nat) : Int) - 0 = moment.second := by
    unfold secondOfDay secondsPerDay at *
    omega
  unfold Fields.toInstant? fields
  simp only [hdays, hdate, beq_iff_eq, hleap, if_false, hutc, hfirst, hlast, hvalid.inRange]
  rw [if_pos ⟨trivial, trivial, trivial, by omega, by omega, by omega, by decide, by decide,
    trivial⟩, Nat.add_zero]

end MilliInstant

/-! ## Rounding -/

theorem Fields.inRange_of_toInstant? {fields : Fields} {instant : Instant}
    (h : fields.toInstant? = some instant) : Instant.inRange instant.second = true := by
  unfold Fields.toInstant? at h
  simp only [Option.ite_none_right_eq_some, Option.some.injEq] at h
  obtain ⟨⟨_, _, _, _, _, _, _, _, hrange⟩, hinstant⟩ := h
  rw [← hinstant]
  exact hrange

namespace Instant

theorem isLeap_iff (instant : Instant) :
    instant.isLeap = true ↔ 1000000000 ≤ instant.nanosecond := by
  unfold isLeap nanosecondsPerSecond
  rw [decide_eq_true_iff]
  omega

/-- The start of a second is in range with every instant of the second, those of
its leap second as well: the span reaches back over the whole of a leap second and does not
stay in it. -/
theorem shift?_to_start {instant : Instant} (hrange : inRange instant.second = true) :
    instant.shift? (-instant.nanosecond) = some ⟨instant.second, 0⟩ := by
  have hout : instant.isLeap = true →
      (-(instant.nanosecond : Int)).tdiv nanosecondsPerSecond ≠ 0 := by
    intro hleap hspan
    rw [Int.neg_tdiv, Int.tdiv_eq_ediv_of_nonneg (by omega)] at hspan
    rw [isLeap_iff] at hleap
    unfold nanosecondsPerSecond at hspan
    omega
  have hback : ¬(instant.isLeap = true ∧ (0 : Int) < -instant.nanosecond) := by omega
  have htotal : instant.second * nanosecondsPerSecond + instant.nanosecond - 0
      + -(instant.nanosecond : Int) = instant.second * nanosecondsPerSecond := by omega
  unfold shift?
  dsimp only
  rw [if_neg fun h => hout h.1 h.2.1, if_neg hback, htotal, Int.mul_ediv_cancel _ (by decide),
    Int.mul_emod_left, if_pos hrange]
  rfl

/-- Whole milliseconds behind the start of a second. -/
theorem shift?_milliseconds (second : Int) (n : Nat) :
    (Instant.mk second 0).shift? (n * 1000000) =
      if inRange (second + n / 1000) then some ⟨second + n / 1000, n % 1000 * 1000000⟩
      else none := by
  have hleap : (Instant.mk second 0).isLeap = false := rfl
  have hsecond : (second * nanosecondsPerSecond + ((0 : Nat) : Int) - 0 + n * 1000000)
      / nanosecondsPerSecond = second + n / 1000 := by
    unfold nanosecondsPerSecond
    omega
  have hrest : ((second * nanosecondsPerSecond + ((0 : Nat) : Int) - 0 + n * 1000000)
      % nanosecondsPerSecond).toNat = n % 1000 * 1000000 := by
    unfold nanosecondsPerSecond
    omega
  unfold shift?
  simp only [hleap, Bool.false_eq_true, false_and, if_false, hsecond, hrest]

theorem roundedMilliseconds_le (instant : Instant) : instant.roundedMilliseconds ≤ 1000 := by
  unfold roundedMilliseconds microsecond
  dsimp only
  split <;> omega

/-- Rounding goes to the milliseconds of the second, or on to the following second
if that is in range. -/
theorem roundToMillisecond_eq {instant : Instant} (hrange : inRange instant.second = true) :
    instant.roundToMillisecond =
      if instant.roundedMilliseconds < 1000 then
        some ⟨instant.second, instant.roundedMilliseconds⟩
      else if inRange (instant.second + 1) then some ⟨instant.second + 1, 0⟩
      else none := by
  have hle := instant.roundedMilliseconds_le
  have hround : instant.roundToMillisecond =
      (if inRange (instant.second + instant.roundedMilliseconds / 1000) then
        some ⟨instant.second + instant.roundedMilliseconds / 1000,
          instant.roundedMilliseconds % 1000⟩
      else none) := by
    unfold roundToMillisecond
    rw [shift?_to_start hrange, Option.bind_eq_bind, Option.bind_some, shift?_milliseconds]
    split
    · simp
    · rfl
  rw [hround]
  by_cases hlt : instant.roundedMilliseconds < 1000
  · have hsame : instant.second + (instant.roundedMilliseconds : Int) / 1000 = instant.second := by
      omega
    rw [hsame, if_pos hrange, Nat.mod_eq_of_lt hlt, if_pos hlt]
  · have hall : instant.roundedMilliseconds = 1000 := by omega
    rw [if_neg hlt, hall]
    rfl

theorem isValid_of_roundToMillisecond {instant : Instant} {moment : MilliInstant}
    (hrange : inRange instant.second = true) (h : instant.roundToMillisecond = some moment) :
    moment.IsValid := by
  rw [roundToMillisecond_eq hrange] at h
  split at h
  · rename_i hlt
    cases h
    exact ⟨hrange, hlt⟩
  split at h
  · rename_i hnext
    cases h
    exact ⟨hnext, Nat.zero_lt_succ _⟩
  · exact nomatch h

/-- A whole number of milliseconds is its own nearest millisecond. -/
theorem roundToMillisecond_of_milliseconds {moment : MilliInstant} (h : moment.IsValid) :
    (Instant.mk moment.second (moment.millisecond * 1000000)).roundToMillisecond = some moment := by
  obtain ⟨second, n⟩ := moment
  have hlt : n < 1000 := h.millisecond_lt
  have hmicro : (Instant.mk second (n * 1000000)).microsecond = n * 1000 := by
    unfold microsecond
    simp only
    omega
  have hround : (Instant.mk second (n * 1000000)).roundedMilliseconds = n := by
    unfold roundedMilliseconds
    simp only [hmicro]
    rw [if_neg (by omega)]
    omega
  rw [roundToMillisecond_eq h.inRange, hround, if_pos hlt]

end Instant

end GoldenFixtures.Time
