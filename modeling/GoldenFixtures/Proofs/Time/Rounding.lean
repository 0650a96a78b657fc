import GoldenFixtures.Proofs.Time.Instant

/-!
# Rounding to milliseconds

Rounding takes an instant to the nearest whole number of milliseconds since
1970-01-01 00:00 UTC, and to the even one of two that are equally near
(`roundsTo_of_roundToMillisecond`).  The instants of a leap second all go to the
start of the following second.  So later instants are not rounded to earlier
milliseconds (`RoundsTo.mono`).

Rounding fails in the last second of the last year only
(`roundToMillisecond_eq_none_iff`).
-/

namespace GoldenFixtures.Time

/-! ## The nearest number -/

/-- A thousand times the number is as near to the microseconds as any, and the
number is even if another one is equally near. -/
structure IsNearestEven (microseconds number : Int) : Prop where
  near : (1000 * number - microseconds).natAbs ≤ 500
  even : (1000 * number - microseconds).natAbs = 500 → number % 2 = 0

section

variable {microseconds later number other : Int}

/-- Rounding keeps the order: a step back would be one from a number to the next, from the
middle of the two. -/
theorem IsNearestEven.mono (h : IsNearestEven microseconds number)
    (hother : IsNearestEven later other) (hle : microseconds ≤ later) : number ≤ other := by
  obtain ⟨hnear, heven⟩ := h
  obtain ⟨hnear', heven'⟩ := hother
  by_contra hlt
  omega

theorem IsNearestEven.unique (h : IsNearestEven microseconds number)
    (hother : IsNearestEven microseconds other) : number = other :=
  Int.le_antisymm (h.mono hother (Int.le_refl _)) (hother.mono h (Int.le_refl _))

end

/-! ## Counted from 1970 -/

/-- The whole milliseconds since 1970-01-01 00:00 UTC. -/
def MilliInstant.milliseconds (moment : MilliInstant) : Int :=
  moment.second * 1000 + moment.millisecond

namespace Instant

/-- The whole microseconds since 1970-01-01 00:00 UTC, or up to it if the instant
lies in front of it. -/
def microseconds (instant : Instant) : Int :=
  (instant.second * nanosecondsPerSecond + instant.nanosecond) / 1000

/-- The instant of a number of milliseconds since 1970-01-01 00:00 UTC. -/
def ofMilliseconds (number : Int) : Instant :=
  ⟨number / 1000, (number % 1000).toNat * 1000000⟩

/-- The order of time.  A leap second lies between the second that it is counted
from and the following one. -/
instance : LE Instant where
  le instant later := instant.second < later.second ∨
    instant.second = later.second ∧ instant.nanosecond ≤ later.nanosecond

/-- The instant is rounded to a number of milliseconds. -/
structure RoundsTo (instant : Instant) (number : Int) : Prop where
  nearest : instant.isLeap = false →
    ∀ other, IsNearestEven instant.microseconds other ↔ other = number
  leap : instant.isLeap = true → number = (instant.second + 1) * 1000

section

variable {instant later : Instant} {moment : MilliInstant} {number other : Int}

theorem ofMilliseconds_milliseconds (h : moment.millisecond < 1000) :
    ofMilliseconds moment.milliseconds =
      ⟨moment.second, moment.millisecond * 1000000⟩ := by
  unfold ofMilliseconds MilliInstant.milliseconds
  rw [Instant.mk.injEq]
  omega

theorem ofMilliseconds_injective : Function.Injective ofMilliseconds := by
  intro number other h
  obtain ⟨hsecond, hrest⟩ := Instant.mk.inj h
  omega

/-! ## Rounding -/

theorem isLeap_eq_false_iff : instant.isLeap = false ↔ instant.nanosecond < 1000000000 := by
  rw [← Bool.not_eq_true, isLeap_iff]
  omega

/-- The milliseconds that an instant is rounded to. -/
theorem milliseconds_of_roundToMillisecond (hrange : inRange instant.second = true)
    (h : instant.roundToMillisecond = some moment) :
    moment.milliseconds = instant.second * 1000 + instant.roundedMilliseconds := by
  have hle := instant.roundedMilliseconds_le
  rw [roundToMillisecond_eq hrange] at h
  unfold MilliInstant.milliseconds
  split at h
  · cases h
    rfl
  split at h
  · cases h
    dsimp only
    omega
  · exact nomatch h

theorem roundedMilliseconds_of_isLeap (hleap : instant.isLeap = true) :
    instant.roundedMilliseconds = 1000 := by
  have hmicro : instant.microsecond = 999999 := by
    rw [isLeap_iff] at hleap
    unfold microsecond
    omega
  unfold roundedMilliseconds
  rw [hmicro]
  rfl

/-- Rounding within the second is rounding of the whole count: a second has an even
number of milliseconds. -/
theorem isNearestEven_roundedMilliseconds (hleap : instant.isLeap = false) :
    IsNearestEven instant.microseconds (instant.second * 1000 + instant.roundedMilliseconds) := by
  rw [isLeap_eq_false_iff] at hleap
  have hmicro : instant.microseconds = instant.second * 1000000 + instant.microsecond := by
    unfold microseconds microsecond nanosecondsPerSecond
    omega
  rw [hmicro]
  unfold roundedMilliseconds
  constructor <;> dsimp only <;> split <;> omega

theorem roundsTo_of_roundToMillisecond (hrange : inRange instant.second = true)
    (h : instant.roundToMillisecond = some moment) : instant.RoundsTo moment.milliseconds := by
  rw [milliseconds_of_roundToMillisecond hrange h]
  constructor
  · intro hleap number
    have hnearest := isNearestEven_roundedMilliseconds hleap
    exact ⟨fun hnumber => hnumber.unique hnearest, fun hnumber => hnumber ▸ hnearest⟩
  · intro hleap
    rw [roundedMilliseconds_of_isLeap hleap]
    omega

theorem RoundsTo.le_next (h : instant.RoundsTo number) :
    number ≤ (instant.second + 1) * 1000 := by
  cases hleap : instant.isLeap with
  | true => exact Int.le_of_eq (h.leap hleap)
  | false =>
    have hnear := ((h.nearest hleap number).mpr rfl).near
    rw [isLeap_eq_false_iff] at hleap
    unfold microseconds nanosecondsPerSecond at hnear
    omega

theorem RoundsTo.second_le (h : instant.RoundsTo number) :
    instant.second * 1000 ≤ number := by
  cases hleap : instant.isLeap with
  | true =>
    have hnext := h.leap hleap
    omega
  | false =>
    have hnear := ((h.nearest hleap number).mpr rfl).near
    unfold microseconds nanosecondsPerSecond at hnear
    omega

/-- Later instants are not rounded to earlier milliseconds. -/
theorem RoundsTo.mono (h : instant.RoundsTo number) (hlater : later.RoundsTo other)
    (hle : instant ≤ later) : number ≤ other := by
  have hnext := h.le_next
  have hstart := hlater.second_le
  rcases hle with hlt | ⟨hsecond, hnanosecond⟩
  · omega
  cases hleap : later.isLeap with
  | true =>
    have hlast := hlater.leap hleap
    omega
  | false =>
    have hbefore : instant.isLeap = false := by
      rw [isLeap_eq_false_iff] at hleap ⊢
      omega
    refine ((h.nearest hbefore number).mpr rfl).mono ((hlater.nearest hleap other).mpr rfl) ?_
    unfold microseconds
    rw [hsecond]
    omega

/-- Rounding goes to the following second from half a millisecond before it on. -/
theorem roundedMilliseconds_lt_iff :
    instant.roundedMilliseconds < 1000 ↔ instant.nanosecond / 1000 < 999500 := by
  unfold roundedMilliseconds microsecond
  dsimp only
  split <;> omega

/-- Rounding fails only in the last second, if it goes to the following one. -/
theorem roundToMillisecond_eq_none_iff (hrange : inRange instant.second = true) :
    instant.roundToMillisecond = none ↔
      instant.second = lastSecond ∧ 999500 ≤ instant.nanosecond / 1000 := by
  have hlast : inRange (instant.second + 1) = true ↔ instant.second ≠ lastSecond := by
    simp only [inRange, Bool.and_eq_true, decide_eq_true_eq] at hrange ⊢
    omega
  have hround : instant.roundedMilliseconds < 1000 ↔ instant.nanosecond / 1000 < 999500 :=
    roundedMilliseconds_lt_iff
  rw [roundToMillisecond_eq hrange]
  by_cases hlt : instant.roundedMilliseconds < 1000
  · have hmicro := hround.mp hlt
    rw [if_pos hlt]
    exact ⟨fun h => absurd h (Option.some_ne_none _), fun h => absurd h.2 (by omega)⟩
  · have hmicro := mt hround.mpr hlt
    rw [if_neg hlt]
    split
    · rename_i hnext
      exact ⟨fun h => absurd h (Option.some_ne_none _), fun h => absurd h.1 (hlast.mp hnext)⟩
    · rename_i hnext
      exact ⟨fun _ => ⟨Decidable.not_not.mp (mt hlast.mpr hnext), by omega⟩, fun _ => rfl⟩

end

end Instant

end GoldenFixtures.Time
