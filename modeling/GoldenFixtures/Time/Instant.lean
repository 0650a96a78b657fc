import GoldenFixtures.Time.Calendar

/-!
# Instants

An instant is a second since 1970-01-01 00:00 UTC and the nanoseconds into it.
A leap second is counted as the nanoseconds from one to two seconds into the
second before it.  Instants are bounded: the years run from `firstYear` to
`lastYear`.

`Instant.shift?` goes from an instant to another one that lies nanoseconds away.
`Instant.roundToMillisecond` goes back to the start of the second and from there to
the nearest millisecond; of two that are equally near it takes the even one.
-/

namespace GoldenFixtures.Time

/-- The first year that instants may lie in. -/
def firstYear : Int := -262143

/-- The last year that instants may lie in. -/
def lastYear : Int := 262142

/-- The number of seconds of a day. -/
def secondsPerDay : Int := 86400

/-- The first second of the first year. -/
def firstSecond : Int := (Date.mk firstYear 1 1).toDays * secondsPerDay

/-- The last second of the last year. -/
def lastSecond : Int := (Date.mk lastYear 12 31).toDays * secondsPerDay + (secondsPerDay - 1)

/-- The number of nanoseconds of a second. -/
def nanosecondsPerSecond : Int := 1000000000

/-- A point in time; the nanoseconds are below two seconds. -/
structure Instant where
  second : Int
  nanosecond : Nat
  deriving DecidableEq, Repr

/-- A second and the milliseconds into it, which are below a thousand. -/
structure MilliInstant where
  second : Int
  millisecond : Nat
  deriving DecidableEq, Repr

namespace Instant

/-- The second lies in the range of instants. -/
def inRange (second : Int) : Bool := decide (firstSecond ≤ second) && decide (second ≤ lastSecond)

/-- The instant lies in a leap second. -/
def isLeap (instant : Instant) : Bool := decide (nanosecondsPerSecond ≤ instant.nanosecond)

/-- The instant that lies a span of nanoseconds behind an instant, or in front of
it if the span is negative, unless that is out of range.  A span of less than a
second may stay in a leap second.  One that leads out of it does not count the leap
second: later instants lie as far away as from the second before it, and earlier
ones as far as from the second after it. -/
def shift? (instant : Instant) (span : Int) : Option Instant :=
  let moved := instant.nanosecond + span.tmod nanosecondsPerSecond
  if instant.isLeap ∧ span.tdiv nanosecondsPerSecond = 0 ∧ moved < 2 * nanosecondsPerSecond then
    some ⟨instant.second, moved.toNat⟩
  else
    let skipped := if instant.isLeap ∧ 0 < span then nanosecondsPerSecond else 0
    let total := instant.second * nanosecondsPerSecond + instant.nanosecond - skipped + span
    let second := total / nanosecondsPerSecond
    if inRange second then some ⟨second, (total % nanosecondsPerSecond).toNat⟩ else none

/-- The whole microseconds into the second.  All of a leap second counts as
the last microsecond before the following second. -/
def microsecond (instant : Instant) : Nat := min (instant.nanosecond / 1000) 999999

/-- The milliseconds into the second, rounded; a thousand of them are the
following second. -/
def roundedMilliseconds (instant : Instant) : Nat :=
  let whole := instant.microsecond / 1000
  let rest := instant.microsecond % 1000
  if rest > 500 ∨ (rest = 500 ∧ whole % 2 = 1) then whole + 1 else whole

/-- The nearest millisecond, or none if it or the start of the second lies out of
range. -/
def roundToMillisecond (instant : Instant) : Option MilliInstant := do
  let whole ← instant.shift? (-instant.nanosecond)
  let rounded ← whole.shift? (instant.roundedMilliseconds * 1000000)
  return ⟨rounded.second, rounded.nanosecond / 1000000⟩

end Instant

end GoldenFixtures.Time
