/-!
# Binary floating point, exactly

The finite numbers of the 64-bit binary format, as a significand below 2^53
and a power of two.  `Magnitude.ofRatio` rounds a ratio of natural numbers to
the nearest of them, an exact half to the even one; `Magnitude.ofDecimal` rounds
a decimal number.  All of it is arithmetic on natural numbers.
-/

namespace GoldenFixtures.Binary64

/-- The least power of two. -/
def minExponent : Int := -1074

/-- The greatest power of two. -/
def maxExponent : Int := 971

/-- The least significand of 53 bits, 2^52. -/
def leastNormal : Nat := Nat.pow 2 52

/-- The finite number `significand * 2 ^ exponent`. -/
structure Magnitude where
  significand : Nat
  exponent : Int
  deriving DecidableEq, Repr

/-- A ratio to the nearest natural number, an exact half to the even one. -/
def roundToEven (num den : Nat) : Nat :=
  let whole := num / den
  let twice := 2 * (num % den)
  if twice > den ∨ (twice = den ∧ whole % 2 = 1) then whole + 1 else whole

/-- A ratio to the nearest natural number, an exact half to the greater one. -/
def roundHalfUp (num den : Nat) : Nat := (2 * num + den) / (2 * den)

/-- The ratio of `num` and `den * 2 ^ exponent`, in natural numbers. -/
def scale (num den : Nat) (exponent : Int) : Nat × Nat :=
  if exponent < 0 then (num * Nat.pow 2 exponent.natAbs, den)
  else (num, den * Nat.pow 2 exponent.natAbs)

/-- The power of two at which the ratio of two positive numbers has a
significand of 53 bits, or the least power. -/
def exponentOf (num den : Nat) : Int :=
  let guess : Int := (Nat.log2 num : Int) - Nat.log2 den - 52
  let scaled := scale num den guess
  max minExponent (if scaled.1 < leastNormal * scaled.2 then guess - 1 else guess)

namespace Magnitude

/-- Zero. -/
def zero : Magnitude := ⟨0, minExponent⟩

/-- The nearest number to a ratio; none if that is beyond the greatest one. -/
def ofRatio (num den : Nat) : Option Magnitude :=
  if num = 0 then some zero
  else
    let exponent := exponentOf num den
    let scaled := scale num den exponent
    let significand := roundToEven scaled.1 scaled.2
    let rounded : Magnitude :=
      if significand = 2 * leastNormal then ⟨leastNormal, exponent + 1⟩ else ⟨significand, exponent⟩
    if rounded.exponent ≤ maxExponent then some rounded else none

/-- The nearest number to `digits * 10 ^ power`.  A power so great that no
digit but zero stays finite, or so small that all round to zero, is not worked
out. -/
def ofDecimal (digits : Nat) (power : Int) : Option Magnitude :=
  if digits = 0 then some zero
  else if power > 400 then none
  else if power + Nat.log2 digits + 1 < -400 then some zero
  else if power < 0 then ofRatio digits (Nat.pow 10 power.natAbs)
  else ofRatio (digits * Nat.pow 10 power.natAbs) 1

/-- The number as a ratio. -/
def ratio (m : Magnitude) : Nat × Nat :=
  if m.exponent < 0 then (m.significand, Nat.pow 2 m.exponent.natAbs)
  else (m.significand * Nat.pow 2 m.exponent.natAbs, 1)

/-- The number is at most a ratio. -/
def atMost (m : Magnitude) (num den : Nat) : Bool := m.ratio.1 * den ≤ num * m.ratio.2

/-- The number, multiplied by a natural number and rounded. -/
def scaleBy (m : Magnitude) (factor : Nat) : Option Magnitude :=
  ofRatio (m.ratio.1 * factor) m.ratio.2

/-- The nearest natural number, an exact half upwards. -/
def round (m : Magnitude) : Nat := roundHalfUp m.ratio.1 m.ratio.2

end Magnitude

end GoldenFixtures.Binary64
