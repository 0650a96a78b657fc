import GoldenFixtures.Decimal.Binary64
import GoldenFixtures.Json.Value

/-!
# Numbers as binary floating point

The finite 64-bit number nearest to a JSON number.  A number beyond the
greatest of these has none.
-/

namespace GoldenFixtures.Json

/-- The power of ten of an exponent. -/
def Exponent.toInt (e : Exponent) : Int :=
  let power : Int := Digits.toNat (e.first :: e.others)
  if e.negative then -power else power

namespace Number

/-- The power of ten that a number's last digit counts. -/
def power (n : Number) : Int :=
  (match n.exponent with
    | none => 0
    | some e => e.toInt) - n.fraction.length

/-- The digits of a number without its point and exponent. -/
def significand (n : Number) : Nat :=
  n.whole * Nat.pow 10 n.fraction.length + Digits.toNat n.fraction

/-- The finite number nearest to a JSON number, its sign aside. -/
def magnitude? (n : Number) : Option Binary64.Magnitude :=
  Binary64.Magnitude.ofDecimal n.significand n.power

end Number

end GoldenFixtures.Json
