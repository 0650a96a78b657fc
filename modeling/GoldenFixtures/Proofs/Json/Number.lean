import GoldenFixtures.Json.Binary
import GoldenFixtures.Proofs.Decimal.Binary64
import GoldenFixtures.Proofs.Json.ReadBack

/-!
# What numbers stand for

`int64? text` is the 64-bit integer that a text writes in decimal: an optional
sign and digits, and nothing else.  A number is taken for an integer exactly as
its text is (`Number.toInt64?_eq`).

`Number.toRat?` is the number that is worked with where any number is allowed:
the nearest one of the binary format, as a rational number.
-/

namespace GoldenFixtures.Json

open Digits (NoDigit)

/-- The number that a text of digits writes. -/
def natural? (text : List Char) : Option Nat :=
  match Digits.split text with
  | (first :: others, []) => some (Digits.toNat (first :: others))
  | _ => none

/-- The integer that a text writes, with a sign or without. -/
def integer? (text : List Char) : Option Int :=
  match text with
  | '-' :: rest => (natural? rest).map fun n : Nat => -(n : Int)
  | '+' :: rest => (natural? rest).map Int.ofNat
  | _ => (natural? text).map Int.ofNat

/-- The integer that a text writes, if it has 64 bits. -/
def int64? (text : List Char) : Option Int :=
  (integer? text).filter fun value => int64Min ≤ value ∧ value ≤ int64Max

namespace Number

/-- Behind its sign, a number's text has nothing but digits exactly if there is
neither a fraction nor an exponent. -/
theorem natural?_unsignedChars (n : Number) :
    natural? n.unsignedChars =
      if n.fraction.isEmpty && n.exponent.isNone then some n.whole else none := by
  have hdigits := Digits.toNat_ofNat n.whole
  have hexponent : NoDigit (exponentChars n.exponent) := by
    have hnil : Stops [] := fun c hc => nomatch hc
    simpa using (stops_exponentChars_append n.exponent hnil).1
  have hrest : NoDigit (fractionChars n.fraction ++ exponentChars n.exponent) :=
    noDigit_fractionChars_append n.fraction hexponent
  unfold natural? unsignedChars
  rw [Digits.split_toChars_append hrest]
  cases hwhole : Digits.ofNat n.whole with
  | nil => exact absurd hwhole (Digits.ofNat_ne_nil _)
  | cons first others =>
    rw [hwhole] at hdigits
    cases hfraction : n.fraction with
    | cons d digits => simp [fractionChars]
    | nil =>
      cases n.exponent with
      | none => simp [fractionChars, exponentChars, hdigits]
      | some e => simp [fractionChars, exponentChars, Exponent.toChars]

theorem integer?_toChars (n : Number) :
    integer? n.toChars =
      (natural? n.unsignedChars).map fun whole : Nat =>
        if n.negative then -(whole : Int) else whole := by
  rw [toChars_eq]
  cases n.negative with
  | true => rfl
  | false =>
    obtain ⟨d, tail, hunsigned⟩ := unsignedChars_eq_cons n
    have hsign : ∀ d : Digit, d.toChar ≠ '-' ∧ d.toChar ≠ '+' := by decide
    simp only [Bool.false_eq_true, if_false, List.nil_append, hunsigned]
    unfold integer?
    split
    · rename_i heq
      exact absurd (List.cons.inj heq).1 (hsign d).1
    · rename_i heq
      exact absurd (List.cons.inj heq).1 (hsign d).2
    · rfl

/-- A number is the 64-bit integer that its text writes, and none if its text
writes none. -/
theorem toInt64?_eq (n : Number) : n.toInt64? = int64? n.toChars := by
  unfold toInt64? int64?
  rw [integer?_toChars, natural?_unsignedChars]
  split
  · simp only [Option.map_some, Option.filter_some, decide_eq_true_eq]
  · rfl

/-- The finite binary number nearest to a number, sign included. -/
def toRat? (n : Number) : Option ℚ := n.magnitude?.map (Binary64.Magnitude.signedRat n.negative)

end Number

namespace Value

/-- The 64-bit integer that a value is, if it is a number with such a text. -/
def integer? : Value → Option Int
  | number n => int64? n.toChars
  | _ => none

/-- The binary number nearest to a value, if it is a number and not too great. -/
def double? : Value → Option ℚ
  | number n => n.toRat?
  | _ => none

end Value

end GoldenFixtures.Json
