/-!
# Decimal digits

A digit is a number below ten.  `Digits.ofNat` and `Digits.toNat` pass between
a natural number and its digits without leading zeros, and `Digits.split` cuts
the leading run of digits off a text.  The digits are those of ASCII; no other
script's digits are read.
-/

namespace GoldenFixtures

/-- A decimal digit. -/
abbrev Digit := Fin 10

namespace Digit

/-- The ASCII character of a digit. -/
def toChar (d : Digit) : Char := Char.ofNat (48 + d.val)

/-- The digit that an ASCII character writes. -/
def ofChar? (c : Char) : Option Digit :=
  if h : 48 ≤ c.toNat ∧ c.toNat ≤ 57 then some ⟨c.toNat - 48, by omega⟩ else none

end Digit

namespace Digits

/-- The number that a list of digits writes, most significant first. -/
def toNat (digits : List Digit) : Nat :=
  digits.foldl (fun n d => 10 * n + d.val) 0

/-- The digits of a number in front of `after`. -/
def ofNatAppend (n : Nat) (after : List Digit) : List Digit :=
  if h : n < 10 then ⟨n, h⟩ :: after
  else ofNatAppend (n / 10) (⟨n % 10, Nat.mod_lt _ (by decide)⟩ :: after)
termination_by n
decreasing_by omega

/-- The digits of a number without leading zeros; zero has the one digit `0`. -/
def ofNat (n : Nat) : List Digit := ofNatAppend n []

/-- The longest run of digits at the front of a text, and what follows it. -/
def split : List Char → List Digit × List Char
  | [] => ([], [])
  | c :: rest =>
    match Digit.ofChar? c with
    | some d => (d :: (split rest).1, (split rest).2)
    | none => ([], c :: rest)

/-- The characters of a list of digits. -/
def toChars (digits : List Digit) : List Char := digits.map Digit.toChar

/-- A number written with at least `width` digits, zeros in front. -/
def padded (width n : Nat) : List Char :=
  let digits := toChars (ofNat n)
  List.replicate (width - digits.length) '0' ++ digits

end Digits

end GoldenFixtures
