import Mathlib.Tactic.SplitIfs
import GoldenFixtures.Json.Reader
import GoldenFixtures.Json.Writer
import GoldenFixtures.Proofs.Decimal.Digits

/-!
# Numbers and strings read back

What the writer makes of a number or a string is read again as the same number
or string, whatever stands behind it.  Behind a number there has to be something
that cannot go on with it; `Stops` says so.
-/

namespace GoldenFixtures.Json

open Digits (NoDigit)

@[simp] theorem ok_bind {ε α β : Type} (a : α) (f : α → Except ε β) :
    (Except.ok a >>= f) = f a := rfl

@[simp] theorem ok_map {ε α β : Type} (a : α) (f : α → β) :
    (Except.ok a : Except ε α).map f = .ok (f a) := rfl

/-! ## Numbers -/

/-- The text cannot go on with a number in front of it. -/
def Stops (text : List Char) : Prop :=
  ∀ c ∈ text.head?, Digit.ofChar? c = none ∧ c ≠ '.' ∧ c ≠ 'e' ∧ c ≠ 'E'

theorem stops_cons {c : Char} (h : Digit.ofChar? c = none ∧ c ≠ '.' ∧ c ≠ 'e' ∧ c ≠ 'E')
    (rest : List Char) : Stops (c :: rest) := by
  intro d hd
  rw [List.head?_cons, Option.mem_some_iff] at hd
  subst hd
  exact h

theorem Stops.noDigit {text : List Char} (h : Stops text) : NoDigit text :=
  fun c hc => (h c hc).1

/-- The digits of a number are read back: a zero in front of other digits, which the reader
refuses, is never written. -/
theorem readWhole_toChars (n : Nat) {rest : List Char} (h : NoDigit rest) :
    readWhole (Digits.toChars (Digits.ofNat n) ++ rest) = .ok (n, rest) := by
  have hsplit := Digits.split_toChars_append h (Digits.ofNat n)
  have hvalue := Digits.toNat_ofNat n
  unfold readWhole
  cases hdigits : Digits.ofNat n with
  | nil => exact absurd hdigits (Digits.ofNat_ne_nil n)
  | cons first others =>
    rw [hdigits] at hsplit hvalue
    rw [hsplit]
    simp only
    split
    · rename_i hpadded
      have hzero : n = 0 := Digits.eq_zero_of_ofNat_head hdigits hpadded.1
      subst hzero
      rw [Digits.ofNat_of_lt (by decide), List.cons.injEq] at hdigits
      exact absurd hdigits.2.symm hpadded.2
    · rw [hvalue]

/-- A fraction as it is written. -/
def fractionChars (fraction : List Digit) : List Char :=
  if fraction.isEmpty then [] else '.' :: Digits.toChars fraction

theorem readFraction_fractionChars (fraction : List Digit) {rest : List Char}
    (h : NoDigit rest) (hpoint : ∀ c ∈ rest.head?, c ≠ '.') :
    readFraction (fractionChars fraction ++ rest) = .ok (fraction, rest) := by
  cases fraction with
  | nil =>
    cases rest with
    | nil => rfl
    | cons c rest =>
      have hc : c ≠ '.' := hpoint c (by simp)
      simp only [fractionChars, List.isEmpty_nil, if_true, List.nil_append]
      unfold readFraction
      split
      · rename_i left heq
        exact absurd (List.cons.inj heq).1 hc
      · rfl
  | cons d digits =>
    have hsplit := Digits.split_toChars_append h (d :: digits)
    simp only [fractionChars, List.isEmpty_cons, Bool.false_eq_true, if_false, List.cons_append]
    simp only [readFraction, hsplit]

/-- An exponent as it is written, if there is one. -/
def exponentChars (exponent : Option Exponent) : List Char :=
  match exponent with
  | none => []
  | some e => e.toChars

theorem readExponentDigits_toChars (negative : Bool) (first : Digit) (others : List Digit)
    {rest : List Char} (h : NoDigit rest) :
    readExponentDigits negative (Digits.toChars (first :: others) ++ rest) =
      .ok (some ⟨negative, first, others⟩, rest) := by
  unfold readExponentDigits
  rw [Digits.split_toChars_append h]

theorem readExponent_exponentChars (exponent : Option Exponent) {rest : List Char}
    (h : Stops rest) :
    readExponent (exponentChars exponent ++ rest) = .ok (exponent, rest) := by
  cases exponent with
  | none =>
    cases rest with
    | nil => rfl
    | cons c rest =>
      obtain ⟨_, _, he, hE⟩ := h c (by simp)
      simp [exponentChars, readExponent, he, hE]
  | some e =>
    obtain ⟨negative, first, others⟩ := e
    cases negative with
    | false =>
      simpa [exponentChars, Exponent.toChars, readExponent]
        using readExponentDigits_toChars false first others h.noDigit
    | true =>
      simpa [exponentChars, Exponent.toChars, readExponent]
        using readExponentDigits_toChars true first others h.noDigit

/-- A number without its sign, as it is written. -/
def Number.unsignedChars (n : Number) : List Char :=
  Digits.toChars (Digits.ofNat n.whole) ++ (fractionChars n.fraction ++ exponentChars n.exponent)

theorem Number.toChars_eq (n : Number) :
    n.toChars = (if n.negative then ['-'] else []) ++ n.unsignedChars := by
  unfold toChars unsignedChars fractionChars exponentChars
  exact (List.append_assoc _ _ _).trans (List.append_assoc _ _ _)

theorem stops_exponentChars_append (exponent : Option Exponent) {rest : List Char}
    (h : Stops rest) :
    NoDigit (exponentChars exponent ++ rest) ∧
      ∀ c ∈ (exponentChars exponent ++ rest).head?, c ≠ '.' := by
  cases exponent with
  | none => exact ⟨h.noDigit, fun c hc => (h c hc).2.1⟩
  | some e =>
    refine ⟨Digits.noDigit_cons (by decide) _, ?_⟩
    intro c hc
    simp only [exponentChars, Exponent.toChars, List.cons_append, List.head?_cons,
      Option.mem_some_iff] at hc
    subst hc
    decide

theorem noDigit_fractionChars_append (fraction : List Digit) {rest : List Char}
    (h : NoDigit rest) : NoDigit (fractionChars fraction ++ rest) := by
  cases fraction with
  | nil => exact h
  | cons d digits => exact Digits.noDigit_cons (by decide) _

/-- A written number is read again, behind its sign. -/
theorem readUnsigned_unsignedChars (n : Number) {rest : List Char} (h : Stops rest) :
    readUnsigned n.negative (n.unsignedChars ++ rest) = .ok (n, rest) := by
  obtain ⟨hexponent, hpoint⟩ := stops_exponentChars_append n.exponent h
  have hfraction := noDigit_fractionChars_append n.fraction hexponent
  unfold readUnsigned Number.unsignedChars
  rw [List.append_assoc, List.append_assoc, readWhole_toChars _ hfraction]
  simp only [ok_bind]
  rw [readFraction_fractionChars _ hexponent hpoint]
  simp only [ok_bind]
  rw [readExponent_exponentChars _ h]
  rfl

/-! ## Strings -/

theorem hexValue?_hexDigit : ∀ n < 16, hexValue? (hexDigit n) = some n := by
  decide

/-- The four digits of a control character are read as its code. -/
theorem readHex_control {n : Nat} (h : n < 0x20) (left : List Char) :
    readHex ('0' :: '0' :: hexDigit (n / 16) :: hexDigit (n % 16) :: left) = .ok (n, left) := by
  have hzero : hexValue? '0' = some 0 := by decide
  have hhigh := hexValue?_hexDigit (n / 16) (by omega)
  have hlow := hexValue?_hexDigit (n % 16) (by omega)
  have hvalue : ((0 * 16 + 0) * 16 + n / 16) * 16 + n % 16 = n := by omega
  simp only [readHex, hzero, hhigh, hlow, hvalue]

theorem readEscape_control {c : Char} (h : c.toNat < 0x20) (left : List Char) :
    readEscape
      ('u' :: '0' :: '0' :: hexDigit (c.toNat / 16) :: hexDigit (c.toNat % 16) :: left) =
      .ok (c, left) := by
  have hlow : ¬ (0xDC00 ≤ c.toNat ∧ c.toNat ≤ 0xDFFF) := by omega
  have hhigh : ¬ (0xD800 ≤ c.toNat ∧ c.toNat ≤ 0xDBFF) := by omega
  simp only [readEscape, readHex_control h, ok_bind]
  rw [if_neg hlow, if_neg hhigh, Char.ofNat_toNat]
  rfl

/-- The step of `readCharacters` on a character, as a map over what it reads
behind it. -/
theorem bind_cons_eq_map (c : Char) (read : Except Fault (List Char × List Char)) :
    (do let (others, left) ← read; return (c :: others, left)) =
      read.map fun read => (c :: read.1, read.2) := by
  cases read <;> rfl

/-- One written character is read as that character. -/
theorem readCharacters_escapeChar (c : Char) (steps : Nat) (left : List Char) :
    readCharacters (steps + 1) (escapeChar c ++ left) =
      (readCharacters steps left).map fun read => (c :: read.1, read.2) := by
  rw [← bind_cons_eq_map]
  unfold escapeChar
  split
  · subst_vars; rfl
  split
  · subst_vars; rfl
  split
  · subst_vars; rfl
  split
  · subst_vars; rfl
  split
  · subst_vars; rfl
  split
  · subst_vars; rfl
  split
  · subst_vars; rfl
  split
  · rename_i hcontrol
    simp only [List.cons_append, List.nil_append, readCharacters, Char.reduceEq, if_false, if_true,
      readEscape_control hcontrol, ok_bind]
  · rename_i hquote hbackslash _ _ _ _ _ hcontrol
    simp only [List.cons_append, List.nil_append, readCharacters, hquote, hbackslash, hcontrol,
      if_false]

theorem readCharacters_flatMap_escapeChar (text : List Char) {steps : Nat}
    (h : text.length < steps) (rest : List Char) :
    readCharacters steps (text.flatMap escapeChar ++ '"' :: rest) = .ok (text, rest) := by
  induction text generalizing steps with
  | nil =>
    cases steps with
    | zero => omega
    | succ steps => rfl
  | cons c text ih =>
    cases steps with
    | zero => omega
    | succ steps =>
      rw [List.length_cons] at h
      rw [List.flatMap_cons, List.append_assoc, readCharacters_escapeChar, ih (by omega)]
      rfl

theorem length_le_flatMap_escapeChar (text : List Char) :
    text.length ≤ (text.flatMap escapeChar).length := by
  induction text with
  | nil => simp
  | cons c text ih =>
    have hc : 1 ≤ (escapeChar c).length := by
      unfold escapeChar
      split_ifs <;> simp
    rw [List.flatMap_cons, List.length_append, List.length_cons]
    omega

/-- A written string is read again, behind its opening quote. -/
theorem readString_quote (text : String) (rest : List Char) :
    readString (text.toList.flatMap escapeChar ++ '"' :: rest) = .ok (text, rest) := by
  have hlength := length_le_flatMap_escapeChar text.toList
  unfold readString
  rw [readCharacters_flatMap_escapeChar text.toList
    (by rw [List.length_append, List.length_cons]; omega), ok_bind]
  simp only [String.ofList_toList]
  rfl

end GoldenFixtures.Json
