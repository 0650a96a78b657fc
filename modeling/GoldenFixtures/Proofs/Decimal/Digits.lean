import Mathlib.Data.List.Induction
import Mathlib.Data.List.Basic
import GoldenFixtures.Decimal.Digits

/-!
# Digits written and read again

The digits of a number write that number, without a zero in front unless it is
the only digit, and a run of written digits is split off a text as it stands.
`NoDigit` is what has to follow the run for that.
-/

namespace GoldenFixtures

/-! ## Characters -/

@[simp] theorem Digit.ofChar?_toChar (d : Digit) : Digit.ofChar? d.toChar = some d := by
  revert d
  decide

/-- A character is read as the digit that it is. -/
theorem Digit.eq_toChar_of_ofChar? {c : Char} {d : Digit} (h : Digit.ofChar? c = some d) :
    c = d.toChar := by
  unfold Digit.ofChar? at h
  split at h
  · rename_i hc
    cases h
    have hcode : 48 + (c.toNat - 48) = c.toNat := by omega
    simp only [Digit.toChar, hcode, Char.ofNat_toNat]
  · cases h

namespace Digits

/-- The text does not start with a digit. -/
def NoDigit (text : List Char) : Prop := ∀ c ∈ text.head?, Digit.ofChar? c = none

theorem noDigit_cons {c : Char} (h : Digit.ofChar? c = none) (rest : List Char) :
    NoDigit (c :: rest) := by
  intro d hd
  rw [List.head?_cons, Option.mem_some_iff] at hd
  subst hd
  exact h

@[simp] theorem toChars_nil : toChars [] = [] := rfl

@[simp] theorem toChars_cons (d : Digit) (digits : List Digit) :
    toChars (d :: digits) = d.toChar :: toChars digits := rfl

theorem split_of_noDigit {text : List Char} (h : NoDigit text) : split text = ([], text) := by
  cases text with
  | nil => rfl
  | cons c rest =>
    have hc : Digit.ofChar? c = none := h c (by simp)
    simp [split, hc]

/-- A written run of digits is split off as it stands. -/
theorem split_toChars_append {rest : List Char} (h : NoDigit rest) (digits : List Digit) :
    split (toChars digits ++ rest) = (digits, rest) := by
  induction digits with
  | nil => exact split_of_noDigit h
  | cons d digits ih => simp [split, ih]

/-- What is split off a text are the digits in front of something else. -/
theorem eq_of_split {text rest : List Char} {digits : List Digit}
    (h : split text = (digits, rest)) : text = toChars digits ++ rest ∧ NoDigit rest := by
  induction text generalizing digits rest with
  | nil =>
    cases h
    exact ⟨rfl, fun c hc => nomatch hc⟩
  | cons c text ih =>
    rw [split] at h
    split at h
    · rename_i d hd
      cases h
      obtain ⟨htext, hrest⟩ := ih rfl
      exact ⟨by rw [toChars_cons, List.cons_append, ← htext, Digit.eq_toChar_of_ofChar? hd], hrest⟩
    · rename_i hc
      cases h
      exact ⟨rfl, noDigit_cons hc text⟩

/-! ## The digits of a number -/

theorem toNat_append_singleton (digits : List Digit) (d : Digit) :
    toNat (digits ++ [d]) = 10 * toNat digits + d.val := by
  simp [toNat]

theorem toNat_append (digits others : List Digit) :
    toNat (digits ++ others) = toNat digits * Nat.pow 10 others.length + toNat others := by
  induction others using List.reverseRecOn with
  | nil => simp [toNat]
  | append_singleton others d ih =>
    rw [← List.append_assoc, toNat_append_singleton, toNat_append_singleton, ih,
      List.length_append, List.length_singleton]
    have hpow : Nat.pow 10 (others.length + 1) = 10 * Nat.pow 10 others.length := Nat.pow_succ'
    rw [hpow, Nat.mul_add, Nat.mul_left_comm, Nat.add_assoc]


theorem ofNatAppend_eq (n : Nat) (after : List Digit) :
    ofNatAppend n after = ofNat n ++ after := by
  induction n using Nat.strongRecOn generalizing after with
  | ind n ih =>
    unfold ofNat
    rw [ofNatAppend, ofNatAppend.eq_def n []]
    split
    · rfl
    · rw [ih (n / 10) (by omega), ih (n / 10) (by omega) [_], List.append_assoc]
      rfl

theorem ofNat_of_lt {n : Nat} (h : n < 10) : ofNat n = [⟨n, h⟩] := by
  unfold ofNat
  rw [ofNatAppend, dif_pos h]

theorem ofNat_of_le {n : Nat} (h : 10 ≤ n) :
    ofNat n = ofNat (n / 10) ++ [⟨n % 10, Nat.mod_lt _ (by decide)⟩] := by
  unfold ofNat
  rw [ofNatAppend, dif_neg (by omega), ofNatAppend_eq]
  rfl

/-- The digits of a number write it. -/
@[simp] theorem toNat_ofNat (n : Nat) : toNat (ofNat n) = n := by
  induction n using Nat.strongRecOn with
  | ind n ih =>
    rcases Nat.lt_or_ge n 10 with h | h
    · rw [ofNat_of_lt h]
      simp [toNat]
    · rw [ofNat_of_le h, toNat_append_singleton, ih (n / 10) (by omega)]
      simp only
      omega

theorem ofNat_ne_nil (n : Nat) : ofNat n ≠ [] := by
  rcases Nat.lt_or_ge n 10 with h | h
  · simp [ofNat_of_lt h]
  · simp [ofNat_of_le h]

/-- Only zero itself has the first digit zero. -/
theorem eq_zero_of_ofNat_head {n : Nat} {first : Digit} {others : List Digit}
    (h : ofNat n = first :: others) (hzero : first.val = 0) : n = 0 := by
  induction n using Nat.strongRecOn generalizing others with
  | ind n ih =>
    rcases Nat.lt_or_ge n 10 with hn | hn
    · rw [ofNat_of_lt hn] at h
      rw [← (List.cons.inj h).1] at hzero
      exact hzero
    · rw [ofNat_of_le hn] at h
      cases hfront : ofNat (n / 10) with
      | nil => exact absurd hfront (ofNat_ne_nil _)
      | cons head rest =>
        rw [hfront, List.cons_append, List.cons.injEq] at h
        have hdiv : n / 10 = 0 := ih (n / 10) (by omega) (by rw [hfront, h.1])
        omega

/-- The digits of a number: a zero in front has no others behind it. -/
theorem exists_ofNat_eq_cons (n : Nat) :
    ∃ (first : Digit) (others : List Digit), ofNat n = first :: others ∧
      (first.val = 0 → others = []) := by
  cases hdigits : ofNat n with
  | nil => exact absurd hdigits (ofNat_ne_nil n)
  | cons first others =>
    refine ⟨first, others, rfl, fun hzero => ?_⟩
    rw [eq_zero_of_ofNat_head hdigits hzero, ofNat_of_lt (by decide)] at hdigits
    exact (List.cons.inj hdigits).2.symm

/-- Digits without a zero in front are those of the number that they write. -/
theorem ofNat_toNat {first : Digit} {others : List Digit} (h : first.val = 0 → others = []) :
    ofNat (toNat (first :: others)) = first :: others := by
  induction others using List.reverseRecOn with
  | nil =>
    have hvalue : toNat [first] = first.val := by simp [toNat]
    rw [hvalue, ofNat_of_lt first.isLt]
  | append_singleton others last ih =>
    have hfirst : first.val ≠ 0 := fun hzero => by simpa using h hzero
    have ih := ih fun hzero => absurd hzero hfirst
    have hpos : toNat (first :: others) ≠ 0 := by
      intro hzero
      rw [hzero, ofNat_of_lt (by decide)] at ih
      exact hfirst (congrArg Fin.val (List.cons.inj ih).1.symm)
    have hlast := last.isLt
    rw [← List.cons_append, toNat_append_singleton, ofNat_of_le (by omega)]
    have hdiv : (10 * toNat (first :: others) + last.val) / 10 = toNat (first :: others) := by
      omega
    have hmod : (10 * toNat (first :: others) + last.val) % 10 = last.val := by omega
    simp only [hdiv, hmod, ih]

/-! ## Fixed widths -/

/-- The digits of a number with zeros in front, up to a width. -/
def ofNatPadded (width n : Nat) : List Digit :=
  List.replicate (width - (ofNat n).length) 0 ++ ofNat n

theorem padded_eq_toChars (width n : Nat) : padded width n = toChars (ofNatPadded width n) := by
  have hzero : Digit.toChar 0 = '0' := rfl
  simp [padded, ofNatPadded, toChars, hzero]

@[simp] theorem toNat_replicate_zero_append (count : Nat) (digits : List Digit) :
    toNat (List.replicate count 0 ++ digits) = toNat digits := by
  induction count with
  | zero => rfl
  | succ count ih => simpa [List.replicate_succ, toNat] using ih

/-- Zeros in front do not change the number. -/
@[simp] theorem toNat_ofNatPadded (width n : Nat) : toNat (ofNatPadded width n) = n := by
  rw [ofNatPadded, toNat_replicate_zero_append, toNat_ofNat]

theorem length_ofNat_le {n width : Nat} (hn : n < Nat.pow 10 width) (hwidth : 0 < width) :
    (ofNat n).length ≤ width := by
  induction width generalizing n with
  | zero => omega
  | succ width ih =>
    rcases Nat.lt_or_ge n 10 with h | h
    · rw [ofNat_of_lt h, List.length_singleton]
      omega
    · have hpow : Nat.pow 10 (width + 1) = Nat.pow 10 width * 10 := rfl
      rw [hpow] at hn
      have hdiv : n / 10 < Nat.pow 10 width := by omega
      have hwidth' : 0 < width := by
        rcases Nat.eq_zero_or_pos width with rfl | hpos
        · have hone : Nat.pow 10 0 = 1 := rfl
          omega
        · exact hpos
      rw [ofNat_of_le h, List.length_append, List.length_singleton]
      exact Nat.succ_le_succ (ih hdiv hwidth')

theorem length_ofNatPadded {n width : Nat} (hn : n < Nat.pow 10 width) (hwidth : 0 < width) :
    (ofNatPadded width n).length = width := by
  have hle := length_ofNat_le hn hwidth
  rw [ofNatPadded, List.length_append, List.length_replicate]
  omega

theorem length_padded {n width : Nat} (hn : n < Nat.pow 10 width) (hwidth : 0 < width) :
    (padded width n).length = width := by
  rw [padded_eq_toChars, toChars, List.length_map, length_ofNatPadded hn hwidth]

theorem le_length_padded (width n : Nat) : width ≤ (padded width n).length := by
  rw [padded, List.length_append, List.length_replicate]
  omega

/-! ## Numbers with zeros in front -/

theorem toChars_append (digits others : List Digit) :
    toChars (digits ++ others) = toChars digits ++ toChars others :=
  List.map_append

/-- The digits of a number are those that `toString` writes. -/
theorem toChars_ofNat (n : Nat) : toChars (ofNat n) = (toString n).toList := by
  rw [Nat.toString_eq_ofList_toDigits, String.toList_ofList]
  have hdigit : ∀ d : Digit, d.toChar = Nat.digitChar d.val := by decide
  induction n using Nat.strongRecOn with
  | ind n ih =>
    rcases Nat.lt_or_ge n 10 with h | h
    · rw [ofNat_of_lt h, Nat.toDigits_of_lt_base h, toChars_cons, toChars_nil, hdigit]
    · rw [ofNat_of_le h, toChars_append, ih (n / 10) (by omega),
        Nat.toDigits_of_base_le (by decide) h, toChars_cons, toChars_nil, hdigit]

theorem padded_eq_leftpad (width n : Nat) :
    padded width n = (toString n).toList.leftpad width '0' := by
  rw [padded, toChars_ofNat, List.leftpad]

/-- Numbers are told apart by their digits, whatever zeros stand in front. -/
theorem padded_injective (width : Nat) : Function.Injective (padded width) := by
  have hchars : Function.Injective toChars := by
    apply List.map_injective_iff.mpr
    intro d e h
    have hread : Digit.ofChar? d.toChar = Digit.ofChar? e.toChar := by rw [h]
    simpa using hread
  intro m n h
  rw [padded_eq_toChars, padded_eq_toChars] at h
  have hnumber : toNat (ofNatPadded width m) = toNat (ofNatPadded width n) := by rw [hchars h]
  rwa [toNat_ofNatPadded, toNat_ofNatPadded] at hnumber

end Digits

end GoldenFixtures
