import GoldenFixtures.Json.Binary
import GoldenFixtures.Proofs.Json.Tree
import GoldenFixtures.Yaml.Resolve

/-!
# Numbers read as plain scalars

The text of a JSON number is a plain scalar of YAML as well.  `plain?_spell` says what it
stands for: an integer if it is spelled as one and has at most 128 bits, or else the nearest
number of the binary format.  Integers between 64 and 128 bits make it malformed, and a
number beyond the greatest finite one is taken for a string.
-/

namespace GoldenFixtures

open Digits (NoDigit)

namespace Json

/-- The integer that a number is spelled as, without a fraction or an exponent. -/
def Number.integer? (n : Number) : Option Int :=
  if n.fraction.isEmpty && n.exponent.isNone then
    some (if n.negative then -(n.whole : Int) else n.whole)
  else none

end Json

namespace Yaml

open Json (Number ExponentStyle Exponent fractionChars hexValue?)

/-! ## Digits -/

theorem hexValue?_toChar (d : Digit) : hexValue? d.toChar = some d.val := by
  revert d
  decide

/-- A character that is no digit stands for ten at least. -/
theorem not_lt_of_hexValue? {c : Char} {n : Nat} (hc : Digit.ofChar? c = none)
    (h : hexValue? c = some n) : ¬ n < 10 := by
  have hrange : ¬ (48 ≤ c.toNat ∧ c.toNat ≤ 57) := by simpa [Digit.ofChar?] using hc
  unfold hexValue? at h
  split_ifs at h with hdigit hsmall hcapital <;> cases h
  · exact absurd hdigit hrange
  · have hle : 97 ≤ c.toNat := hsmall.1
    omega
  · have hle : 65 ≤ c.toNat := hcapital.1
    omega

/-- Digits are added to the number in front of them. -/
theorem foldlM_toChars (digits : List Digit) (n : Nat) :
    ((Digits.toChars digits).foldlM (fun n c => do
      let digit ← hexValue? c
      if digit < 10 then some (n * 10 + digit) else none) n) =
      some (digits.foldl (fun n d => 10 * n + d.val) n) := by
  induction digits generalizing n with
  | nil => rfl
  | cons d digits ih =>
    rw [Digits.toChars_cons, List.foldlM_cons, hexValue?_toChar, List.foldl_cons, Nat.mul_comm 10 n,
      ← ih]
    simp [d.isLt]

/-- Digits in front of something else write a number only if nothing else follows. -/
theorem natural?_toChars_append {digits : List Digit} (hdigits : digits ≠ []) {rest : List Char}
    (hrest : NoDigit rest) :
    natural? 10 (Digits.toChars digits ++ rest) =
      if rest.isEmpty then some (Digits.toNat digits) else none := by
  have hempty : (Digits.toChars digits ++ rest).isEmpty = false := by
    cases digits with
    | nil => exact absurd rfl hdigits
    | cons d digits => rfl
  rw [natural?, hempty, if_neg Bool.false_ne_true, List.foldlM_append, foldlM_toChars]
  cases rest with
  | nil => rfl
  | cons c rest =>
    have hc := hrest c rfl
    cases hvalue : hexValue? c with
    | none => simp [hvalue]
    | some n => simp [hvalue, not_lt_of_hexValue? hc hvalue]

/-! ## Integers -/

theorem splitSign_of_digit {d : Digit} {rest : List Char} :
    splitSign (d.toChar :: rest) = (none, d.toChar :: rest) := by
  have hd : d.toChar ≠ '+' ∧ d.toChar ≠ '-' := by
    revert d
    decide
  unfold splitSign
  split
  · rename_i heq
    exact absurd (List.cons.inj heq).1 hd.1
  · rename_i heq
    exact absurd (List.cons.inj heq).1 hd.2
  · rfl

theorem splitSign_spell (n : Number) (style : ExponentStyle) :
    splitSign (n.spell style) =
      (if n.negative then some true else none, n.spellUnsigned style) := by
  obtain ⟨first, others, hwhole, -⟩ := Digits.exists_ofNat_eq_cons n.whole
  rw [Number.spell]
  cases n.negative with
  | true => rfl
  | false =>
    rw [Number.spellUnsigned, hwhole]
    exact splitSign_of_digit

/-- No zero stands in front of a number. -/
theorem isZeroPadded_spell (n : Number) (style : ExponentStyle) :
    isZeroPadded (n.spell style) = false := by
  obtain ⟨first, others, hwhole, hothers⟩ := Digits.exists_ofNat_eq_cons n.whole
  have hrest := Json.noDigit_behindWhole n style
  rw [isZeroPadded, splitSign_spell, Number.spellUnsigned, hwhole]
  split
  · rename_i c rest heq
    obtain ⟨hfirst, hmore⟩ := List.cons.inj heq
    have hzero : ∀ d : Digit, d.toChar = '0' → d.val = 0 := by decide
    rw [hothers (hzero first hfirst)] at hmore
    have hc : Digit.ofChar? c = none := hrest c (congrArg List.head? hmore)
    simp [hc]
  · rfl

/-- Nothing but digits stand behind the sign exactly if there is neither a fraction nor an
exponent. -/
theorem isEmpty_behindWhole (n : Number) (style : ExponentStyle) :
    (fractionChars n.fraction ++ style.spell n.exponent).isEmpty =
      (n.fraction.isEmpty && n.exponent.isNone) := by
  cases hfraction : n.fraction <;> cases hexponent : n.exponent <;> rfl

/-- No mark of another base stands in front of a number. -/
theorem unsigned?_spellUnsigned (n : Number) (style : ExponentStyle) :
    unsigned? (n.spellUnsigned style) =
      if n.fraction.isEmpty && n.exponent.isNone then some n.whole else none := by
  have hdigit : ∀ d : Digit, d.toChar ∉ ['x', 'o', 'b'] := by decide
  have hother : ∀ c ∈ ['-', '+', '.', 'e', 'E'], c ∉ ['x', 'o', 'b'] := by simp
  have hmark : ∀ c ∈ ['x', 'o', 'b'], c ∉ n.spellUnsigned style := by
    intro c hc hmem
    rcases Json.mem_spell (List.mem_append_right _ hmem) with ⟨d, rfl⟩ | hmem
    · exact hdigit d hc
    · exact hother c hmem hc
  have hnatural := natural?_toChars_append (Digits.ofNat_ne_nil n.whole)
    (Json.noDigit_behindWhole n style)
  rw [isEmpty_behindWhole, Digits.toNat_ofNat] at hnatural
  unfold unsigned?
  split
  · rename_i heq
    exact absurd (by simp [heq]) (hmark 'x' (by decide))
  · rename_i heq
    exact absurd (by simp [heq]) (hmark 'o' (by decide))
  · rename_i heq
    exact absurd (by simp [heq]) (hmark 'b' (by decide))
  · exact hnatural

theorem integer?_spell (n : Number) (style : ExponentStyle) :
    integer? (n.spell style) = n.integer? := by
  rw [integer?, isZeroPadded_spell, splitSign_spell, Number.integer?]
  cases n.negative <;> cases h : n.fraction.isEmpty && n.exponent.isNone <;>
    simp [unsigned?_spellUnsigned, h]

/-! ## Floating-point numbers -/

theorem exponent?_spell (style : ExponentStyle) (exponent : Option Exponent) :
    exponent? (style.spell exponent) = some ((exponent.map Exponent.toInt).getD 0) := by
  cases exponent with
  | none => rfl
  | some e =>
    obtain ⟨negative, first, others⟩ := e
    obtain ⟨capital, plus⟩ := style
    have hnatural : natural? 10 (Digits.toChars (first :: others)) =
        some (Digits.toNat (first :: others)) := by
      have h := natural?_toChars_append (List.cons_ne_nil first others)
        (fun c hc => nomatch hc : NoDigit [])
      rwa [List.append_nil] at h
    have hunsigned : splitSign (Digits.toChars (first :: others)) =
        (none, Digits.toChars (first :: others)) := splitSign_of_digit
    simp only [ExponentStyle.spell, Option.map_some, Option.getD_some, Exponent.toInt]
    generalize Digits.toChars (first :: others) = text at hnatural hunsigned ⊢
    have hsign : splitSign ((if negative then ['-'] else if plus then ['+'] else []) ++ text) =
        (if negative then some true else if plus then some false else none, text) := by
      cases negative <;> cases plus <;> first | rfl | exact hunsigned
    cases capital <;> simp only [exponent?, hsign] <;>
      cases negative <;> cases plus <;> simp [hnatural]

/-- A number is cut at its point as it was put together. -/
theorem splitPoint_spellUnsigned (n : Number) (style : ExponentStyle) :
    splitPoint (n.spellUnsigned style) =
      (Digits.ofNat n.whole, n.fraction, style.spell n.exponent) := by
  have hwhole := Digits.split_toChars_append (Json.noDigit_behindWhole n style)
    (Digits.ofNat n.whole)
  rw [splitPoint, Number.spellUnsigned, hwhole]
  cases hfraction : n.fraction with
  | nil =>
    cases hexponent : n.exponent with
    | none => rfl
    | some e =>
      obtain ⟨capital, plus⟩ := style
      cases capital <;> rfl
  | cons d digits =>
    simp only [fractionChars, List.isEmpty_cons, Bool.false_eq_true, if_false, List.cons_append]
    rw [Digits.split_toChars_append (Json.noDigit_spell style n.exponent)]

theorem finite?_spellUnsigned (negative : Bool) (n : Number) (style : ExponentStyle) :
    finite? negative (n.spellUnsigned style) = n.magnitude?.map (.finite negative) := by
  have hdigits : (Digits.ofNat n.whole).isEmpty = false :=
    List.isEmpty_eq_false_iff.mpr (Digits.ofNat_ne_nil n.whole)
  have hsignificand : Digits.toNat (Digits.ofNat n.whole ++ n.fraction) = n.significand := by
    rw [Digits.toNat_append, Digits.toNat_ofNat, Number.significand]
  have hpower : (n.exponent.map Exponent.toInt).getD 0 - n.fraction.length = n.power := by
    rw [Number.power]
    cases n.exponent <;> rfl
  simp only [finite?, splitPoint_spellUnsigned, exponent?_spell, hdigits, hsignificand,
    Bool.false_and, Bool.false_eq_true, if_false, Option.bind_eq_bind, Option.bind_some, hpower]
  exact Option.map_eq_bind.symm

/-- The character is a minus sign or a digit. -/
def startsNumber (c : Char) : Bool := c == '-' || (Digit.ofChar? c).isSome

/-- A number is spelled with one of these in front. -/
theorem spell_notMem {texts : List (List Char)} (n : Number) (style : ExponentStyle)
    (h : ∀ text ∈ texts, text.head?.any startsNumber = false) : n.spell style ∉ texts := by
  obtain ⟨first, others, hwhole, -⟩ := Digits.exists_ofNat_eq_cons n.whole
  intro hmem
  have hstarts : (n.spell style).head?.any startsNumber = true := by
    rw [Number.spell, Number.spellUnsigned, hwhole]
    cases n.negative with
    | true => rfl
    | false =>
      have hfirst : ∀ d : Digit, startsNumber d.toChar = true := by decide
      exact hfirst first
  rw [h _ hmem] at hstarts
  cases hstarts

theorem real?_spell (n : Number) (style : ExponentStyle) :
    real? (n.spell style) = n.magnitude?.map (.finite n.negative) := by
  have hinfinity : isInfinityText (n.spellUnsigned style) = false :=
    decide_eq_false (spell_notMem { n with negative := false } style (by decide))
  have hnan : n.spell style ∉ [".nan".toList, ".NaN".toList, ".NAN".toList] :=
    spell_notMem n style (by decide)
  have hsign : ((if n.negative then some true else none) == some true) = n.negative := by
    cases n.negative <;> rfl
  rw [real?, splitSign_spell]
  simp only [hinfinity, hsign, Bool.false_eq_true, if_false, if_neg hnan,
    finite?_spellUnsigned]

/-! ## Scalars -/

/-- The integer has at most 128 bits, with a sign or without one. -/
def IsWide (i : Int) : Prop := int128Min ≤ i ∧ i ≤ uint128Max

/-- The integer has at most 64 bits, with a sign or without one. -/
def IsNarrow (i : Int) : Prop := int64Min ≤ i ∧ i ≤ uint64Max

instance (i : Int) : Decidable (IsNarrow i) := inferInstanceAs (Decidable (_ ∧ _))

theorem IsNarrow.isWide {i : Int} (h : IsNarrow i) : IsWide i :=
  ⟨Int.le_trans (by decide : int128Min ≤ int64Min) h.1,
    Int.le_trans h.2 (by decide : uint64Max ≤ uint128Max)⟩

/-- What a number stands for in YAML. -/
theorem plain?_spell (n : Number) (style : ExponentStyle) :
    plain? (n.spell style) =
      match n.integer?.filter fun i => decide (int128Min ≤ i) && decide (i ≤ uint128Max) with
      | some i => ofInteger? i
      | none =>
        match n.magnitude? with
        | some magnitude => some (.real (.finite n.negative magnitude))
        | none => some (.string (String.ofList (n.spell style))) := by
  have hnull : isNullText (n.spell style) = false :=
    decide_eq_false (spell_notMem n style (by decide))
  have hempty : (n.spell style).isEmpty = false := by
    have h : n.spell style ∉ [[]] := spell_notMem n style (by decide)
    cases hspell : n.spell style with
    | nil => exact absurd (by rw [hspell]; exact List.mem_singleton_self _) h
    | cons c text => rfl
  have hbool : boolean? (n.spell style) = none := by
    rw [boolean?, if_neg (spell_notMem n style (by decide)),
      if_neg (spell_notMem n style (by decide))]
  rw [plain?, hempty, hnull, hbool, wideInteger?, integer?_spell, isZeroPadded_spell, real?_spell]
  cases n.magnitude? <;> rfl

/-- A number is taken for the integer that it is spelled as. -/
theorem plain?_of_isWide {n : Number} {i : Int} (h : n.integer? = some i) (hwide : IsWide i)
    (style : ExponentStyle) : plain? (n.spell style) = ofInteger? i := by
  rw [plain?_spell, h, Option.filter_some, if_pos (by simpa [IsWide] using hwide)]

/-- A number that is no integer of 128 bits is taken for the nearest one of the binary
format, or for its own text. -/
theorem plain?_of_not_isWide {n : Number} (h : ∀ i ∈ n.integer?, ¬ IsWide i)
    (style : ExponentStyle) :
    plain? (n.spell style) = some (match n.magnitude? with
      | some magnitude => .real (.finite n.negative magnitude)
      | none => .string (String.ofList (n.spell style))) := by
  have hnone : n.integer?.filter
      (fun i => decide (int128Min ≤ i) && decide (i ≤ uint128Max)) = none := by
    rw [Option.filter_eq_none_iff]
    exact fun i hi => by simpa [IsWide] using h i hi
  rw [plain?_spell, hnone]
  cases n.magnitude? <;> rfl

end Yaml

end GoldenFixtures
