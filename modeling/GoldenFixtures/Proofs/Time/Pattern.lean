import GoldenFixtures.Time.Pattern
import GoldenFixtures.Proofs.Decimal.Digits

/-!
# Patterns on written times

What the items of a pattern make of numbers that are written with a fixed
width.  Which text an item leaves behind does not depend on the fields that were
read before it: `Item.Takes` and `Pattern.Takes` speak of the text alone, and
`Pattern.Refuses` says that a pattern does not accept a text.
-/

namespace GoldenFixtures.Time

open Digits (NoDigit padded)

/-! ## Digits -/

theorem takeDigits_toChars_append (digits : List Digit) (rest : List Char) :
    takeDigits digits.length (Digits.toChars digits ++ rest) = (digits, rest) := by
  induction digits with
  | nil => rfl
  | cons d digits ih => simp [takeDigits, ih]

theorem takeDigits_of_noDigit {text : List Char} (h : NoDigit text) (count : Nat) :
    takeDigits count text = ([], text) := by
  cases count with
  | zero => rfl
  | succ count =>
    cases text with
    | nil => rfl
    | cons c rest =>
      have hc : Digit.ofChar? c = none := h c (by simp)
      simp [takeDigits, hc]

theorem takeDigits_padded {width n : Nat} (hn : n < Nat.pow 10 width) (hwidth : 0 < width)
    (rest : List Char) :
    takeDigits width (padded width n ++ rest) = (Digits.ofNatPadded width n, rest) := by
  have htake := takeDigits_toChars_append (Digits.ofNatPadded width n) rest
  rw [Digits.length_ofNatPadded hn hwidth] at htake
  rw [Digits.padded_eq_toChars, htake]

theorem exactDigits?_padded {width n : Nat} (hn : n < Nat.pow 10 width) (hwidth : 0 < width)
    (rest : List Char) : exactDigits? width (padded width n ++ rest) = some (n, rest) := by
  simp [exactDigits?, takeDigits_padded hn hwidth, Digits.length_ofNatPadded hn hwidth]

theorem exactDigits?_of_noDigit {text : List Char} (h : NoDigit text) {count : Nat}
    (hcount : 0 < count) : exactDigits? count text = none := by
  have hne : ¬0 = count := by omega
  simp [exactDigits?, takeDigits_of_noDigit h, hne]

/-- A number with zeros in front starts with a digit. -/
theorem padded_eq_cons (width n : Nat) :
    ∃ (d : Digit) (digits : List Digit), Digits.ofNatPadded width n = d :: digits := by
  cases hdigits : Digits.ofNatPadded width n with
  | nil => simp [Digits.ofNatPadded, Digits.ofNat_ne_nil] at hdigits
  | cons d digits => exact ⟨d, digits, rfl⟩

theorem someDigits?_padded {width n : Nat} (hn : n < Nat.pow 10 width) (hwidth : 0 < width)
    (rest : List Char) : someDigits? width (padded width n ++ rest) = some (n, rest) := by
  obtain ⟨d, digits, hdigits⟩ := padded_eq_cons width n
  have hvalue := Digits.toNat_ofNatPadded width n
  rw [hdigits] at hvalue
  simp [someDigits?, takeDigits_padded hn hwidth, hdigits, hvalue]

theorem someDigits?_of_noDigit {text : List Char} (h : NoDigit text) (count : Nat) :
    someDigits? count text = none := by
  rw [someDigits?, takeDigits_of_noDigit h]

theorem allDigits?_padded (width n : Nat) {rest : List Char} (h : NoDigit rest) :
    allDigits? (padded width n ++ rest) = some (Digits.ofNatPadded width n, rest) := by
  obtain ⟨d, digits, hdigits⟩ := padded_eq_cons width n
  rw [Digits.padded_eq_toChars, allDigits?, Digits.split_toChars_append h, hdigits]

/-! ## Numbers -/

theorem isBlank_toChar (d : Digit) : Text.isBlank d.toChar = false := by
  revert d
  decide

theorem toChar_ne_sign (d : Digit) : d.toChar ≠ '-' ∧ d.toChar ≠ '+' := by
  revert d
  decide

theorem trimStart_cons_of_not {c : Char} (hc : Text.isBlank c = false) (rest : List Char) :
    Text.trimStart (c :: rest) = c :: rest := by
  rw [Text.trimStart, List.dropWhile_cons_of_neg (by simp [hc])]

theorem trimStart_padded (width n : Nat) (rest : List Char) :
    Text.trimStart (padded width n ++ rest) = padded width n ++ rest := by
  obtain ⟨d, digits, hdigits⟩ := padded_eq_cons width n
  rw [Digits.padded_eq_toChars, hdigits, Digits.toChars_cons, List.cons_append,
    trimStart_cons_of_not (isBlank_toChar d)]

theorem number?_padded {part : Part} (hpart : part ≠ .year) {n : Nat} (hn : n < Nat.pow 10 2)
    (rest : List Char) : number? part (padded 2 n ++ rest) = some ((n : Int), rest) := by
  rw [number?, if_neg hpart, trimStart_padded, someDigits?_padded hn (by decide)]
  rfl

theorem number?_year_padded {n : Nat} (hn : n < Nat.pow 10 4) (rest : List Char) :
    number? .year (padded 4 n ++ rest) = some ((n : Int), rest) := by
  have hread := someDigits?_padded hn (by decide) rest
  obtain ⟨d, digits, hdigits⟩ := padded_eq_cons 4 n
  have hsign := toChar_ne_sign d
  rw [Digits.padded_eq_toChars, hdigits, Digits.toChars_cons, List.cons_append] at hread ⊢
  rw [number?, if_pos rfl, trimStart_cons_of_not (isBlank_toChar d)]
  simp [hread, hsign.1, hsign.2]

theorem number?_year_minus (n : Nat) {rest : List Char} (h : NoDigit rest) :
    number? .year ('-' :: (padded 4 n ++ rest)) = some (-(n : Int), rest) := by
  rw [number?, if_pos rfl, trimStart_cons_of_not (by decide)]
  simp [allDigits?_padded 4 n h]

theorem number?_year_plus (n : Nat) {rest : List Char} (h : NoDigit rest) :
    number? .year ('+' :: (padded 4 n ++ rest)) = some ((n : Int), rest) := by
  rw [number?, if_pos rfl, trimStart_cons_of_not (by decide)]
  simp [allDigits?_padded 4 n h]

theorem number?_of_noDigit {part : Part} (hpart : part ≠ .year) {c : Char}
    (hc : Text.isBlank c = false) (h : Digit.ofChar? c = none) (rest : List Char) :
    number? part (c :: rest) = none := by
  rw [number?, if_neg hpart, trimStart_cons_of_not hc,
    someDigits?_of_noDigit (Digits.noDigit_cons h rest)]
  rfl

/-- Milliseconds behind a point are read as nanoseconds. -/
theorem nanoseconds_ofNatPadded {n : Nat} (hn : n < Nat.pow 10 3) :
    nanoseconds (Digits.ofNatPadded 3 n) = n * 1000000 := by
  have hlength := Digits.length_ofNatPadded hn (by decide)
  rw [nanoseconds, List.take_of_length_le (by omega), hlength, Digits.toNat_ofNatPadded]

/-! ## Items and patterns -/

/-- Whatever was read before, the item reads the text up to a rest. -/
def Item.Takes (item : Item) (text rest : List Char) : Prop :=
  ∀ fields, ∃ read, item.read fields text = some (read, rest)

/-- Whatever was read before, the items at the front of a longer pattern read
the text up to a rest. -/
def Pattern.Takes (pattern : Pattern) (text rest : List Char) : Prop :=
  ∀ fields, ∃ read, ∀ items,
    Pattern.read (pattern ++ items) fields text = Pattern.read items read rest

/-- Whatever was read before, the pattern does not accept the text. -/
def Pattern.Refuses (pattern : Pattern) (text : List Char) : Prop :=
  ∀ fields, Pattern.read pattern fields text = none

theorem Item.takes_number {part : Part} {n : Int} {text rest : List Char}
    (h : number? part text = some (n, rest)) : (Item.number part).Takes text rest := by
  intro fields
  exact ⟨fields.set part n, by simp [Item.read, h]⟩

theorem Item.takes_oneOf {characters : List Char} {c : Char} (h : c ∈ characters)
    (rest : List Char) : (Item.oneOf characters).Takes (c :: rest) rest := by
  intro fields
  exact ⟨fields, by simp [Item.read, h]⟩

theorem Item.takes_fraction (width n : Nat) {rest : List Char} (h : NoDigit rest) :
    Item.fraction.Takes ('.' :: (padded width n ++ rest)) rest := by
  intro fields
  exact ⟨{ fields with nanosecond := nanoseconds (Digits.ofNatPadded width n) },
    by simp [Item.read, allDigits?_padded width n h]⟩

namespace Pattern

theorem takes_nil (text : List Char) : Takes [] text text :=
  fun fields => ⟨fields, fun _ => rfl⟩

theorem takes_cons {item : Item} {items : Pattern} {text middle rest : List Char}
    (hitem : item.Takes text middle) (hitems : Takes items middle rest) :
    Takes (item :: items) text rest := by
  intro fields
  obtain ⟨between, hbetween⟩ := hitem fields
  obtain ⟨read, hread⟩ := hitems between
  refine ⟨read, fun later => ?_⟩
  rw [List.cons_append, Pattern.read, hbetween]
  exact hread later

theorem Takes.append {front items : Pattern} {text middle rest : List Char}
    (hfront : Takes front text middle) (hitems : Takes items middle rest) :
    Takes (front ++ items) text rest := by
  intro fields
  obtain ⟨between, hbetween⟩ := hfront fields
  obtain ⟨read, hread⟩ := hitems between
  refine ⟨read, fun later => ?_⟩
  rw [List.append_assoc, hbetween, hread]

/-- A pattern refuses a text if what its first items leave is refused. -/
theorem Takes.refuses_append {front items : Pattern} {text rest : List Char}
    (hfront : Takes front text rest) (hitems : Refuses items rest) :
    Refuses (front ++ items) text := by
  intro fields
  obtain ⟨read, hread⟩ := hfront fields
  rw [hread, hitems]

/-- A pattern refuses a text of which it leaves something. -/
theorem Takes.refuses {pattern : Pattern} {text rest : List Char} {c : Char}
    (h : Takes pattern text (c :: rest)) : Refuses pattern text := by
  have hnil : Refuses [] (c :: rest) := fun _ => rfl
  have hrefuses := h.refuses_append hnil
  rwa [List.append_nil] at hrefuses

theorem refuses_cons {item : Item} {text : List Char} (h : ∀ fields, item.read fields text = none)
    (items : Pattern) : Refuses (item :: items) text := by
  intro fields
  rw [Pattern.read, h]

theorem Refuses.instant? {pattern : Pattern} {text : List Char} (h : Refuses pattern text) :
    pattern.instant? text = none := by
  rw [Pattern.instant?, h]
  rfl

end Pattern

end GoldenFixtures.Time
