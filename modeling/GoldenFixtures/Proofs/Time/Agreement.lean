import Mathlib.Data.List.TakeWhile
import GoldenFixtures.Proofs.Time.Pattern

/-!
# Patterns that say the same of a text

Two patterns agree if they read the same fields from every text that both of them
accept (`Pattern.Agrees`).  Agreement goes item by item: a number of a fixed width
agrees with one of up to that width, and an offset that is written strictly with one
that is written loosely.
-/

namespace GoldenFixtures.Time

open Digits (NoDigit)

theorem Pattern.read_cons_eq_some_iff {item : Item} {items : Pattern} {fields read : Fields}
    {text : List Char} :
    Pattern.read (item :: items) fields text = some read ↔
      ∃ between rest, item.read fields text = some (between, rest) ∧
        Pattern.read items between rest = some read := by
  rw [Pattern.read]
  cases item.read fields text with
  | none => simp
  | some found =>
    obtain ⟨between, rest⟩ := found
    simp

/-! ## Digits -/

theorem eq_of_takeDigits {count : Nat} {text rest : List Char} {digits : List Digit}
    (h : takeDigits count text = (digits, rest)) : text = Digits.toChars digits ++ rest := by
  induction count generalizing text digits rest with
  | zero =>
    cases h
    rfl
  | succ count ih =>
    cases text with
    | nil =>
      cases h
      rfl
    | cons c text =>
      rw [takeDigits] at h
      split at h
      · rename_i d hd
        cases h
        rw [Digits.toChars_cons, List.cons_append, ← ih rfl, Digit.eq_toChar_of_ofChar? hd]
      · cases h
        rfl

theorem eq_of_exactDigits? {count n : Nat} {text rest : List Char}
    (h : exactDigits? count text = some (n, rest)) :
    ∃ digits : List Digit, digits.length = count ∧ text = Digits.toChars digits ++ rest ∧
      takeDigits count text = (digits, rest) ∧ Digits.toNat digits = n := by
  cases htake : takeDigits count text with
  | mk digits left =>
    simp only [exactDigits?, htake] at h
    split at h
    · rename_i hlength
      cases h
      exact ⟨digits, hlength, eq_of_takeDigits htake, rfl, rfl⟩
    · cases h

theorem eq_of_someDigits? {count n : Nat} {text rest : List Char}
    (h : someDigits? count text = some (n, rest)) :
    ∃ digits : List Digit, text = Digits.toChars digits ++ rest := by
  unfold someDigits? at h
  split at h
  · cases h
  · rename_i htake
    cases h
    exact ⟨_, eq_of_takeDigits htake⟩

theorem eq_of_allDigits? {digits : List Digit} {text rest : List Char}
    (h : allDigits? text = some (digits, rest)) : text = Digits.toChars digits ++ rest := by
  unfold allDigits? at h
  split at h
  · cases h
  · rename_i hsplit
    cases h
    exact (Digits.eq_of_split hsplit).1

theorem exists_trimStart (text : List Char) :
    ∃ blanks, text = blanks ++ Text.trimStart text ∧ ∀ c ∈ blanks, Text.isBlank c = true :=
  ⟨text.takeWhile Text.isBlank, List.takeWhile_append_dropWhile.symm,
    fun _ hc => List.mem_takeWhile_imp hc⟩

/-- Digits of an exact number are digits of up to that number. -/
theorem someDigits?_of_exactDigits? {count n : Nat} {text rest : List Char} (hcount : 0 < count)
    (h : exactDigits? count text = some (n, rest)) : someDigits? count text = some (n, rest) := by
  obtain ⟨digits, hlength, -, htake, rfl⟩ := eq_of_exactDigits? h
  cases digits with
  | nil => exact absurd hlength (by simp; omega)
  | cons d digits => rw [someDigits?, htake]

/-- An exact number of digits starts with one. -/
theorem exists_cons_of_exactDigits? {count n : Nat} {text rest : List Char} (hcount : 0 < count)
    (h : exactDigits? count text = some (n, rest)) :
    ∃ (d : Digit) (more : List Char), text = d.toChar :: more := by
  obtain ⟨digits, hlength, rfl, -, -⟩ := eq_of_exactDigits? h
  cases digits with
  | nil => exact absurd hlength (by simp; omega)
  | cons d digits => exact ⟨d, _, rfl⟩

/-- A number of the fixed width that is the greatest one for its part. -/
theorem number?_of_exactDigits? {part : Part} {n : Nat} {text rest : List Char}
    (h : exactDigits? (if part = .year then 4 else 2) text = some (n, rest)) :
    number? part text = some ((n : Int), rest) := by
  have hwidth : 0 < if part = .year then 4 else 2 := by split <;> decide
  obtain ⟨d, more, rfl⟩ := exists_cons_of_exactDigits? hwidth h
  have hsome := someDigits?_of_exactDigits? hwidth h
  have hsign := toChar_ne_sign d
  rw [number?, trimStart_cons_of_not (isBlank_toChar d)]
  split
  · rename_i hyear
    rw [if_pos hyear] at hsome
    simp [hsome, hsign.1, hsign.2]
  · rename_i hpart
    rw [if_neg hpart] at hsome
    simp [hsome]

/-! ## Agreement -/

/-- Where both items read a text, they read the same. -/
def Item.Agrees (item other : Item) : Prop :=
  ∀ fields text read readOther, item.read fields text = some read →
    other.read fields text = some readOther → read = readOther

/-- Where both patterns accept a text, they read the same fields. -/
def Pattern.Agrees (pattern other : Pattern) : Prop :=
  ∀ fields text read readOther, Pattern.read pattern fields text = some read →
    Pattern.read other fields text = some readOther → read = readOther

theorem Item.agrees_refl (item : Item) : item.Agrees item := by
  intro fields text read readOther h hother
  exact Option.some.inj (h.symm.trans hother)

theorem Item.digits_agrees_number (part : Part) :
    (Item.digits (if part = .year then 4 else 2) part).Agrees (.number part) := by
  intro fields text read readOther h hother
  rw [Item.read, Option.map_eq_some_iff] at h
  obtain ⟨⟨n, rest⟩, hdigits, rfl⟩ := h
  rw [Item.read, number?_of_exactDigits? hdigits] at hother
  exact Option.some.inj hother

theorem Item.oneOf_agrees_oneOf (characters others : List Char) :
    (Item.oneOf characters).Agrees (.oneOf others) := by
  intro fields text read readOther h hother
  cases text with
  | nil => cases h
  | cons c text =>
    simp only [Item.read, Option.ite_none_right_eq_some, Option.some.injEq] at h hother
    exact h.2.symm.trans hother.2

/-- An offset is a sign, two digits, something between them, and two digits. -/
theorem offset?_eq_some_iff {skip : List Char → Option (List Char)} {text rest : List Char}
    {seconds : Int} :
    offset? skip text = some (seconds, rest) ↔
      ∃ negative hours hour behind middle minute, sign? text = some (negative, hours) ∧
        exactDigits? 2 hours = some (hour, behind) ∧ skip behind = some middle ∧
        offsetMinutes? middle = some (minute, rest) ∧
        offsetSeconds negative hour minute = seconds := by
  simp only [offset?, Option.bind_eq_bind, Option.bind_eq_some_iff, Option.pure_def,
    Option.some.injEq, Prod.mk.injEq, Prod.exists]
  constructor
  · rintro ⟨negative, hours, hsign, hour, behind, hhour, middle, hmiddle, minute, left, hminute,
      hseconds, rfl⟩
    exact ⟨negative, hours, hour, behind, middle, minute, hsign, hhour, hmiddle, hminute, hseconds⟩
  · rintro ⟨negative, hours, hour, behind, middle, minute, hsign, hhour, hmiddle, hminute, hseconds⟩
    exact ⟨negative, hours, hsign, hour, behind, hhour, middle, hmiddle, minute, rest, hminute,
      hseconds, rfl⟩

/-- The characters that are signs of an offset. -/
def signs : List Char := ['+', '-', '\u2212']

theorem eq_of_sign? {text rest : List Char} {negative : Bool}
    (h : sign? text = some (negative, rest)) : ∃ sign ∈ signs, text = sign :: rest := by
  unfold sign? at h
  split at h
  · cases h
    exact ⟨'+', by decide, rfl⟩
  · cases h
    exact ⟨'-', by decide, rfl⟩
  · cases h
    exact ⟨'\u2212', by decide, rfl⟩
  · cases h

theorem isBlank_of_mem_signs {sign : Char} (h : sign ∈ signs) : Text.isBlank sign = false := by
  simp only [signs, List.mem_cons, List.not_mem_nil, or_false] at h
  rcases h with rfl | rfl | rfl <;> rfl

theorem exactDigits?_of_offsetMinutes? {text rest : List Char} {minute : Nat}
    (h : offsetMinutes? text = some (minute, rest)) :
    exactDigits? 2 text = some (minute, rest) := by
  rw [offsetMinutes?, Option.bind_eq_some_iff] at h
  obtain ⟨⟨found, left⟩, hdigits, h⟩ := h
  simp only [Option.ite_none_right_eq_some, Option.some.injEq] at h
  rw [hdigits, h.2]

theorem afterColons_of_exactDigits? {count n : Nat} {text rest : List Char} (hcount : 0 < count)
    (h : exactDigits? count text = some (n, rest)) : afterColons (':' :: text) = text := by
  obtain ⟨d, more, rfl⟩ := exists_cons_of_exactDigits? hcount h
  have hcolon : ∀ d : Digit, (d.toChar == ':') = false := by decide
  rw [afterColons, List.dropWhile_cons_of_pos (by simp),
    List.dropWhile_cons_of_neg (by simp [hcolon, isBlank_toChar])]

theorem eq_of_afterColon? {text rest : List Char} (h : afterColon? text = some rest) :
    text = ':' :: rest := by
  unfold afterColon? at h
  split at h
  · cases h
    rfl
  · cases h

/-- The zone is a `Z`, or an offset with one colon in the middle. -/
theorem Item.read_zone_eq_some {fields read : Fields} {text rest : List Char}
    (h : Item.zone.read fields text = some (read, rest)) :
    (text = 'Z' :: rest ∨ text = 'z' :: rest) ∨
      ∃ seconds, offset? afterColon? text = some (seconds, rest) ∧
        read = { fields with offset := seconds } := by
  simp only [Item.read] at h
  split at h
  · cases h
    exact Or.inl (Or.inl rfl)
  · cases h
    exact Or.inl (Or.inr rfl)
  · obtain ⟨⟨seconds, left⟩, hoffset, h⟩ := Option.map_eq_some_iff.mp h
    cases h
    exact Or.inr ⟨seconds, hoffset, rfl⟩

/-- An offset that is written strictly is also written loosely. -/
theorem offset?_of_strict {text rest : List Char} {seconds : Int}
    (h : offset? afterColon? text = some (seconds, rest)) :
    offset? (fun rest => some (afterColons rest)) (Text.trimStart text) =
      some (seconds, rest) := by
  obtain ⟨negative, hours, hour, behind, middle, minute, hsign, hhour, hcolon, hminute, hseconds⟩ :=
    offset?_eq_some_iff.mp h
  obtain ⟨sign, hmem, rfl⟩ := eq_of_sign? hsign
  obtain rfl := eq_of_afterColon? hcolon
  rw [trimStart_cons_of_not (isBlank_of_mem_signs hmem), offset?_eq_some_iff]
  have hskip := afterColons_of_exactDigits? (by decide) (exactDigits?_of_offsetMinutes? hminute)
  exact ⟨negative, hours, hour, _, middle, minute, hsign, hhour, by rw [hskip], hminute, hseconds⟩

theorem Item.zone_agrees_offset : Item.zone.Agrees .offset := by
  intro fields text read readOther h hother
  obtain ⟨read, rest⟩ := read
  rw [Item.read, Option.map_eq_some_iff] at hother
  obtain ⟨found, hfound, rfl⟩ := hother
  rcases Item.read_zone_eq_some h with (rfl | rfl) | ⟨seconds, hseconds, rfl⟩
  · rw [trimStart_cons_of_not (by decide)] at hfound
    cases hfound
  · rw [trimStart_cons_of_not (by decide)] at hfound
    cases hfound
  · rw [offset?_of_strict hseconds] at hfound
    cases hfound
    rfl

namespace Pattern

theorem agrees_refl (pattern : Pattern) : Agrees pattern pattern := by
  intro fields text read readOther h hother
  exact Option.some.inj (h.symm.trans hother)

theorem Agrees.symm {pattern other : Pattern} (h : Agrees pattern other) :
    Agrees other pattern :=
  fun fields text read readOther hread hother => (h fields text readOther read hother hread).symm

instance : Std.Symm Agrees := ⟨fun _ _ h => h.symm⟩

theorem agrees_cons {item other : Item} {items others : Pattern} (hitem : item.Agrees other)
    (hitems : Agrees items others) : Agrees (item :: items) (other :: others) := by
  intro fields text read readOther h hother
  obtain ⟨between, rest, hbetween, h⟩ := read_cons_eq_some_iff.mp h
  obtain ⟨betweenOther, restOther, hbetweenOther, hother⟩ := read_cons_eq_some_iff.mp hother
  cases hitem _ _ _ _ hbetween hbetweenOther
  exact hitems _ _ _ _ h hother

theorem Agrees.append_left {items others : Pattern} (h : Agrees items others) (front : Pattern) :
    Agrees (front ++ items) (front ++ others) := by
  induction front with
  | nil => exact h
  | cons item front ih => exact agrees_cons item.agrees_refl ih

/-- A pattern that needs a character does not accept what an empty one accepts. -/
theorem agrees_nil_of_refuses {pattern : Pattern} (h : Refuses pattern []) : Agrees [] pattern := by
  intro fields text read readOther hread hother
  rw [Pattern.read] at hread
  split at hread
  · rename_i hempty
    rw [List.isEmpty_iff.mp hempty, h] at hother
    cases hother
  · cases hread

theorem refuses_nil_oneOf (characters : List Char) (items : Pattern) :
    Refuses (.oneOf characters :: items) [] :=
  refuses_cons (fun _ => rfl) items

theorem refuses_nil_blanks {part : Part} (hpart : part ≠ .year) (items : Pattern) :
    Refuses (.blanks :: .number part :: items) [] := by
  intro fields
  simp [Pattern.read, Item.read, Text.trimStart, number?, hpart, someDigits?, takeDigits]

/-- A letter is not taken for white space in front of a number. -/
theorem agrees_letter_blanks {letter : Char} {part : Part} (hpart : part ≠ .year)
    (hblank : Text.isBlank letter = false) (hdigit : Digit.ofChar? letter = none)
    (items others : Pattern) :
    Agrees (.oneOf [letter] :: items) (.blanks :: .number part :: others) := by
  intro fields text read readOther h hother
  obtain ⟨between, rest, hbetween, -⟩ := read_cons_eq_some_iff.mp h
  cases text with
  | nil => cases hbetween
  | cons c text =>
    simp only [Item.read, List.mem_singleton, Option.ite_none_right_eq_some] at hbetween
    obtain ⟨rfl, -⟩ := hbetween
    simp [Pattern.read, Item.read, trimStart_cons_of_not hblank,
      number?_of_noDigit hpart hblank hdigit] at hother

/-- One character in front of a number of two digits agrees with white space in front
of a number, since only white space is taken for it there. -/
theorem agrees_separator_blanks (characters : List Char)
    (hcharacters : ∀ c ∈ characters, Digit.ofChar? c = none) {part : Part} (hpart : part ≠ .year)
    {items others : Pattern} (hitems : Agrees items others) :
    Agrees (.oneOf characters :: .digits 2 part :: items)
      (.blanks :: .number part :: others) := by
  intro fields text read readOther h hother
  obtain ⟨between, rest, hseparator, h⟩ := read_cons_eq_some_iff.mp h
  obtain ⟨dated, behind, hdigits, hitemsRead⟩ := read_cons_eq_some_iff.mp h
  cases text with
  | nil => cases hseparator
  | cons c text =>
    simp only [Item.read, Option.ite_none_right_eq_some, Option.some.injEq, Prod.mk.injEq]
      at hseparator
    obtain ⟨hmem, rfl, rfl⟩ := hseparator
    rw [Item.read, Option.map_eq_some_iff] at hdigits
    obtain ⟨⟨n, left⟩, hdigits, heq⟩ := hdigits
    cases heq
    obtain ⟨d, more, rfl⟩ := exists_cons_of_exactDigits? (by decide) hdigits
    have hnumber : number? part (d.toChar :: more) = some ((n : Int), behind) :=
      number?_of_exactDigits? (by rw [if_neg hpart]; exact hdigits)
    have htrim := trimStart_cons_of_not (isBlank_toChar d) more
    by_cases hblank : Text.isBlank c = true
    · have hskip : Text.trimStart (c :: d.toChar :: more) = d.toChar :: more := by
        rw [Text.trimStart, List.dropWhile_cons_of_pos hblank]
        exact htrim
      simp only [Pattern.read, Item.read, hskip, hnumber, Option.map_some] at hother
      exact hitems _ _ _ _ hitemsRead hother
    · have hnone : number? part (c :: d.toChar :: more) = none :=
        number?_of_noDigit hpart (by simpa using hblank) (hcharacters c hmem) _
      rw [Bool.not_eq_true] at hblank
      simp [Pattern.read, Item.read, trimStart_cons_of_not hblank, hnone] at hother

theorem Agrees.instant?_eq {pattern other : Pattern} (h : Agrees pattern other) {text : List Char}
    {instant later : Instant} (hinstant : pattern.instant? text = some instant)
    (hlater : other.instant? text = some later) : instant = later := by
  rw [Pattern.instant?, Option.bind_eq_some_iff] at hinstant hlater
  obtain ⟨fields, hfields, hinstant⟩ := hinstant
  obtain ⟨fieldsOther, hfieldsOther, hlater⟩ := hlater
  rw [h _ _ _ _ hfields hfieldsOther, hlater] at hinstant
  exact (Option.some.inj hinstant).symm

end Pattern

end GoldenFixtures.Time
