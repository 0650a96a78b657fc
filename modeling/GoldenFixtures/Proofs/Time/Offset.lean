import GoldenFixtures.Proofs.Time.Agreement

/-!
# Texts that end with an offset

`HasOffset text` says that a text ends with an offset: a `Z`, or a sign with two
digits of hours and two of minutes.  A pattern whose last item reads an offset accepts
only such texts (`Pattern.hasOffset_of_read`).  `Item.allows` says which characters an
item may take; what a pattern reads has no others (`Pattern.allows_of_read`).
-/

namespace GoldenFixtures.Time

/-! ## Offsets -/

/-- An offset: a `Z` in either case, or a sign, two digits, any colons and white space,
and two digits. -/
inductive IsOffset : List Char → Prop
  | letter (c : Char) (hc : c = 'Z' ∨ c = 'z') : IsOffset [c]
  | numeric (sign : Char) (hsign : sign ∈ signs) (hours minutes : List Digit)
      (hhours : hours.length = 2) (hminutes : minutes.length = 2) (between : List Char)
      (hbetween : ∀ c ∈ between, c = ':' ∨ Text.isBlank c = true) :
      IsOffset (sign :: (Digits.toChars hours ++ (between ++ Digits.toChars minutes)))

/-- The text ends with an offset. -/
def HasOffset (text : List Char) : Prop := ∃ front offset, IsOffset offset ∧ text = front ++ offset

/-- A reader of offsets takes an offset if what it leaves out in the middle are colons
and white space. -/
theorem exists_of_offset? {skip : List Char → Option (List Char)}
    (hskip : ∀ text rest, skip text = some rest →
      ∃ between, text = between ++ rest ∧ ∀ c ∈ between, c = ':' ∨ Text.isBlank c = true)
    {text rest : List Char} {seconds : Int} (h : offset? skip text = some (seconds, rest)) :
    ∃ offset, IsOffset offset ∧ text = offset ++ rest := by
  obtain ⟨negative, behindSign, hour, behind, middle, minute, hsign, hhour, hmiddle, hminute, -⟩ :=
    offset?_eq_some_iff.mp h
  obtain ⟨sign, hmem, rfl⟩ := eq_of_sign? hsign
  obtain ⟨hours, hhours, rfl, -⟩ := eq_of_exactDigits? hhour
  obtain ⟨between, rfl, hbetween⟩ := hskip _ _ hmiddle
  obtain ⟨minutes, hminutes, rfl, -⟩ :=
    eq_of_exactDigits? (exactDigits?_of_offsetMinutes? hminute)
  exact ⟨_, .numeric sign hmem hours minutes hhours hminutes between hbetween, by simp⟩

theorem exists_of_zone {fields read : Fields} {text rest : List Char}
    (h : Item.zone.read fields text = some (read, rest)) :
    ∃ offset, IsOffset offset ∧ text = offset ++ rest := by
  rcases Item.read_zone_eq_some h with (rfl | rfl) | ⟨seconds, hseconds, -⟩
  · exact ⟨_, .letter 'Z' (Or.inl rfl), rfl⟩
  · exact ⟨_, .letter 'z' (Or.inr rfl), rfl⟩
  · refine exists_of_offset? ?_ hseconds
    intro text rest hcolon
    exact ⟨[':'], eq_of_afterColon? hcolon, by simp⟩

theorem exists_of_offset {fields read : Fields} {text rest : List Char}
    (h : Item.offset.read fields text = some (read, rest)) :
    ∃ blanks offset, IsOffset offset ∧ text = blanks ++ (offset ++ rest) := by
  obtain ⟨⟨seconds, left⟩, hoffset, heq⟩ := Option.map_eq_some_iff.mp h
  cases heq
  obtain ⟨blanks, htext, -⟩ := exists_trimStart text
  have hread : ∃ offset, IsOffset offset ∧ Text.trimStart text = offset ++ rest := by
    refine exists_of_offset? ?_ hoffset
    intro text rest hcolons
    cases hcolons
    refine ⟨text.takeWhile fun c => c == ':' || Text.isBlank c, ?_, ?_⟩
    · exact List.takeWhile_append_dropWhile.symm
    · intro c hc
      simpa using List.mem_takeWhile_imp hc
  obtain ⟨offset, hoffset, hread⟩ := hread
  exact ⟨blanks, offset, hoffset, by rw [htext, hread]⟩

/-! ## Characters -/

/-- The item may take the character.  Of what an offset takes nothing is said here. -/
def Item.allows (item : Item) (c : Char) : Bool :=
  match item with
  | .digits _ _ => (Digit.ofChar? c).isSome
  | .number part =>
    (Digit.ofChar? c).isSome || Text.isBlank c || (part == .year && (c == '+' || c == '-'))
  | .oneOf characters => characters.contains c
  | .blanks => Text.isBlank c
  | .fraction => c == '.' || (Digit.ofChar? c).isSome
  | .zone | .offset => true

theorem isSome_of_mem_toChars {digits : List Digit} {c : Char} (h : c ∈ Digits.toChars digits) :
    (Digit.ofChar? c).isSome = true := by
  obtain ⟨d, -, rfl⟩ := List.mem_map.mp h
  simp

/-- A number is white space, for a year perhaps a sign, and digits. -/
theorem eq_of_number? {part : Part} {n : Int} {text rest : List Char}
    (h : number? part text = some (n, rest)) :
    ∃ (blanks sign : List Char) (digits : List Digit),
      text = blanks ++ (sign ++ (Digits.toChars digits ++ rest)) ∧
        (∀ c ∈ blanks, Text.isBlank c = true) ∧
        ∀ c ∈ sign, part = .year ∧ (c = '-' ∨ c = '+') := by
  obtain ⟨blanks, htext, hblanks⟩ := exists_trimStart text
  rw [number?] at h
  generalize Text.trimStart text = shown at htext h
  subst htext
  simp only at h
  split at h
  · rename_i hyear
    split at h
    · obtain ⟨⟨digits, left⟩, hdigits, heq⟩ := Option.map_eq_some_iff.mp h
      cases heq
      exact ⟨blanks, ['-'], digits, by rw [eq_of_allDigits? hdigits]; simp, hblanks,
        by simp [hyear]⟩
    · obtain ⟨⟨digits, left⟩, hdigits, heq⟩ := Option.map_eq_some_iff.mp h
      cases heq
      exact ⟨blanks, ['+'], digits, by rw [eq_of_allDigits? hdigits]; simp, hblanks,
        by simp [hyear]⟩
    · obtain ⟨⟨value, left⟩, hvalue, heq⟩ := Option.map_eq_some_iff.mp h
      cases heq
      obtain ⟨digits, rfl⟩ := eq_of_someDigits? hvalue
      exact ⟨blanks, [], digits, rfl, hblanks, by simp⟩
  · obtain ⟨⟨value, left⟩, hvalue, heq⟩ := Option.map_eq_some_iff.mp h
    cases heq
    obtain ⟨digits, rfl⟩ := eq_of_someDigits? hvalue
    exact ⟨blanks, [], digits, rfl, hblanks, by simp⟩

/-- What an item reads is a front of the text, of characters that it allows. -/
theorem Item.exists_of_read {item : Item} {fields read : Fields} {text rest : List Char}
    (h : item.read fields text = some (read, rest)) :
    ∃ used, text = used ++ rest ∧ ∀ c ∈ used, item.allows c = true := by
  cases item with
  | digits count part =>
    obtain ⟨⟨n, left⟩, hdigits, heq⟩ := Option.map_eq_some_iff.mp h
    cases heq
    obtain ⟨digits, -, rfl, -⟩ := eq_of_exactDigits? hdigits
    exact ⟨_, rfl, fun c hc => isSome_of_mem_toChars hc⟩
  | number part =>
    obtain ⟨⟨n, left⟩, hnumber, heq⟩ := Option.map_eq_some_iff.mp h
    cases heq
    obtain ⟨blanks, sign, digits, rfl, hblanks, hsign⟩ := eq_of_number? hnumber
    refine ⟨blanks ++ (sign ++ Digits.toChars digits), by simp, ?_⟩
    intro c hc
    simp only [List.mem_append] at hc
    rcases hc with hc | hc | hc
    · simp [Item.allows, hblanks c hc]
    · obtain ⟨rfl, rfl | rfl⟩ := hsign c hc
      · decide
      · decide
    · simp [Item.allows, isSome_of_mem_toChars hc]
  | oneOf characters =>
    cases text with
    | nil => cases h
    | cons c text =>
      simp only [Item.read, Option.ite_none_right_eq_some, Option.some.injEq, Prod.mk.injEq] at h
      obtain ⟨hmem, -, rfl⟩ := h
      exact ⟨[c], rfl, by simpa [Item.allows] using hmem⟩
  | blanks =>
    cases h
    obtain ⟨blanks, htext, hblanks⟩ := exists_trimStart text
    exact ⟨blanks, htext, hblanks⟩
  | fraction =>
    simp only [Item.read] at h
    split at h
    · obtain ⟨⟨digits, left⟩, hdigits, heq⟩ := Option.map_eq_some_iff.mp h
      cases heq
      rw [eq_of_allDigits? hdigits]
      refine ⟨'.' :: Digits.toChars digits, by simp, ?_⟩
      intro c hc
      rcases List.mem_cons.mp hc with rfl | hc
      · decide
      · simp [Item.allows, isSome_of_mem_toChars hc]
    · cases h
      exact ⟨[], rfl, by simp⟩
  | zone =>
    obtain ⟨offset, -, htext⟩ := exists_of_zone h
    exact ⟨offset, htext, fun _ _ => rfl⟩
  | offset =>
    obtain ⟨blanks, offset, -, htext⟩ := exists_of_offset h
    exact ⟨blanks ++ offset, by rw [htext, List.append_assoc], fun _ _ => rfl⟩

namespace Pattern

/-- What the items at the front of a pattern read is a front of the text, of characters
that they allow. -/
theorem exists_of_read_append {front items : Pattern} {fields read : Fields} {text : List Char}
    (h : Pattern.read (front ++ items) fields text = some read) :
    ∃ used rest between, text = used ++ rest ∧ Pattern.read items between rest = some read ∧
      ∀ c ∈ used, ∃ item ∈ front, item.allows c = true := by
  induction front generalizing fields text with
  | nil => exact ⟨[], text, fields, rfl, h, by simp⟩
  | cons item front ih =>
    obtain ⟨between, middle, hitem, hfront⟩ := read_cons_eq_some_iff.mp h
    obtain ⟨used, rfl, hused⟩ := Item.exists_of_read hitem
    obtain ⟨more, rest, later, rfl, hread, hmore⟩ := ih hfront
    refine ⟨used ++ more, rest, later, by simp, hread, ?_⟩
    intro c hc
    rcases List.mem_append.mp hc with hc | hc
    · exact ⟨item, by simp, hused c hc⟩
    · obtain ⟨other, hmem, hother⟩ := hmore c hc
      exact ⟨other, List.mem_cons_of_mem _ hmem, hother⟩

/-- A text that is accepted has only characters that some item allows. -/
theorem allows_of_read {pattern : Pattern} {fields read : Fields} {text : List Char}
    (h : Pattern.read pattern fields text = some read) :
    ∀ c ∈ text, ∃ item ∈ pattern, item.allows c = true := by
  have hnil : Pattern.read (pattern ++ []) fields text = some read := by rwa [List.append_nil]
  obtain ⟨used, rest, between, rfl, hrest, hused⟩ := exists_of_read_append hnil
  have hempty : rest = [] := by
    rw [Pattern.read, Option.ite_none_right_eq_some] at hrest
    exact List.isEmpty_iff.mp hrest.1
  rwa [hempty, List.append_nil]

/-- What a pattern accepts ends with an offset if its last item reads one. -/
theorem hasOffset_of_read {front : Pattern} {last : Item} (hlast : last = .zone ∨ last = .offset)
    {fields read : Fields} {text : List Char}
    (h : Pattern.read (front ++ [last]) fields text = some read) : HasOffset text := by
  obtain ⟨used, rest, between, rfl, hrest, -⟩ := exists_of_read_append h
  obtain ⟨later, left, hitem, hleft⟩ := read_cons_eq_some_iff.mp hrest
  have hempty : left = [] := by
    rw [Pattern.read, Option.ite_none_right_eq_some] at hleft
    exact List.isEmpty_iff.mp hleft.1
  subst hempty
  rcases hlast with rfl | rfl
  · obtain ⟨offset, hoffset, rfl⟩ := exists_of_zone hitem
    exact ⟨used, offset, hoffset, by simp⟩
  · obtain ⟨blanks, offset, hoffset, rfl⟩ := exists_of_offset hitem
    exact ⟨used ++ blanks, offset, hoffset, by simp⟩

end Pattern

end GoldenFixtures.Time
