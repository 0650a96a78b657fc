import GoldenFixtures.Proofs.Json.ReadBack

/-!
# Compact texts tell values apart

No two values have the same compact text: `toCompact_injective`.  The induction
needs more than that, for the text of an element is followed by the rest of its
array: what a value writes ends where the value ends (`SelfDelimiting`), if the
rest cannot go on with a number.

Nothing is asked of the values.  So this says more than that a written value is
read back, which holds of distinct keys and of a bounded depth only.

A compact text has no line feed in it (`newline_notMem_compact`).
-/

namespace GoldenFixtures.Json

/-- In front of texts that cannot go on with a number, what is written for `a`
is written for nothing else, and the text behind it is what follows. -/
def SelfDelimiting {α : Type} (write : α → List Char) (a : α) : Prop :=
  ∀ b rest others, Stops rest → Stops others → write a ++ rest = write b ++ others →
    a = b ∧ rest = others

/-! ## Numbers and strings -/

theorem number_append_inj {m n : Number} {rest others : List Char} (hrest : Stops rest)
    (hothers : Stops others) (h : m.toChars ++ rest = n.toChars ++ others) :
    m = n ∧ rest = others := by
  have hleft := readValue_number 0 m hrest
  rw [h, readValue_number 0 n hothers] at hleft
  cases hleft
  exact ⟨rfl, rfl⟩

theorem quote_append_inj {text other : String} {rest others : List Char}
    (h : quote text ++ rest = quote other ++ others) : text = other ∧ rest = others := by
  simp only [quote, List.cons_append, List.append_assoc, List.nil_append, List.cons.injEq,
    true_and] at h
  have hleft := readString_quote text rest
  rw [h, readString_quote other others] at hleft
  cases hleft
  exact ⟨rfl, rfl⟩

/-! ## Parts between commas -/

section

variable {α : Type} {write : α → List Char} {close : Char}

/-- What closes an array or an object: no part starts with it, and it is neither
a comma nor goes on with a number. -/
structure Ends (write : α → List Char) (close : Char) : Prop where
  start : ∀ a, ∃ c tail, write a = c :: tail ∧ c ≠ close
  comma : close ≠ ','
  stops : ∀ rest, Stops (close :: rest)

theorem stops_flatMap_comma_append (hends : Ends write close) (as : List α) (rest : List Char) :
    Stops ((as.map write).flatMap (fun part => ',' :: part) ++ close :: rest) := by
  cases as with
  | nil => exact hends.stops rest
  | cons a as => exact stops_comma _

/-- The parts behind the first one, each with its comma, up to the end. -/
theorem flatMap_comma_append_inj (hends : Ends write close) {as : List α}
    (has : ∀ a ∈ as, SelfDelimiting write a) {bs : List α} {rest others : List Char}
    (h : (as.map write).flatMap (fun part => ',' :: part) ++ close :: rest =
      (bs.map write).flatMap (fun part => ',' :: part) ++ close :: others) :
    as = bs ∧ rest = others := by
  induction as generalizing bs with
  | nil =>
    cases bs with
    | nil => exact ⟨rfl, (List.cons.inj h).2⟩
    | cons b bs => exact absurd (List.cons.inj h).1 hends.comma
  | cons a as ih =>
    cases bs with
    | nil => exact absurd (List.cons.inj h).1.symm hends.comma
    | cons b bs =>
      simp only [List.map_cons, List.flatMap_cons, List.cons_append, List.append_assoc,
        List.cons.injEq, true_and] at h
      obtain ⟨hfirst, htail⟩ := has a (by simp) b _ _ (stops_flatMap_comma_append hends as rest)
        (stops_flatMap_comma_append hends bs others) h
      obtain ⟨hothers, hrest⟩ := ih (fun a ha => has a (List.mem_cons_of_mem _ ha)) htail
      exact ⟨by rw [hfirst, hothers], hrest⟩

/-- Parts that are told apart one by one are told apart in a row. -/
theorem separated_append_inj (hends : Ends write close) {as : List α}
    (has : ∀ a ∈ as, SelfDelimiting write a) {bs : List α} {rest others : List Char}
    (h : separated [','] (as.map write) ++ close :: rest =
      separated [','] (bs.map write) ++ close :: others) :
    as = bs ∧ rest = others := by
  cases as with
  | nil =>
    cases bs with
    | nil => exact ⟨rfl, (List.cons.inj h).2⟩
    | cons b bs =>
      obtain ⟨c, tail, hstart, hne⟩ := hends.start b
      rw [List.map_cons, separated_cons, hstart] at h
      exact absurd (List.cons.inj h).1.symm hne
  | cons a as =>
    cases bs with
    | nil =>
      obtain ⟨c, tail, hstart, hne⟩ := hends.start a
      rw [List.map_cons, separated_cons, hstart] at h
      exact absurd (List.cons.inj h).1 hne
    | cons b bs =>
      rw [List.map_cons, List.map_cons, separated_cons, separated_cons, List.append_assoc,
        List.append_assoc] at h
      obtain ⟨hfirst, htail⟩ := has a (by simp) b _ _ (stops_flatMap_comma_append hends as rest)
        (stops_flatMap_comma_append hends bs others) h
      obtain ⟨hothers, hrest⟩ := flatMap_comma_append_inj hends
        (fun a ha => has a (List.mem_cons_of_mem _ ha)) htail
      exact ⟨by rw [hfirst, hothers], hrest⟩

end

/-! ## Values -/

/-- The type of a value whose text starts with a character. -/
def typeOfInitial (c : Char) : String :=
  if c = 'n' then "null"
  else if c = 't' ∨ c = 'f' then "boolean"
  else if c = '"' then "string"
  else if c = '[' then "array"
  else if c = '{' then "object"
  else "number"

theorem typeOfInitial_toChar (d : Digit) : typeOfInitial d.toChar = "number" := by
  revert d
  decide

theorem compact_initial (value : Value) :
    ∃ c tail, value.compact = c :: tail ∧ typeOfInitial c = value.typeName ∧ c ≠ ']' := by
  cases value with
  | null => exact ⟨'n', _, rfl, rfl, by decide⟩
  | bool flag =>
    cases flag with
    | true => exact ⟨'t', _, rfl, rfl, by decide⟩
    | false => exact ⟨'f', _, rfl, rfl, by decide⟩
  | number n =>
    rw [Value.compact, Number.toChars_eq]
    cases n.negative with
    | true => exact ⟨'-', _, rfl, rfl, by decide⟩
    | false =>
      obtain ⟨d, tail, hunsigned⟩ := unsignedChars_eq_cons n
      obtain ⟨_, _, _, _, _, _, _, hbracket, _⟩ := toChar_ne d
      exact ⟨d.toChar, tail, hunsigned, typeOfInitial_toChar d, hbracket⟩
  | string text => exact ⟨'"', _, rfl, rfl, by decide⟩
  | array items => exact ⟨'[', _, rfl, rfl, by decide⟩
  | object members => exact ⟨'{', _, rfl, rfl, by decide⟩

/-- Texts that start alike are those of values of one type. -/
theorem typeName_eq_of_compact_append {value other : Value} {rest others : List Char}
    (h : value.compact ++ rest = other.compact ++ others) : value.typeName = other.typeName := by
  obtain ⟨c, tail, hvalue, htype, _⟩ := compact_initial value
  obtain ⟨d, _, hother, htype', _⟩ := compact_initial other
  rw [hvalue, hother] at h
  rw [← htype, ← htype', (List.cons.inj h).1]

theorem ends_bracket : Ends Value.compact ']' where
  start := by
    intro item
    obtain ⟨c, tail, hcompact, _, hne⟩ := compact_initial item
    exact ⟨c, tail, hcompact, hne⟩
  comma := by decide
  stops := stops_cons (by decide)

/-- A member without white space. -/
def memberChars (member : String × Value) : List Char :=
  quote member.1 ++ ':' :: member.2.compact

theorem ends_brace : Ends memberChars '}' where
  start := fun _ => ⟨'"', _, rfl, by decide⟩
  comma := by decide
  stops := stops_cons (by decide)

theorem selfDelimiting_memberChars {member : String × Value}
    (h : SelfDelimiting Value.compact member.2) : SelfDelimiting memberChars member := by
  intro other rest others hrest hothers heq
  unfold memberChars at heq
  rw [List.append_assoc, List.append_assoc] at heq
  obtain ⟨hkey, hvalue⟩ := quote_append_inj heq
  obtain ⟨hvalue, htail⟩ := h other.2 rest others hrest hothers (List.cons.inj hvalue).2
  exact ⟨Prod.ext hkey hvalue, htail⟩

/-- Every value is told apart by its compact text, and so is where it ends. -/
theorem selfDelimiting_compact (value : Value) : SelfDelimiting Value.compact value := by
  induction value using Value.inductionOn with
  | null =>
    intro other rest others hrest hothers h
    have htype := typeName_eq_of_compact_append h
    cases other with
    | null => exact ⟨rfl, List.append_cancel_left h⟩
    | _ => simp [Value.typeName] at htype
  | bool flag =>
    intro other rest others hrest hothers h
    have htype := typeName_eq_of_compact_append h
    cases other with
    | bool flag' =>
      have hinitial : (boolChars flag ++ rest).head? = (boolChars flag' ++ others).head? :=
        congrArg List.head? h
      have hflag : flag = flag' := by
        cases flag <;> cases flag' <;> simp [boolChars] at hinitial ⊢
      subst hflag
      exact ⟨rfl, List.append_cancel_left h⟩
    | _ => simp [Value.typeName] at htype
  | number n =>
    intro other rest others hrest hothers h
    have htype := typeName_eq_of_compact_append h
    cases other with
    | number m =>
      obtain ⟨hnumber, htail⟩ := number_append_inj hrest hothers h
      exact ⟨by rw [hnumber], htail⟩
    | _ => simp [Value.typeName] at htype
  | string text =>
    intro other rest others hrest hothers h
    have htype := typeName_eq_of_compact_append h
    cases other with
    | string text' =>
      obtain ⟨htext, htail⟩ := quote_append_inj h
      exact ⟨by rw [htext], htail⟩
    | _ => simp [Value.typeName] at htype
  | array items ih =>
    intro other rest others hrest hothers h
    have htype := typeName_eq_of_compact_append h
    cases other with
    | array items' =>
      simp only [Value.compact, Value.compactItems_eq_map, List.cons_append, List.append_assoc,
        List.nil_append, List.cons.injEq, true_and] at h
      obtain ⟨hitems, htail⟩ := separated_append_inj ends_bracket ih h
      exact ⟨by rw [hitems], htail⟩
    | _ => simp [Value.typeName] at htype
  | object members ih =>
    intro other rest others hrest hothers h
    have htype := typeName_eq_of_compact_append h
    cases other with
    | object members' =>
      simp only [Value.compact, Value.compactMembers_eq_map, List.cons_append, List.append_assoc,
        List.nil_append, List.cons.injEq, true_and] at h
      obtain ⟨hmembers, htail⟩ := separated_append_inj ends_brace
        (fun member hmember => selfDelimiting_memberChars (ih member hmember)) h
      exact ⟨by rw [hmembers], htail⟩
    | _ => simp [Value.typeName] at htype

/-- Values with one compact text are equal. -/
theorem Value.toCompact_injective : Function.Injective Value.toCompact := by
  intro value other h
  have hchars : value.compact = other.compact := String.ofList_injective h
  have hnil : Stops [] := fun c hc => nomatch hc
  exact (selfDelimiting_compact value other [] [] hnil hnil (by rw [hchars])).1

/-! ## One line -/

theorem newline_notMem_digits (digits : List Digit) : '\n' ∉ Digits.toChars digits := by
  have hdigit : ∀ d : Digit, d.toChar ≠ '\n' := by decide
  intro h
  obtain ⟨d, _, hd⟩ := List.mem_map.mp h
  exact hdigit d hd

theorem newline_notMem_number (n : Number) : '\n' ∉ n.toChars := by
  have hsign : '\n' ∉ (if n.negative then ['-'] else []) := by
    cases n.negative <;> decide
  have hfraction : '\n' ∉ fractionChars n.fraction := by
    unfold fractionChars
    split
    · exact List.not_mem_nil
    · exact List.not_mem_cons_of_ne_of_not_mem (by decide) (newline_notMem_digits _)
  have hexponent : '\n' ∉ exponentChars n.exponent := by
    unfold exponentChars Exponent.toChars
    split
    · exact List.not_mem_nil
    · rename_i e _
      refine List.not_mem_cons_of_ne_of_not_mem (by decide) ?_
      refine List.not_mem_cons_of_ne_of_not_mem ?_ (newline_notMem_digits _)
      cases e.negative <;> decide
  rw [Number.toChars_eq, Number.unsignedChars]
  simp only [List.mem_append, not_or]
  exact ⟨hsign, newline_notMem_digits _, hfraction, hexponent⟩

theorem newline_notMem_quote (text : String) : '\n' ∉ quote text := by
  have hdigit : ∀ n < 16, hexDigit n ≠ '\n' := by decide
  have hescape : ∀ c, '\n' ∉ escapeChar c := by
    intro c
    unfold escapeChar
    split_ifs with _ _ _ _ hnewline _ _ hcontrol
    · decide
    · decide
    · decide
    · decide
    · decide
    · decide
    · decide
    · have hhigh := hdigit (c.toNat / 16) (by omega)
      have hlow := hdigit (c.toNat % 16) (by omega)
      simp [Ne.symm hhigh, Ne.symm hlow]
    · simp [Ne.symm hnewline]
  unfold quote
  simp only [List.mem_cons, List.mem_append, List.mem_flatMap, List.not_mem_nil, or_false, not_or]
  refine ⟨by decide, ?_, by decide⟩
  rintro ⟨c, _, hc⟩
  exact hescape c hc

theorem newline_notMem_separated {parts : List (List Char)} (h : ∀ part ∈ parts, '\n' ∉ part) :
    '\n' ∉ separated [','] parts := by
  cases parts with
  | nil => exact List.not_mem_nil
  | cons part parts =>
    rw [List.forall_mem_cons] at h
    rw [separated_cons, List.mem_append, not_or]
    refine ⟨h.1, ?_⟩
    intro hmem
    obtain ⟨other, hother, hnewline⟩ := List.mem_flatMap.mp hmem
    rcases List.mem_cons.mp hnewline with hcomma | hnewline
    · exact absurd hcomma (by decide)
    · exact h.2 other hother hnewline

/-- A compact text is one line. -/
theorem newline_notMem_compact (value : Value) : '\n' ∉ value.compact := by
  induction value using Value.inductionOn with
  | null => decide
  | bool flag => cases flag <;> decide
  | number n => exact newline_notMem_number n
  | string text => exact newline_notMem_quote text
  | array items ih =>
    rw [Value.compact, Value.compactItems_eq_map]
    refine List.not_mem_cons_of_ne_of_not_mem (by decide) ?_
    rw [List.mem_append, not_or]
    refine ⟨newline_notMem_separated ?_, by decide⟩
    rw [List.forall_mem_map]
    exact ih
  | object members ih =>
    rw [Value.compact, Value.compactMembers_eq_map]
    refine List.not_mem_cons_of_ne_of_not_mem (by decide) ?_
    rw [List.mem_append, not_or]
    refine ⟨newline_notMem_separated ?_, by decide⟩
    rw [List.forall_mem_map]
    intro member hmember
    rw [List.mem_append, List.mem_cons, not_or, not_or]
    exact ⟨newline_notMem_quote _, by decide, ih member hmember⟩

end GoldenFixtures.Json
