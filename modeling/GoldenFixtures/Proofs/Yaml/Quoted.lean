import Mathlib.Data.Option.Basic
import GoldenFixtures.Proofs.Json.Tree
import GoldenFixtures.Proofs.Yaml.Cursor
import GoldenFixtures.Yaml.Scalar

/-!
# Strings read as double-quoted scalars

What the characters of a string mean in a double-quoted scalar.  The two halves of a
surrogate pair mean nothing there, white space is folded where it holds a line end, and no
marker of a document may start a line.  `quotedText?` is the text that is left after that,
and `readQuoted_quoted` says that it is what the scan of such a scalar gives.
-/

namespace GoldenFixtures

namespace Json

/-- White space that is written as it is. -/
def Letter.isWhite : Letter → Bool
  | .plain c _ => Yaml.isWhite c
  | _ => false

/-- The character is written as a surrogate pair. -/
def Letter.isPair : Letter → Bool
  | .pair _ _ _ _ => true
  | _ => false

theorem hexValue?_lt {c : Char} {n : Nat} (h : hexValue? c = some n) : n < 16 := by
  unfold hexValue? at h
  split_ifs at h with hdigit hsmall hcapital <;> cases h
  · have hle : c.toNat ≤ 57 := hdigit.2
    omega
  · have hle : c.toNat ≤ 102 := hsmall.2
    omega
  · have hle : c.toNat ≤ 70 := hcapital.2
    omega

theorem HexCode.number_lt (hex : HexCode) : hex.number < 0x10000 := by
  obtain ⟨digits, number, hlength, hnumber⟩ := hex
  match digits, hlength with
  | [a, b, c, d], _ =>
    simp only [List.foldlM_cons, List.foldlM_nil, Option.bind_eq_bind, Option.bind_eq_some_iff,
      Option.map_eq_some_iff, Option.pure_def, Option.some.injEq] at hnumber
    obtain ⟨_, ⟨va, ha, rfl⟩, _, ⟨vb, hb, rfl⟩, _, ⟨vc, hc, rfl⟩, _, ⟨vd, hd, rfl⟩, rfl⟩ := hnumber
    have hva := hexValue?_lt ha
    have hvb := hexValue?_lt hb
    have hvc := hexValue?_lt hc
    have hvd := hexValue?_lt hd
    change ((( 0 * 16 + va) * 16 + vb) * 16 + vc) * 16 + vd < 0x10000
    omega

end Json

namespace Yaml

open Json (Letter HexCode)

/-- The text starts with the marker of a document's start or end. -/
def startsMarker (text : List Char) : Bool :=
  (text.take 3 == ['-', '-', '-'] || text.take 3 == ['.', '.', '.']) && endsWord (text.drop 3)

theorem atDocumentMarker_eq (cursor : Cursor) :
    cursor.atDocumentMarker = (cursor.column == 0 && startsMarker cursor.rest) := by
  unfold Cursor.atDocumentMarker Cursor.atMarker startsMarker
  rw [Bool.and_or_distrib_right, Bool.and_or_distrib_left, Bool.and_assoc, Bool.and_assoc]

/-- Behind white space, characters start a line with a marker of a document. -/
def isMarked (white : List Char) (letters : List Letter) : Bool :=
  white.getLast?.any isBreak && startsMarker (letters.flatMap Letter.chars ++ ['"'])

/-- What characters of a string mean in a double-quoted scalar, behind white space. -/
def quotedTextFrom? (white : List Char) : List Letter → Option (List Char)
  | [] => some (fold white)
  | letter :: letters =>
    if letter.isWhite then quotedTextFrom? (white ++ letter.chars) letters
    else if letter.isPair || isMarked white (letter :: letters) then none
    else (quotedTextFrom? [] letters).map fun more => fold white ++ letter.value :: more

/-- What the characters of a string mean in a double-quoted scalar, if they mean anything. -/
def quotedText? (letters : List Letter) : Option (List Char) := quotedTextFrom? [] letters

/-- The same text, empty if the characters mean nothing. -/
def foldedText (letters : List Letter) : List Char := (quotedText? letters).getD []

/-! ## Words -/

theorem hexNumber?_digits (hex : HexCode) : hexNumber? hex.digits = some hex.number :=
  hex.number_eq

/-- The escape of a code stands for it, unless it is half of a surrogate pair. -/
theorem escape?_code (hex : HexCode) (rest : List Char) :
    escape? 'u' (hex.digits ++ rest) =
      if 0xD800 ≤ hex.number ∧ hex.number ≤ 0xDFFF then none
      else some (Char.ofNat hex.number, 4) := by
  have htake : (hex.digits ++ rest).take 4 = hex.digits := by
    rw [← hex.length_digits, List.take_left]
  have hlt := hex.number_lt
  have hbound : ¬ 0x10FFFF < hex.number := by omega
  simp [escape?, htake, hexNumber?_digits, hex.length_digits, hbound]

theorem escape?_short {letter c : Char} (h : (letter, c) ∈ Json.shortEscapes) (rest : List Char) :
    escape? letter rest = some (c, 0) ∧ isBreak letter = false := by
  simp only [Json.shortEscapes, List.mem_cons, List.not_mem_nil, or_false, Prod.mk.injEq] at h
  rcases h with ⟨rfl, rfl⟩ | ⟨rfl, rfl⟩ | ⟨rfl, rfl⟩ | ⟨rfl, rfl⟩ | ⟨rfl, rfl⟩ | ⟨rfl, rfl⟩ |
    ⟨rfl, rfl⟩ | ⟨rfl, rfl⟩ <;> exact ⟨rfl, rfl⟩

/-- One character of a word is read as what it means. -/
theorem quotedWord?_letter {letter : Letter} (hwhite : letter.isWhite = false) (steps : Nat)
    (rest : List Char) :
    quotedWord? '"' (steps + 1) (letter.chars ++ rest) =
      if letter.isPair then none
      else (quotedWord? '"' steps rest).map fun word =>
        (letter.value :: word.1, word.2 + letter.chars.length) := by
  have hnotWhite : isWhite '\\' = false := rfl
  cases letter with
  | plain c hc =>
    have hc' : isWhite c = false := hwhite
    simp [Letter.chars, Letter.value, Letter.isPair, quotedWord?, hc', hc.1, hc.2.1,
      Option.map_eq_bind]
  | short letter c hmem =>
    obtain ⟨hescape, hbreak⟩ := escape?_short hmem rest
    simp [Letter.chars, Letter.value, Letter.isPair, quotedWord?, hnotWhite, hbreak, hescape,
      Option.map_eq_bind]
  | code hex hhex =>
    have hbreak : isBreak 'u' = false := rfl
    have hescape := escape?_code hex rest
    rw [if_neg hhex] at hescape
    have hdrop : (hex.digits ++ rest).drop 4 = rest := by
      rw [← hex.length_digits, List.drop_left]
    simp [Letter.chars, Letter.value, Letter.isPair, quotedWord?, hnotWhite, hbreak, hescape,
      hdrop, hex.length_digits, Option.map_eq_bind]
  | pair first second hfirst hsecond =>
    have hbreak : isBreak 'u' = false := rfl
    have hescape := escape?_code first (('\\' :: 'u' :: second.digits) ++ rest)
    rw [if_pos ⟨hfirst.1, by omega⟩] at hescape
    simp at hescape
    simp [Letter.chars, Letter.isPair, quotedWord?, hnotWhite, hbreak, hescape]

theorem quotedWord?_stop {c : Char} (h : isWhite c = true ∨ c = '"') (steps : Nat)
    (rest : List Char) : quotedWord? '"' steps (c :: rest) = some ([], 0) := by
  cases steps with
  | zero => rfl
  | succ steps =>
    rcases h with hwhite | rfl
    · simp [quotedWord?, hwhite]
    · rfl

/-- A word is read up to white space or the closing quote. -/
theorem quotedWord?_word {word : List Letter} (hword : ∀ letter ∈ word, letter.isWhite = false)
    {c : Char} (hstop : isWhite c = true ∨ c = '"') (rest : List Char) {steps : Nat}
    (hsteps : word.length ≤ steps) :
    quotedWord? '"' steps (word.flatMap Letter.chars ++ c :: rest) =
      if word.any Letter.isPair then none
      else some (word.map Letter.value, (word.flatMap Letter.chars).length) := by
  induction word generalizing steps with
  | nil => exact quotedWord?_stop hstop steps rest
  | cons letter word ih =>
    obtain ⟨hletter, hword⟩ := List.forall_mem_cons.mp hword
    cases steps with
    | zero => cases hsteps
    | succ steps =>
      rw [List.flatMap_cons, List.append_assoc, quotedWord?_letter hletter,
        ih hword (Nat.le_of_succ_le_succ hsteps), List.any_cons]
      cases letter.isPair <;> cases word.any Letter.isPair <;> simp [Nat.add_comm]

/-! ## Words and white space -/

theorem quotedTextFrom?_word {word : List Letter}
    (hword : ∀ letter ∈ word, letter.isWhite = false) (letters : List Letter) :
    quotedTextFrom? [] (word ++ letters) =
      if word.any Letter.isPair then none
      else (quotedTextFrom? [] letters).map (word.map Letter.value ++ ·) := by
  induction word with
  | nil => simp
  | cons letter word ih =>
    obtain ⟨hletter, hword⟩ := List.forall_mem_cons.mp hword
    have hmarked : isMarked [] (letter :: (word ++ letters)) = false := rfl
    rw [List.cons_append, quotedTextFrom?, ih hword, hletter, hmarked, List.any_cons]
    cases letter.isPair <;> cases word.any Letter.isPair <;>
      simp [Option.map_map, Function.comp_def]

theorem quotedTextFrom?_white {run : List Letter} (hrun : ∀ letter ∈ run, letter.isWhite = true)
    (white : List Char) (letters : List Letter) :
    quotedTextFrom? white (run ++ letters) =
      quotedTextFrom? (white ++ run.flatMap Letter.chars) letters := by
  induction run generalizing white with
  | nil => simp
  | cons letter run ih =>
    obtain ⟨hletter, hrun⟩ := List.forall_mem_cons.mp hrun
    rw [List.cons_append, quotedTextFrom?, if_pos hletter, ih hrun, List.flatMap_cons,
      List.append_assoc]

/-- White space in front of a word is folded, unless a marker follows it. -/
theorem quotedTextFrom?_fold {letters : List Letter}
    (hhead : ∀ letter ∈ letters.head?, letter.isWhite = false) (white : List Char) :
    quotedTextFrom? white letters =
      if isMarked white letters then none
      else (quotedTextFrom? [] letters).map (fold white ++ ·) := by
  cases letters with
  | nil =>
    have hmarked : isMarked white [] = false := Bool.and_false _
    simp [quotedTextFrom?, hmarked]
  | cons letter letters =>
    have hletter : letter.isWhite = false := hhead letter rfl
    have hmarked : isMarked [] (letter :: letters) = false := rfl
    rw [quotedTextFrom?, quotedTextFrom?, hletter, hmarked]
    cases letter.isPair <;> cases isMarked white (letter :: letters) <;>
      simp [Option.map_map, Function.comp_def]

/-! ## Whole strings -/

theorem isBreak_of_hexValue? {c : Char} {n : Nat} (h : Json.hexValue? c = some n) :
    isBreak c = false := by
  rw [Bool.eq_false_iff]
  intro hbreak
  simp only [isBreak, Bool.or_eq_true, beq_iff_eq] at hbreak
  rcases hbreak with (((rfl | rfl) | rfl) | rfl) | rfl <;> simp [Json.hexValue?] at h

theorem isBreak_of_mem_digits {hex : HexCode} {c : Char} (h : c ∈ hex.digits) :
    isBreak c = false := by
  have hvalue : ∀ (digits : List Char) (start number : Nat),
      digits.foldlM (fun n c => (Json.hexValue? c).map (n * 16 + ·)) start = some number →
        ∀ c ∈ digits, isBreak c = false := by
    intro digits
    induction digits with
    | nil => simp
    | cons d digits ih =>
      intro start number hnumber
      rw [List.foldlM_cons, Option.bind_eq_bind, Option.bind_eq_some_iff] at hnumber
      obtain ⟨next, hnext, hnumber⟩ := hnumber
      obtain ⟨value, hd, -⟩ := Option.map_eq_some_iff.mp hnext
      exact List.forall_mem_cons.mpr ⟨isBreak_of_hexValue? hd, ih next number hnumber⟩
  exact hvalue hex.digits 0 hex.number hex.number_eq c h

/-- Only white space that is written as it is ends a line. -/
theorem isBreak_of_mem_chars {letter : Letter} (hwhite : letter.isWhite = false) {c : Char}
    (h : c ∈ letter.chars) : isBreak c = false := by
  have hescape : isBreak '\\' = false ∧ isBreak 'u' = false := ⟨rfl, rfl⟩
  cases letter with
  | plain d hd =>
    rw [List.mem_singleton.mp h]
    exact Bool.eq_false_iff.mpr fun hbreak =>
      Bool.eq_false_iff.mp hwhite (isWhite_of_isBreak hbreak)
  | short letter d hmem =>
    rcases List.mem_pair.mp h with rfl | rfl
    · exact hescape.1
    · exact (escape?_short hmem []).2
  | code hex hhex =>
    rcases List.mem_cons.mp h with rfl | h
    · exact hescape.1
    rcases List.mem_cons.mp h with rfl | h
    · exact hescape.2
    · exact isBreak_of_mem_digits h
  | pair first second hfirst hsecond =>
    simp only [Letter.chars, List.mem_cons, List.mem_append] at h
    rcases h with rfl | rfl | h | rfl | rfl | h
    · exact hescape.1
    · exact hescape.2
    · exact isBreak_of_mem_digits h
    · exact hescape.1
    · exact hescape.2
    · exact isBreak_of_mem_digits h

/-- Characters that do not start with white space have a text that does not. -/
theorem exists_cons_of_not_white {letters : List Letter}
    (hhead : ∀ letter ∈ letters.head?, letter.isWhite = false) (rest : List Char) :
    ∃ c more, letters.flatMap Letter.chars ++ '"' :: rest = c :: more ∧ isWhite c = false := by
  cases letters with
  | nil => exact ⟨'"', rest, rfl, rfl⟩
  | cons letter letters =>
    have hletter := hhead letter rfl
    cases letter with
    | plain c hc => exact ⟨c, _, rfl, hletter⟩
    | short letter c hmem => exact ⟨'\\', _, rfl, rfl⟩
    | code hex hhex => exact ⟨'\\', _, rfl, rfl⟩
    | pair first second hfirst hsecond => exact ⟨'\\', _, rfl, rfl⟩

theorem exists_char_of_isWhite {letter : Letter} (h : letter.isWhite = true) :
    ∃ c, letter.chars = [c] ∧ isWhite c = true := by
  cases letter with
  | plain c hc => exact ⟨c, rfl, h⟩
  | _ => cases h

theorem isWhite_of_mem_run {run : List Letter} (hrun : ∀ letter ∈ run, letter.isWhite = true)
    {c : Char} (h : c ∈ run.flatMap Letter.chars) : isWhite c = true := by
  obtain ⟨letter, hmem, hc⟩ := List.mem_flatMap.mp h
  obtain ⟨d, hchars, hd⟩ := exists_char_of_isWhite (hrun letter hmem)
  rw [hchars, List.mem_singleton] at hc
  rwa [hc]

/-- Characters of a string are a word, a run of white space and characters that do not start
with white space. -/
theorem exists_word_white (letters : List Letter) :
    ∃ word run more, letters = word ++ (run ++ more) ∧
      (∀ letter ∈ word, letter.isWhite = false) ∧ (∀ letter ∈ run, letter.isWhite = true) ∧
        (∀ letter ∈ more.head?, letter.isWhite = false) ∧ (run = [] → more = []) := by
  have hhead : ∀ (p : Letter → Bool) (letters : List Letter),
      ∀ letter ∈ (letters.dropWhile p).head?, p letter = false := by
    intro p letters letter h
    have hnot := List.head?_dropWhile_not p letters
    rw [Option.mem_def.mp h] at hnot
    exact hnot
  refine ⟨letters.takeWhile (!·.isWhite), (letters.dropWhile (!·.isWhite)).takeWhile (·.isWhite),
    (letters.dropWhile (!·.isWhite)).dropWhile (·.isWhite), ?_, ?_, ?_, hhead _ _, ?_⟩
  · rw [List.takeWhile_append_dropWhile, List.takeWhile_append_dropWhile]
  · exact fun letter h => by simpa using List.mem_takeWhile_imp h
  · exact fun letter h => List.mem_takeWhile_imp h
  · intro hrun
    cases hbehind : letters.dropWhile (!·.isWhite) with
    | nil => rfl
    | cons letter behind =>
      have hletter := hhead (!·.isWhite) letters letter (by rw [hbehind]; rfl)
      rw [Bool.not_eq_false'] at hletter
      rw [hbehind, List.takeWhile_cons, if_pos hletter] at hrun
      cases hrun

/-- What stands behind the closing quote makes no marker. -/
theorem startsMarker_append_quote (text rest : List Char) :
    startsMarker (text ++ '"' :: rest) = startsMarker (text ++ ['"']) := by
  match text with
  | [] => rfl
  | [a] => simp [startsMarker]
  | [a, b] => simp [startsMarker]
  | [a, b, c] => rfl
  | a :: b :: c :: d :: text => rfl

section

variable {word : List Letter} {c : Char} {rest : List Char} {steps : Nat} {cursor : Cursor}

theorem readQuoted_of_marker (h : cursor.atDocumentMarker = true) :
    readQuoted '"' steps cursor = none := by
  cases steps with
  | zero => rfl
  | succ steps => rw [readQuoted, if_pos h]

/-- A word in front of the closing quote is the end of a string. -/
theorem readQuoted_last (hword : ∀ letter ∈ word, letter.isWhite = false)
    (hmarker : cursor.atDocumentMarker = false)
    (hrest : cursor.rest = word.flatMap Letter.chars ++ '"' :: rest)
    (hsteps : word.length ≤ steps + 1) :
    readQuoted '"' (steps + 1) cursor =
      if word.any Letter.isPair then none
      else some (word.map Letter.value,
        (cursor.skip (word.flatMap Letter.chars).length).skip 1) := by
  have hbehind := Cursor.rest_skip hrest
  rw [readQuoted, hmarker, hrest, quotedWord?_word hword (Or.inr rfl) rest hsteps]
  cases word.any Letter.isPair <;> simp [hbehind, -List.length_flatMap]

/-- A word in front of white space is followed by what is read behind the white space. -/
theorem readQuoted_white (hword : ∀ letter ∈ word, letter.isWhite = false)
    (hmarker : cursor.atDocumentMarker = false) (hc : isWhite c = true)
    (hrest : cursor.rest = word.flatMap Letter.chars ++ c :: rest)
    (hsteps : word.length ≤ steps + 1) :
    readQuoted '"' (steps + 1) cursor =
      if word.any Letter.isPair then none
      else
        let behind := cursor.skip (word.flatMap Letter.chars).length
        (readQuoted '"' steps behind.skipWhite).map fun read =>
          (word.map Letter.value ++ (fold behind.white ++ read.1), read.2) := by
  have hbehind := Cursor.rest_skip hrest
  have hquote : c ≠ '"' := by
    rintro rfl
    cases hc
  have hescape : c ≠ '\\' := by
    rintro rfl
    cases hc
  rw [readQuoted, hmarker, hrest, quotedWord?_word hword (Or.inl hc) rest hsteps]
  cases word.any Letter.isPair <;>
    simp [hbehind, hquote, hescape, Option.map_eq_bind, -List.length_flatMap]

end

theorem length_le_flatMap_chars (letters : List Letter) :
    letters.length ≤ (letters.flatMap Letter.chars).length := by
  induction letters with
  | nil => exact Nat.le_refl 0
  | cons letter letters ih =>
    have hletter : 1 ≤ letter.chars.length := by
      cases letter <;> simp [Letter.chars]
    rw [List.flatMap_cons, List.length_append, List.length_cons]
    omega

/-- The white space at a cursor is a run of it, if a word or the closing quote follows. -/
theorem white_eq_of_rest {run more : List Letter} {rest : List Char} {cursor : Cursor}
    (hrun : ∀ letter ∈ run, letter.isWhite = true)
    (hmore : ∀ letter ∈ more.head?, letter.isWhite = false)
    (hrest : cursor.rest =
      run.flatMap Letter.chars ++ (more.flatMap Letter.chars ++ '"' :: rest)) :
    cursor.white = run.flatMap Letter.chars := by
  obtain ⟨c, behind, htext, hc⟩ := exists_cons_of_not_white hmore rest
  rw [Cursor.white, hrest, htext, List.takeWhile_append_of_pos fun d => isWhite_of_mem_run hrun,
    List.takeWhile_cons, hc]
  exact List.append_nil _

/-- Behind white space, a cursor stands at a marker exactly if the characters are marked. -/
theorem atDocumentMarker_of_passes {run more : List Letter} {rest : List Char}
    {cursor after : Cursor} (hrun : run ≠ []) (hchars : ∀ letter ∈ run, letter.isWhite = true)
    (hpass : Cursor.Passes (run.flatMap Letter.chars) cursor after)
    (hrest : after.rest = more.flatMap Letter.chars ++ '"' :: rest) :
    after.atDocumentMarker = isMarked (run.flatMap Letter.chars) more := by
  have hcolumn := hpass.column_eq_zero_iff
  rw [atDocumentMarker_eq, hrest, startsMarker_append_quote, isMarked]
  congr 1
  cases run using List.reverseRecOn with
  | nil => exact absurd rfl hrun
  | append_singleton run letter =>
    obtain ⟨c, hc, -⟩ := exists_char_of_isWhite (hchars letter (by simp))
    simp only [List.flatMap_append, List.flatMap_singleton, hc, List.getLast?_concat] at hcolumn ⊢
    rw [Bool.eq_iff_iff, beq_iff_eq, hcolumn]
    rfl

/-- What is read of a string behind its opening quote, or from a word on.  One step of the
reader passes a word and the run of white space behind it, so the induction is on the length
and not on the characters one by one.  Where nothing is read, any cursor behind the text will
do. -/
theorem readQuoted_letters (letters : List Letter) {rest : List Char} {steps : Nat}
    {cursor : Cursor} (hrest : cursor.rest = letters.flatMap Letter.chars ++ '"' :: rest)
    (hsteps : cursor.rest.length < steps) (hmarker : cursor.atDocumentMarker = false) :
    ∃ after, Cursor.Passes (letters.flatMap Letter.chars ++ ['"']) cursor after ∧
      readQuoted '"' steps cursor =
        (quotedTextFrom? [] letters).map fun text => (text, after) := by
  induction hlength : letters.length using Nat.strongRecOn generalizing letters steps cursor with
  | ind length ih =>
  have hused : cursor.rest = (letters.flatMap Letter.chars ++ ['"']) ++ rest := by simp [hrest]
  obtain ⟨anywhere, hanywhere⟩ := Cursor.exists_passes hused
  obtain ⟨steps, rfl⟩ := Nat.exists_eq_succ_of_ne_zero (by omega : steps ≠ 0)
  obtain ⟨word, run, more, rfl, hword, hrun, hmore, hend⟩ := exists_word_white letters
  rw [List.flatMap_append, List.flatMap_append, List.append_assoc, List.append_assoc] at hrest
  have hwordLength : word.length ≤ steps + 1 := by
    have hle := length_le_flatMap_chars word
    rw [hrest, List.length_append] at hsteps
    omega
  have hbreak : ∀ c ∈ word.flatMap Letter.chars, isBreak c = false := by
    intro c hc
    obtain ⟨letter, hletter, hc⟩ := List.mem_flatMap.mp hc
    exact isBreak_of_mem_chars (hword letter hletter) hc
  have hskip := Cursor.passes_skip hrest hbreak
  have hbehind := Cursor.rest_skip hrest
  rw [quotedTextFrom?_word hword]
  cases run with
  | nil =>
    obtain rfl := hend rfl
    have hclose : (cursor.skip (word.flatMap Letter.chars).length).rest = ['"'] ++ rest := hbehind
    have hlast := Cursor.passes_skip hclose (List.forall_mem_singleton.mpr rfl)
    rw [readQuoted_last hword hmarker hrest hwordLength]
    by_cases hpair : word.any Letter.isPair = true
    · exact ⟨anywhere, hanywhere, by simp [hpair]⟩
    · exact ⟨_, by simpa using hskip.trans hlast, by simp [quotedTextFrom?, hpair]⟩
  | cons letter run =>
    obtain ⟨c, hc, hwhite⟩ := exists_char_of_isWhite (hrun letter (by simp))
    have hfirst : cursor.rest = word.flatMap Letter.chars ++
        c :: (run.flatMap Letter.chars ++ (more.flatMap Letter.chars ++ '"' :: rest)) := by
      rw [hrest, List.flatMap_cons, hc]
      simp
    rw [readQuoted_white hword hmarker hwhite hfirst hwordLength, quotedTextFrom?_white hrun,
      List.nil_append, quotedTextFrom?_fold hmore]
    generalize cursor.skip (word.flatMap Letter.chars).length = behind at hskip hbehind ⊢
    have hrun' := white_eq_of_rest hrun hmore hbehind
    have hpass := behind.passes_skipWhite
    rw [hrun'] at hpass
    have hmoreRest := List.append_cancel_left (hpass.rest.symm.trans hbehind)
    rw [← atDocumentMarker_of_passes (List.cons_ne_nil _ _) hrun hpass hmoreRest]
    by_cases hpair : word.any Letter.isPair = true
    · exact ⟨anywhere, hanywhere, by simp [hpair]⟩
    cases hmarked : behind.skipWhite.atDocumentMarker with
    | true => exact ⟨anywhere, hanywhere, by simp [hpair, readQuoted_of_marker hmarked]⟩
    | false =>
      have hless : more.length < length := by
        rw [← hlength, List.length_append, List.length_append, List.length_cons]
        omega
      have hfuel : behind.skipWhite.rest.length < steps := by
        have hrunLength := length_le_flatMap_chars (letter :: run)
        rw [List.length_cons] at hrunLength
        rw [hskip.length_eq, hpass.length_eq] at hsteps
        omega
      obtain ⟨after, hafter, hread⟩ := ih more.length hless more hmoreRest hfuel hmarked rfl
      refine ⟨after, by simpa using (hskip.trans hpass).trans hafter, ?_⟩
      simp [hpair, hread, hrun', Option.map_map, Function.comp_def]

end Yaml

end GoldenFixtures
