import GoldenFixtures.Proofs.Json.Tree
import GoldenFixtures.Proofs.Yaml.Cursor
import GoldenFixtures.Yaml.Scalar

/-!
# Words read as plain scalars

A word without white space and without marks is read as a plain scalar up to the white
space behind it, if nothing else follows there, or inside brackets and braces one of their
marks.
-/

namespace GoldenFixtures.Yaml

open Json (Space)

/-- The character may stand anywhere in a plain scalar. -/
def isPlainChar (c : Char) : Bool :=
  !isWhite c && c != ':' && c != '#' && !isFlowMark c

/-- Nothing of a plain scalar can stand at the front of a text: it ends there, or starts with
white space or, inside brackets and braces, with one of their marks. -/
def StopsPlain (inFlow : Bool) (text : List Char) : Prop :=
  ∀ c ∈ text.head?, isWhite c = true ∨ inFlow = true ∧ isFlowMark c = true

theorem isWhite_of_isSpace {c : Char} (h : Json.isSpace c = true) : isWhite c = true := by
  simp only [Json.isSpace, Bool.or_eq_true, beq_iff_eq] at h
  rcases h with ((rfl | rfl) | rfl) | rfl <;> rfl

theorem plainWord?_stop {inFlow : Bool} {text : List Char} (h : StopsPlain inFlow text) :
    plainWord? inFlow text = some [] := by
  cases text with
  | nil => rfl
  | cons c rest =>
    rcases h c rfl with hwhite | ⟨rfl, hmark⟩
    · simp [plainWord?, hwhite]
    · have hcolon : c ≠ ':' := by
        rintro rfl
        cases hmark
      simp [plainWord?, hmark, hcolon]

theorem plainWord?_append {inFlow : Bool} {word rest : List Char}
    (hword : ∀ c ∈ word, isPlainChar c = true) (hrest : StopsPlain inFlow rest) :
    plainWord? inFlow (word ++ rest) = some word := by
  induction word with
  | nil => exact plainWord?_stop hrest
  | cons c word ih =>
    obtain ⟨hc, hword⟩ := List.forall_mem_cons.mp hword
    simp only [isPlainChar, Bool.and_eq_true, Bool.not_eq_true', bne_iff_ne, ne_eq] at hc
    obtain ⟨⟨⟨hwhite, hcolon⟩, -⟩, hmark⟩ := hc
    simp [plainWord?, hwhite, hcolon, hmark, ih hword]

/-- At the first column no tab is in the way. -/
theorem tabbed_zero (white : List Char) : tabbed 0 white = false := by
  have hgo : ∀ (broken : Bool) (column : Nat), tabbed.go 0 broken column white = false := by
    induction white with
    | nil => exact fun _ _ => rfl
    | cons c white ih =>
      intro broken column
      rw [tabbed.go]
      split
      · exact ih true 0
      · rw [ih, decide_eq_false (Nat.not_lt_zero column), Bool.and_false, Bool.false_and]
        rfl
  exact hgo false 0

theorem isWhite_of_isFlowMark {c : Char} (h : isFlowMark c = true) : isWhite c = false := by
  simp only [isFlowMark, Bool.or_eq_true, beq_iff_eq] at h
  rcases h with (((rfl | rfl) | rfl) | rfl) | rfl <;> rfl

/-- The white space at a cursor is what stands in front of the end or of a mark. -/
theorem white_eq_of_space {space : Space} {left : List Char} {cursor : Cursor}
    (hrest : cursor.rest = space.chars ++ left) (hleft : ∀ c ∈ left.head?, isWhite c = false) :
    cursor.white = space.chars := by
  have hspace : ∀ c ∈ space.chars, isWhite c = true := fun c hc =>
    isWhite_of_isSpace (space.isSpace_of_mem c hc)
  rw [Cursor.white, hrest, List.takeWhile_append_of_pos hspace]
  cases left with
  | nil => simp
  | cons c left => simp [hleft c rfl]

/-- Where no word starts, nothing more is read. -/
theorem readPlainWords_stop {inFlow : Bool} {indent steps : Nat} {white : List Char}
    {cursor : Cursor} (h : StopsPlain inFlow cursor.rest) :
    readPlainWords inFlow indent steps white cursor =
      some ⟨[], cursor, !(lineBreaks white).isEmpty⟩ := by
  cases steps with
  | zero => rfl
  | succ steps => simp [readPlainWords, plainWord?_stop h]

/-- A word is read as a plain scalar, with the white space behind it. -/
theorem readPlain_word (steps : Nat) {inFlow : Bool} {word left : List Char} {space : Space}
    {cursor : Cursor} (hword : ∀ c ∈ word, isPlainChar c = true) (hne : word ≠ [])
    (hleft : ∀ c ∈ left.head?, inFlow = true ∧ isFlowMark c = true)
    (hrest : cursor.rest = word ++ (space.chars ++ left))
    (hmarker : cursor.atDocumentMarker = false) :
    ∃ after broken, Cursor.Passes (word ++ space.chars) cursor after ∧
      readPlain inFlow 0 (steps + 1) cursor = some ⟨word, after, broken⟩ := by
  have hstopsLeft : StopsPlain inFlow left := fun c hc => Or.inr (hleft c hc)
  have hstops : StopsPlain inFlow (space.chars ++ left) := by
    intro c hc
    cases hspace : space.chars with
    | nil => exact hstopsLeft c (by simpa [hspace] using hc)
    | cons d chars =>
      have hd : d = c := by simpa [hspace] using hc
      exact Or.inl (isWhite_of_isSpace (space.isSpace_of_mem c (by simp [hspace, hd])))
  have hbreak : ∀ c ∈ word, isBreak c = false := by
    intro c hc
    have hplain := hword c hc
    simp only [isPlainChar, Bool.and_eq_true, Bool.not_eq_true'] at hplain
    exact Bool.eq_false_iff.mpr fun hbreak => by
      simp [isWhite_of_isBreak hbreak] at hplain
  have hfirst : (cursor.next? == some '#') = false := by
    obtain ⟨c, more, rfl⟩ := List.exists_cons_of_ne_nil hne
    have hc := hword c (by simp)
    simp only [isPlainChar, Bool.and_eq_true, bne_iff_ne, ne_eq] at hc
    simpa [Cursor.next?, hrest] using hc.1.2
  have hskip := Cursor.passes_skip hrest hbreak
  have hbehind := Cursor.rest_skip hrest
  have hwhite := white_eq_of_space hbehind fun c hc => isWhite_of_isFlowMark (hleft c hc).2
  have hpass := (cursor.skip word.length).passes_skipWhite
  rw [hwhite] at hpass
  have hlast := List.append_cancel_left (hpass.rest.symm.trans hbehind)
  rw [readPlain, readPlainWords, hmarker, hfirst, hrest, plainWord?_append hword hstops]
  cases hspace : space.chars with
  | nil =>
    rw [hspace] at hwhite
    exact ⟨_, false, by simpa using hskip, by simp [hne, hwhite]⟩
  | cons c chars =>
    have hstop : StopsPlain inFlow (cursor.skip word.length).skipWhite.rest := hlast ▸ hstopsLeft
    refine ⟨_, !(lineBreaks (c :: chars)).isEmpty, hspace ▸ hskip.trans hpass, ?_⟩
    simp [hne, hwhite, hspace, tabbed_zero, readPlainWords_stop hstop]

end GoldenFixtures.Yaml
