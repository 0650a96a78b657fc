import Mathlib.Data.List.DropRight
import GoldenFixtures.Text.Blank
import GoldenFixtures.Proofs.Text.Lines

/-!
# What the lines of a text show

A text is cut at its line feeds, and the lines are counted from one.  What the
lines show is what is left of them without the white space at their ends, each
behind its number; lines with nothing but white space show nothing
(`shownLines`).

White space at the ends counts once: a trimmed text stays as it is
(`trim_trim`).  `shownFrom_append` takes one line off a text, which is the step
of `line_induction`.
-/

namespace GoldenFixtures.Text

/-! ## White space at the ends -/

theorem trimEnd_eq_rdropWhile (text : List Char) : trimEnd text = text.rdropWhile isBlank := rfl

/-- What is cut off at the end leaves a front without white space alone. -/
theorem trimStart_trimEnd_of_trimStart {text : List Char} (h : trimStart text = text) :
    trimStart (trimEnd text) = trimEnd text := by
  unfold trimStart at h ⊢
  rw [List.dropWhile_eq_self_iff] at h ⊢
  rw [trimEnd_eq_rdropWhile]
  intro hpos
  have hfront : text.rdropWhile isBlank <+: text := List.rdropWhile_prefix isBlank text
  rw [hfront.getElem hpos]
  exact h (hpos.trans_le hfront.length_le)

theorem trim_trim (text : List Char) : trim (trim text) = trim text := by
  have hstart : trimStart (trimStart text) = trimStart text := List.dropWhile_idempotent _ _
  unfold trim
  rw [trimStart_trimEnd_of_trimStart hstart]
  exact List.rdropWhile_idempotent _ _

/-! ## Lines -/

/-- A text is its last line, or a line with its line feed and more text. -/
@[elab_as_elim]
theorem line_induction {motive : List Char → Prop}
    (last : ∀ line, '\n' ∉ line → motive line)
    (more : ∀ line rest, '\n' ∉ line → motive rest → motive (line ++ '\n' :: rest))
    (text : List Char) : motive text := by
  induction hlength : text.length using Nat.strong_induction_on generalizing text with
  | _ length ih =>
    by_cases hmem : '\n' ∈ text
    · obtain ⟨line, rest, rfl, hline⟩ := List.eq_append_cons_of_mem hmem
      have hshorter : rest.length < length := by
        rw [← hlength, List.length_append, List.length_cons]
        omega
      exact more line rest hline (ih rest.length hshorter rest rfl)
    · exact last text hmem

/-- What a line with a number shows. -/
def shownLine (number : Nat) (line : List Char) : List (Nat × List Char) :=
  if trim line = [] then [] else [(number, trim line)]

/-- What the lines of a text show, the first of them having a number. -/
def shownFrom (number : Nat) (text : List Char) : List (Nat × List Char) :=
  ((text.splitOn '\n').zipIdx number).flatMap fun line => shownLine line.2 line.1

/-- What the lines of a text show. -/
def shownLines (text : List Char) : List (Nat × List Char) := shownFrom 1 text

theorem shownFrom_of_notMem {text : List Char} (h : '\n' ∉ text) (number : Nat) :
    shownFrom number text = shownLine number text := by
  unfold shownFrom
  rw [List.splitOn_eq_singleton h]
  simp

theorem shownFrom_append {line : List Char} (h : '\n' ∉ line) (rest : List Char) (number : Nat) :
    shownFrom number (line ++ '\n' :: rest) =
      shownLine number line ++ shownFrom (number + 1) rest := by
  unfold shownFrom
  rw [List.splitOn_append_cons_self_of_not_mem h, List.zipIdx_cons, List.flatMap_cons]

end GoldenFixtures.Text
