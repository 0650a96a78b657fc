import GoldenFixtures.Proofs.Archive.Stream
import GoldenFixtures.Proofs.Text.Shown

/-!
# The layout of a stream

Blank lines, white space at the ends of lines, carriage returns in front of line
feeds and a missing last line feed are of no account: a stream is sanitized as
what its lines show, and only the number in an error tells where the line stood.

There are two groups.

* One stream.  `sanitizeShown` sanitizes what lines show, and a stream is
  sanitized just so (`sanitizeLines_encode`, by the step
  `sanitizeLines_cons_eq_sanitizeShown`).
* Two streams.  What shows the same is sanitized to the same records and stops at
  the same place (`sanitizeShown_alike`); `sanitize_of_sameShown` puts the two
  together.
-/

namespace GoldenFixtures.Archive

open Text (byteLines decode? encode shownFrom shownLine shownLines)

/-! ## One stream -/

/-- Sanitizes what lines show, each behind the number of its line. -/
def sanitizeShown (roster : Roster) : List (Nat × List Char) → Run
  | [] => ⟨[], none⟩
  | (number, text) :: shown =>
    match roster.sanitizeLine text with
    | (.error problem, _) => ⟨[], some (.atLine number problem)⟩
    | (.ok record, roster) => (sanitizeShown roster shown).before record

section

variable {roster : Roster} {number : Nat}

theorem sanitizeLine_trim (text : List Char) :
    roster.sanitizeLine (Text.trim text) = roster.sanitizeLine text := by
  unfold Roster.sanitizeLine
  rw [Text.trim_trim]

theorem sanitizeLine_of_blank {text : List Char} (h : Text.trim text = []) :
    roster.sanitizeLine text = (.ok none, roster) := by
  unfold Roster.sanitizeLine
  rw [h]
  rfl

/-- A line in front is sanitized as what it shows. -/
theorem sanitizeLines_cons_eq_sanitizeShown {lines : List (List UInt8)}
    {shown : List (Nat × List Char)}
    (h : ∀ roster, sanitizeLines roster (number + 1) lines = sanitizeShown roster shown)
    (roster : Roster) (line : List Char) :
    sanitizeLines roster number (encode line :: lines) =
      sanitizeShown roster (shownLine number line ++ shown) := by
  rw [sanitizeLines, Text.decode?_encode]
  unfold shownLine
  by_cases hblank : Text.trim line = []
  · simp only [sanitizeLine_of_blank hblank, hblank, if_true, List.nil_append, h]
    rfl
  · simp only [hblank, if_false, List.singleton_append, sanitizeShown, sanitizeLine_trim]
    cases hline : roster.sanitizeLine line with
    | mk result next =>
      cases result with
      | error problem => rfl
      | ok record => exact congrArg (Run.before record) (h next)

/-- A text is sanitized as what its lines show. -/
theorem sanitizeLines_encode (roster : Roster) (number : Nat) (text : List Char) :
    sanitizeLines roster number (byteLines (encode text)) =
      sanitizeShown roster (shownFrom number text) := by
  induction text using Text.line_induction generalizing roster number with
  | last line hline =>
    rw [Text.shownFrom_of_notMem hline]
    by_cases hnil : line = []
    · rw [hnil]
      rfl
    · have hbytes : 10 ∉ encode line := Text.mem_encode_newline_iff.not.mpr hline
      have hne : encode line ≠ [] := fun h => hnil (Text.encode_injective h)
      have hend : ∀ roster, sanitizeLines roster (number + 1) [] = sanitizeShown roster [] :=
        fun _ => rfl
      rw [Text.byteLines_of_notMem hbytes hne, sanitizeLines_cons_eq_sanitizeShown hend,
        List.append_nil]
  | more line rest hline ih =>
    have hbytes : 10 ∉ encode line := Text.mem_encode_newline_iff.not.mpr hline
    have hencode : encode (line ++ '\n' :: rest) = encode line ++ 10 :: encode rest := by
      rw [Text.encode_append, ← List.singleton_append, Text.encode_append, Text.encode_newline,
        List.singleton_append]
    rw [hencode, Text.byteLines_append_newline hbytes, Text.shownFrom_append hline]
    exact sanitizeLines_cons_eq_sanitizeShown (fun roster => ih roster (number + 1)) roster line

end

/-! ## Two streams -/

/-- Two runs over lines that show the same stop at the same place with the same
problem, each with the number of its own line there, or neither stops. -/
inductive StopAlike (shown others : List (Nat × List Char)) :
    Option Error → Option Error → Prop where
  | never : StopAlike shown others none none
  | both {index number number' : Nat} {text : List Char} {problem : Problem} :
      shown[index]? = some (number, text) → others[index]? = some (number', text) →
      StopAlike shown others (some (.atLine number problem)) (some (.atLine number' problem))

theorem StopAlike.cons {shown others : List (Nat × List Char)} {error? error?' : Option Error}
    (h : StopAlike shown others error? error?') (line line' : Nat × List Char) :
    StopAlike (line :: shown) (line' :: others) error? error?' := by
  cases h with
  | never => exact .never
  | @both index number number' text problem hline hline' =>
    have hshown : (line :: shown)[index + 1]? = some (number, text) := hline
    have hothers : (line' :: others)[index + 1]? = some (number', text) := hline'
    exact .both hshown hothers

theorem Run.error?_before (record : Option Record) (run : Run) :
    (run.before record).error? = run.error? := by
  cases record <;> rfl

theorem Run.records_before (record : Option Record) (run : Run) :
    (run.before record).records = record.toList ++ run.records := by
  cases record <;> rfl

theorem sanitizeShown_alike {shown others : List (Nat × List Char)}
    (h : List.Forall₂ (fun line line' => line.2 = line'.2) shown others) (roster : Roster) :
    (sanitizeShown roster shown).records = (sanitizeShown roster others).records ∧
      StopAlike shown others (sanitizeShown roster shown).error?
        (sanitizeShown roster others).error? := by
  induction h generalizing roster with
  | nil => exact ⟨rfl, .never⟩
  | @cons line line' shown others hsame _ ih =>
    obtain ⟨number, text⟩ := line
    obtain ⟨number', text'⟩ := line'
    obtain rfl : text = text' := hsame
    simp only [sanitizeShown]
    cases hline : roster.sanitizeLine text with
    | mk result next =>
      cases result with
      | error problem =>
        exact ⟨rfl, .both (List.getElem?_cons_zero) (List.getElem?_cons_zero)⟩
      | ok record =>
        obtain ⟨hrecords, hstop⟩ := ih next
        simp only [Run.records_before, Run.error?_before, hrecords]
        exact ⟨trivial, hstop.cons _ _⟩

theorem sanitize_eq_sanitizeShown {bytes : List UInt8} {text : List Char}
    (h : decode? bytes = some text) : sanitize bytes = sanitizeShown {} (shownLines text) := by
  rw [Text.decode?_eq_some_iff.mp h]
  exact sanitizeLines_encode {} 1 text

/-- Streams whose lines show the same are sanitized to the same output, with the
same number of records or with errors at lines that correspond to each other,
which differ in the numbers of these lines alone. -/
theorem sanitize_of_sameShown {bytes others : List UInt8} {text other : List Char}
    (htext : decode? bytes = some text) (hother : decode? others = some other)
    (h : (shownLines text).map Prod.snd = (shownLines other).map Prod.snd) :
    (sanitize bytes).output = (sanitize others).output ∧
      ((∃ written, (sanitize bytes).result = .ok written ∧
          (sanitize others).result = .ok written) ∨
        ∃ (index number number' : Nat) (line : List Char) (problem : Problem),
          (shownLines text)[index]? = some (number, line) ∧
          (shownLines other)[index]? = some (number', line) ∧
          (sanitize bytes).result = .error (.atLine number problem) ∧
          (sanitize others).result = .error (.atLine number' problem)) := by
  have hshown : List.Forall₂ (fun line line' => line.2 = line'.2) (shownLines text)
      (shownLines other) := by
    rw [← List.forall₂_eq_eq_eq, List.forall₂_map_left_iff, List.forall₂_map_right_iff] at h
    exact h
  obtain ⟨hrecords, hstop⟩ := sanitizeShown_alike hshown {}
  rw [sanitize_eq_sanitizeShown htext, sanitize_eq_sanitizeShown hother]
  unfold Run.output Run.result
  rw [hrecords]
  refine ⟨rfl, ?_⟩
  generalize (sanitizeShown {} (shownLines text)).error? = error? at hstop ⊢
  generalize (sanitizeShown {} (shownLines other)).error? = error?' at hstop ⊢
  cases hstop with
  | never => exact Or.inl ⟨_, rfl, rfl⟩
  | both hline hline' => exact Or.inr ⟨_, _, _, _, _, hline, hline', rfl, rfl⟩

/-- A fuzz record. -/
def fuzzText : String :=
  "\x7b\"scenario\":\"fuzz\",\"tenant\":\"alpha\",\"operation\":\"plan\",\"request_count\":3,"
    ++ "\"budget_bytes\":64,\"overflow_expected\":false\x7d"

/-- The record and an array that is not closed. -/
def denseText : String := fuzzText ++ "\n[1"

/-- The same with blank lines, white space at the ends of lines and a last line
feed. -/
def looseText : String := "\r\n \t" ++ fuzzText ++ " \r\n\u3000\n  [1\r\n"

theorem shownLines_denseText :
    shownLines denseText.toList = [(1, fuzzText.toList), (2, ['[', '1'])] := by
  decide +kernel

theorem shownLines_looseText :
    shownLines looseText.toList = [(2, fuzzText.toList), (4, ['[', '1'])] := by
  decide +kernel

theorem sanitize_looseText :
    (shownLines denseText.toList).map Prod.snd = (shownLines looseText.toList).map Prod.snd ∧
      (sanitize (encode denseText.toList)).output = (sanitize (encode looseText.toList)).output ∧
      (sanitize (encode denseText.toList)).result =
        .error (.atLine 2 (.invalidJson ⟨.endInList, 1, 2⟩)) ∧
      (sanitize (encode looseText.toList)).result =
        .error (.atLine 4 (.invalidJson ⟨.endInList, 1, 2⟩)) := by
  have hsame :
      (shownLines denseText.toList).map Prod.snd = (shownLines looseText.toList).map Prod.snd := by
    rw [shownLines_denseText, shownLines_looseText]
    rfl
  have hdense : (sanitize (encode denseText.toList)).result =
      .error (.atLine 2 (.invalidJson ⟨.endInList, 1, 2⟩)) := by
    rw [sanitize_eq_sanitizeShown (Text.decode?_encode _)]
    decide +kernel
  obtain ⟨houtput, hresult⟩ :=
    sanitize_of_sameShown (Text.decode?_encode _) (Text.decode?_encode _) hsame
  refine ⟨hsame, houtput, hdense, ?_⟩
  rw [hdense, shownLines_denseText, shownLines_looseText] at hresult
  obtain ⟨written, hwritten, -⟩ | ⟨index, number, number', line, problem, hline, hline', h, h'⟩ :=
    hresult
  · exact nomatch hwritten
  · cases h
    rcases index with _ | _ | index
    · exact nomatch hline
    · cases hline'
      exact h'
    · exact nomatch hline

end GoldenFixtures.Archive
