import Mathlib
import GoldenFixtures.Command.SanitizeJsonl
import GoldenFixtures.Proofs.Archive.Stream
import GoldenFixtures.Proofs.FileTree.Write

/-!
# What `sanitize-jsonl` leaves in its output

The output of a run without an error holds what the input is sanitized to, unless
the input is the output (`outputContents_eq_iff`).  Such an input is emptied before
it is read, whatever paths the two are given by.
-/

namespace GoldenFixtures.Command.SanitizeJsonl

section

variable {context : Context} {tree after : FileTree} {options : Options} {path : Path}
  {input output : Channel} {location place : Location} {bytes : List UInt8}

/-- What stands on the input when the tool starts. -/
def inputContents (context : Context) (path : Path) : Except FileError (List UInt8) :=
  if path = standardPath then .ok context.stdin else context.tree.readBytes path

/-- What stands on the output when the tool is done. -/
def outputContents (outcome : Outcome) (path : Path) : Except FileError (List UInt8) :=
  if path = standardPath then .ok (Text.encode outcome.stdout.toList)
  else outcome.tree.readBytes path

/-- The input and the output are one file. -/
def IsOwnOutput (tree : FileTree) (options : Options) : Prop :=
  ∃ location after, openInput tree options.input = .ok (.place location) ∧
    openOutput tree options.output = .ok (.place location, after)

/-! ## Opening -/

theorem openInput_eq_ok_iff :
    openInput tree path = .ok input ↔
      path = standardPath ∧ input = .standard ∨
        path ≠ standardPath ∧ ∃ location entry, tree.locate path = .ok (location, entry) ∧
          input = .place location := by
  unfold openInput
  split
  · rename_i hstandard
    simp [hstandard, eq_comm]
  · rename_i hpath
    rw [Json.map_eq_ok]
    simp [hpath, eq_comm]

theorem openOutput_eq_ok_iff :
    openOutput tree path = .ok (output, after) ↔
      path = standardPath ∧ output = .standard ∧ after = tree ∨
        path ≠ standardPath ∧ ∃ location, tree.writable path = .ok location ∧
          output = .place location ∧ after = tree.set location (.file []) := by
  unfold openOutput
  split
  · rename_i hstandard
    simp [hstandard, eq_comm]
  · rename_i hpath
    rw [Json.map_eq_ok]
    simp [hpath, eq_comm]

/-- The settings can be read, and the input and the output opened. -/
structure Opens (context : Context) (options : Options) (input output : Channel)
    (after : FileTree) : Prop where
  settings : ∃ settings, Settings.read context.environment = .ok settings
  input : openInput context.tree options.input = .ok input
  output : openOutput context.tree options.output = .ok (output, after)

/-- A run that cannot open its input and output changes nothing. -/
theorem opens_or_failed (context : Context) (options : Options) :
    (∃ input output after, Opens context options input output after) ∨
      ∃ message, run context options = .failed context context.tree "" message := by
  unfold run withSettings
  cases hsettings : Settings.read context.environment with
  | error error => exact Or.inr ⟨_, rfl⟩
  | ok settings =>
    cases hinput : openInput context.tree options.input with
    | error error => exact Or.inr ⟨_, rfl⟩
    | ok input =>
      cases houtput : openOutput context.tree options.output with
      | error error => exact Or.inr ⟨_, rfl⟩
      | ok opened =>
        exact Or.inl ⟨input, opened.1, opened.2, ⟨settings, hsettings⟩, hinput, houtput⟩

/-- What is sanitized is delivered, be the input sanitized to its end or not. -/
theorem run_of_opens (h : Opens context options input output after) :
    run context options =
      match (sanitize context after input).error? with
      | some error =>
        .failed context (deliver after output (sanitize context after input).output).1
          (deliver after output (sanitize context after input).output).2 error.message
      | none =>
        .finished (deliver after output (sanitize context after input).output).1 0
          (deliver after output (sanitize context after input).output).2 := by
  obtain ⟨settings, hsettings⟩ := h.settings
  unfold run withSettings
  cases herror : (sanitize context after input).error? with
  | none => simp only [hsettings, h.input, h.output, herror]
  | some error => simp only [hsettings, h.input, h.output, herror]

/-- A run without an error opened both files and sanitized the input to its end. -/
theorem exists_of_run (h : (run context options).code = 0) :
    ∃ input output after, Opens context options input output after ∧
      (sanitize context after input).error? = none ∧
      run context options =
        .finished (deliver after output (sanitize context after input).output).1 0
          (deliver after output (sanitize context after input).output).2 := by
  rcases opens_or_failed context options with ⟨input, output, after, hopens⟩ | ⟨message, hfailed⟩
  · rw [run_of_opens hopens] at h ⊢
    cases herror : (sanitize context after input).error? with
    | some error =>
      rw [herror] at h
      exact nomatch h
    | none => exact ⟨input, output, after, hopens, herror, rfl⟩
  · rw [hfailed] at h
    exact nomatch h

/-! ## The input -/

/-- The contents of the input are sanitized, unless the output is at its place. -/
theorem sanitize_of_openInput (hinput : openInput context.tree path = .ok input)
    (hsame : ∀ location, input = .place location →
      after.entry? location = context.tree.entry? location) :
    sanitize context after input =
      match inputContents context path with
      | .ok contents => Archive.sanitize contents
      | .error error => ⟨[], some (.unreadable error)⟩ := by
  unfold inputContents
  rcases openInput_eq_ok_iff.mp hinput with ⟨rfl, rfl⟩ | ⟨hpath, location, entry, hlocate, rfl⟩
  · rw [if_pos rfl]
    rfl
  · have hbytes : after.bytesAt location = context.tree.bytesAt location := by
      unfold FileTree.bytesAt
      rw [hsame location rfl]
    have hread : context.tree.readBytes path = context.tree.bytesAt location := by
      unfold FileTree.readBytes
      rw [hlocate]
      rfl
    rw [if_neg hpath, hread]
    cases hcontents : context.tree.bytesAt location with
    | error error => simp only [sanitize, hbytes, hcontents]
    | ok contents => simp only [sanitize, hbytes, hcontents]

/-- Opening the output empties nothing but the output. -/
theorem entryAt_of_not_own (hopens : Opens context options input output after)
    (hown : ¬ IsOwnOutput context.tree options) :
    ∀ location, input = .place location →
      after.entry? location = context.tree.entry? location := by
  rintro location rfl
  have houtput := hopens.output
  rcases openOutput_eq_ok_iff.mp houtput with ⟨_, _, rfl⟩ | ⟨_, place, _, rfl, rfl⟩
  · rfl
  · refine FileTree.entryAt_set_of_ne ?_ _
    rintro rfl
    exact hown ⟨location, _, hopens.input, houtput⟩

/-- An input at the place of the output has contents, which are gone when it is
read. -/
theorem inputContents_of_own (hinput : openInput context.tree path = .ok (.place location))
    (hplace : context.tree.IsFilePlace location) :
    (∃ contents, inputContents context path = .ok contents) ∧
      sanitize context (context.tree.set location (.file [])) (.place location) = ⟨[], none⟩ := by
  constructor
  · unfold inputContents
    rcases openInput_eq_ok_iff.mp hinput with ⟨_, hstandard⟩ | ⟨hpath, place, entry, hlocate, hsame⟩
    · exact nomatch hstandard
    · obtain rfl := Channel.place.inj hsame
      rw [if_neg hpath]
      have hentry := FileTree.entryAt_of_locate hlocate
      cases entry with
      | file bytes => exact ⟨bytes, FileTree.readBytes_of_locate hlocate⟩
      | directory => exact absurd hentry hplace.notDirectory
      | link target => exact absurd hentry (hplace.notLink target)
  · have hempty : (context.tree.set location (.file [])).bytesAt location = .ok [] := by
      unfold FileTree.bytesAt
      rw [FileTree.entryAt_set_self hplace.ne_nil]
    simp only [sanitize, hempty]
    rfl

/-! ## The output -/

theorem outputContents_standard (tree : FileTree) (text : String) :
    outputContents (.finished (deliver tree .standard text).1 0 (deliver tree .standard text).2)
      standardPath = .ok (Text.encode text.toList) :=
  if_pos rfl

/-- What is written to a file is what its path leads to then. -/
theorem outputContents_place (hwf : tree.IsWellFormed) (hpath : path ≠ standardPath)
    (hwritable : tree.writable path = .ok location) (text : String) :
    outputContents
        (.finished (deliver (tree.set location (.file [])) (.place location) text).1 0
          (deliver (tree.set location (.file [])) (.place location) text).2) path =
      .ok (Text.encode text.toList) := by
  unfold outputContents deliver Outcome.finished
  rw [if_neg hpath]
  simp only [FileTree.set_set]
  exact FileTree.readBytes_of_locate (FileTree.locate_of_writable hwf hwritable _)

/-- The output holds what was sanitized, be it the contents of the input or not. -/
theorem outputContents_of_open (hwf : tree.IsWellFormed)
    (houtput : openOutput tree path = .ok (output, after)) (text : String) :
    outputContents (.finished (deliver after output text).1 0 (deliver after output text).2) path =
      .ok (Text.encode text.toList) := by
  rcases openOutput_eq_ok_iff.mp houtput with
    ⟨rfl, rfl, rfl⟩ | ⟨hpath, location, hwritable, rfl, rfl⟩
  · exact outputContents_standard _ text
  · exact outputContents_place hwf hpath hwritable text

theorem encode_eq_nil_iff {text : String} : Text.encode text.toList = [] ↔ text = "" := by
  constructor
  · intro h
    have hread := Text.decode?_encode text.toList
    rw [h, show Text.decode? [] = some [] from Text.decode?_encode []] at hread
    exact String.toList_eq_nil_iff.mp (Option.some.inj hread).symm
  · rintro rfl
    rfl

/-- An output that is not the input holds what the contents of the input are sanitized
to. -/
theorem outputContents_of_not_own (hwf : context.tree.IsWellFormed)
    (h : (run context options).code = 0) (hown : ¬ IsOwnOutput context.tree options) :
    ∃ contents, inputContents context options.input = .ok contents ∧
      outputContents (run context options) options.output =
        .ok (Text.encode (Archive.sanitize contents).output.toList) := by
  obtain ⟨input, output, after, hopens, herror, hrun⟩ := exists_of_run h
  have hsanitize := sanitize_of_openInput hopens.input (entryAt_of_not_own hopens hown)
  cases hcontents : inputContents context options.input with
  | error error =>
    rw [hsanitize, hcontents] at herror
    exact nomatch herror
  | ok contents =>
    rw [hcontents] at hsanitize
    refine ⟨contents, rfl, ?_⟩
    rw [hrun, outputContents_of_open hwf hopens.output, hsanitize]

/-- An output that is the input is left empty. -/
theorem outputContents_of_own (hwf : context.tree.IsWellFormed)
    (h : (run context options).code = 0) (hown : IsOwnOutput context.tree options) :
    (∃ contents, inputContents context options.input = .ok contents) ∧
      outputContents (run context options) options.output = .ok [] := by
  obtain ⟨location, opened, hownInput, hownOutput⟩ := hown
  obtain ⟨input, output, after, hopens, -, hrun⟩ := exists_of_run h
  obtain rfl := Except.ok.inj (hownInput.symm.trans hopens.input)
  obtain ⟨rfl, rfl⟩ := Prod.mk.inj (Except.ok.inj (hownOutput.symm.trans hopens.output))
  rcases openOutput_eq_ok_iff.mp hopens.output with
    ⟨_, hstandard, _⟩ | ⟨_, place, hwritable, hsame, rfl⟩
  · exact nomatch hstandard
  · obtain rfl := Channel.place.inj hsame
    obtain ⟨hcontents, hsanitize⟩ :=
      inputContents_of_own hopens.input (FileTree.isFilePlace_of_writable hwf hwritable)
    refine ⟨hcontents, ?_⟩
    rw [hrun, outputContents_of_open hwf hopens.output, hsanitize]
    rfl

/-- **The output of a run.**  After a run without an error the output holds what the
contents of the input are sanitized to, exactly if the two are not one file or nothing
is written.  A file that is both is left empty. -/
theorem outputContents_eq_iff (hwf : context.tree.IsWellFormed)
    (h : (run context options).code = 0) :
    ∃ contents, inputContents context options.input = .ok contents ∧
      (IsOwnOutput context.tree options →
        outputContents (run context options) options.output = .ok []) ∧
      (outputContents (run context options) options.output =
          .ok (Text.encode (Archive.sanitize contents).output.toList) ↔
        ¬ IsOwnOutput context.tree options ∨ (Archive.sanitize contents).output = "") := by
  by_cases hown : IsOwnOutput context.tree options
  · obtain ⟨⟨contents, hcontents⟩, hempty⟩ := outputContents_of_own hwf h hown
    refine ⟨contents, hcontents, fun _ => hempty, ?_⟩
    rw [hempty, Except.ok.injEq, eq_comm, encode_eq_nil_iff]
    simp [hown]
  · obtain ⟨contents, hcontents, hwritten⟩ := outputContents_of_not_own hwf h hown
    exact ⟨contents, hcontents, fun h => absurd h hown, by simp [hwritten, hown]⟩

/-- A line with one record. -/
def recordText : String :=
  "\x7b\"scenario\":\"fuzz\",\"tenant\":\"delta\",\"operation\":\"plan\"," ++
    "\"request_count\":3,\"budget_bytes\":64,\"overflow_expected\":false\x7d"

/-- The record of the line. -/
def record : Archive.Record := ⟨"tenant-001", .fuzz .plan 3 64 false⟩

theorem newline_notMem_recordText : 10 ∉ Text.encode recordText.toList := by
  rw [Text.mem_encode_newline_iff]
  decide +kernel

theorem sanitizeLines_recordText (lines : List (List UInt8)) :
    Archive.sanitizeLines {} 1 (Text.encode recordText.toList :: lines) =
      (Archive.sanitizeLines (Archive.Roster.sanitizeLine {} recordText.toList).2 2 lines).behind
        [record] := by
  have hok : (Archive.Roster.sanitizeLine {} recordText.toList).1 = .ok (some record) := by
    cbv
  exact Archive.sanitizeLines_cons_of_ok (Text.decode?_encode _) hok lines

theorem sanitize_recordText :
    Archive.sanitize (Text.encode recordText.toList) = ⟨[record], none⟩ := by
  have hne : Text.encode recordText.toList ≠ [] := by
    rw [ne_eq, encode_eq_nil_iff]
    decide +kernel
  unfold Archive.sanitize
  rw [Text.byteLines_of_notMem newline_notMem_recordText hne, sanitizeLines_recordText]
  rfl

/-- A file with the line, and nothing else. -/
def recordContext : Context where
  tree := { entries := [(["in.jsonl"], .file (Text.encode recordText.toList))] }
  environment := fun _ => none
  stdin := []

theorem code_recordContext : (run recordContext ⟨"in.jsonl", "out.jsonl"⟩).code = 0 := by
  have hsettings : Settings.read recordContext.environment = .ok ⟨"warn", .text⟩ := rfl
  have hinput : openInput recordContext.tree "in.jsonl" = .ok (.place ["in.jsonl"]) := rfl
  have houtput : openOutput recordContext.tree "out.jsonl" =
      .ok (.place ["out.jsonl"], recordContext.tree.set ["out.jsonl"] (.file [])) := rfl
  have hsanitize : sanitize recordContext (recordContext.tree.set ["out.jsonl"] (.file []))
      (.place ["in.jsonl"]) = ⟨[record], none⟩ := sanitize_recordText
  simp only [run, withSettings, hsettings, hinput, houtput, hsanitize]
  rfl

theorem outputContents_eq_iff_recordContext :
    recordContext.tree.IsWellFormed ∧ (run recordContext ⟨"in.jsonl", "out.jsonl"⟩).code = 0 ∧
      ∃ contents, inputContents recordContext "in.jsonl" = .ok contents ∧
        (outputContents (run recordContext ⟨"in.jsonl", "out.jsonl"⟩) "out.jsonl" =
            .ok (Text.encode (Archive.sanitize contents).output.toList) ↔
          ¬ IsOwnOutput recordContext.tree ⟨"in.jsonl", "out.jsonl"⟩ ∨
            (Archive.sanitize contents).output = "") := by
  have hwf : recordContext.tree.IsWellFormed := by decide
  obtain ⟨contents, hcontents, _, hiff⟩ := outputContents_eq_iff hwf code_recordContext
  exact ⟨hwf, code_recordContext, contents, hcontents, hiff⟩

/-- A file that is read and written in one run loses its record. -/
theorem outputContents_of_one_file :
    (run recordContext ⟨"in.jsonl", "in.jsonl"⟩).code = 0 ∧
      inputContents recordContext "in.jsonl" = .ok (Text.encode recordText.toList) ∧
      outputContents (run recordContext ⟨"in.jsonl", "in.jsonl"⟩) "in.jsonl" ≠
        .ok (Text.encode
          (Archive.sanitize (Text.encode recordText.toList)).output.toList) := by
  refine ⟨rfl, rfl, ?_⟩
  have hempty : outputContents (run recordContext ⟨"in.jsonl", "in.jsonl"⟩) "in.jsonl" = .ok [] :=
    rfl
  rw [hempty, sanitize_recordText, ne_eq, Except.ok.injEq, eq_comm, encode_eq_nil_iff]
  simp [Archive.Run.output, String.append_eq_empty_iff]

end

end GoldenFixtures.Command.SanitizeJsonl
