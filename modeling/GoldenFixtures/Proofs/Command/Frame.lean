import GoldenFixtures.Command.Tool
import GoldenFixtures.Proofs.Command.SanitizeJsonl
import GoldenFixtures.Proofs.Command.SbomMerge
import GoldenFixtures.Proofs.Sbom.Stored

/-!
# What the tools change

`verify-event-order` changes no file.  `sanitize-jsonl` changes the file of its output,
and nothing if it cannot open its input and output; an output that is not the input
holds the records of the lines that were sanitized, also where a line fails
(`SanitizeJsonl.isFramed_run`).  `sbom-merge` changes its output and the directories
above it.  A command line that does not run its tool changes nothing.  `run_isFramed`
puts this together.
-/

namespace GoldenFixtures.Command

/-! ## The output of `sanitize-jsonl` -/

namespace SanitizeJsonl

section

variable {context : Context} {tree after : FileTree} {options : Options} {path : Path}
  {input output : Channel} {place : Location} {outcome : Outcome} {error : Archive.Error}
  {contents : List UInt8}

/-- What a run may change and what it leaves behind. -/
structure IsFramed (context : Context) (options : Options) (outcome : Outcome) : Prop where
  /-- A place that changes is that of the output. -/
  changed : ∀ place, outcome.tree.entry? place ≠ context.tree.entry? place →
    options.output ≠ standardPath ∧ outcome.tree.Denotes options.output place
  /-- Nothing changes unless the settings can be read, and both files opened. -/
  closed : (¬ ∃ input output after, Opens context options input output after) →
    outcome.code = 1 ∧ outcome.stdout = "" ∧ outcome.tree = context.tree
  /-- If no line fails, the run does not, and the output holds all records. -/
  finished : ∀ input output after contents, Opens context options input output after →
    ¬ IsOwnOutput context.tree options → inputContents context options.input = .ok contents →
    (Archive.sanitize contents).error? = none →
    outcome.code = 0 ∧
      outputContents outcome options.output =
        .ok (Text.encode (Archive.sanitize contents).output.toList)
  /-- If a line fails, the output holds the records of the lines in front of it. -/
  stopped : ∀ input output after contents error, Opens context options input output after →
    ¬ IsOwnOutput context.tree options → inputContents context options.input = .ok contents →
    (Archive.sanitize contents).error? = some error →
    ∃ number, Archive.IsStopped contents number error ∧ outcome.code = 1 ∧
      ∃ records,
        Archive.sanitizeLines {} 1 ((Text.byteLines contents).take (number - 1)) =
          ⟨records, none⟩ ∧
        outputContents outcome options.output =
          .ok (Text.encode (Archive.Run.output ⟨records, none⟩).toList)
  /-- If the input cannot be read at all, the output is empty. -/
  unreadable : ∀ input output after error, Opens context options input output after →
    inputContents context options.input = .error error →
    outcome.code = 1 ∧ outputContents outcome options.output = .ok []

/-- What is delivered changes nothing but the output. -/
theorem denotes_of_deliver (hwf : tree.IsWellFormed)
    (houtput : openOutput tree path = .ok (output, after)) (text : String)
    (hplace : FileTree.entry? (deliver after output text).1 place ≠ tree.entry? place) :
    path ≠ standardPath ∧ (deliver after output text).1.Denotes path place := by
  rcases openOutput_eq_ok_iff.mp houtput with
    ⟨rfl, rfl, rfl⟩ | ⟨hpath, location, hwritable, rfl, rfl⟩
  · exact absurd rfl hplace
  · simp only [deliver, FileTree.set_set] at hplace ⊢
    exact ⟨hpath, FileTree.denotes_of_set_file hwf hwritable hplace⟩

/-- What is sanitized is on the output then, be the input sanitized to its end or not. -/
theorem outputContents_run (hwf : context.tree.IsWellFormed)
    (hopens : Opens context options input output after) :
    outputContents (run context options) options.output =
      .ok (Text.encode (sanitize context after input).output.toList) := by
  rw [run_of_opens hopens]
  split
  · exact outputContents_of_open hwf hopens.output _
  · exact outputContents_of_open hwf hopens.output _

theorem code_run_of_error (hopens : Opens context options input output after)
    (herror : (sanitize context after input).error? = some error) :
    (run context options).code = 1 := by
  rw [run_of_opens hopens, herror]
  rfl

/-- An input that is the output can be read, since a file is written there. -/
theorem not_own_of_inputContents {reason : FileError} (hwf : context.tree.IsWellFormed)
    (h : inputContents context options.input = .error reason) :
    ¬ IsOwnOutput context.tree options := by
  rintro ⟨location, opened, hinput, houtput⟩
  rcases openOutput_eq_ok_iff.mp houtput with ⟨_, hstandard, _⟩ | ⟨_, place, hwritable, hsame, _⟩
  · exact nomatch hstandard
  · obtain rfl := Channel.place.inj hsame
    have hplace := FileTree.isFilePlace_of_writable hwf hwritable
    obtain ⟨⟨contents, hcontents⟩, -⟩ := inputContents_of_own hinput hplace
    exact nomatch h.symm.trans hcontents

theorem sanitize_of_not_own (hopens : Opens context options input output after)
    (hown : ¬ IsOwnOutput context.tree options)
    (hcontents : inputContents context options.input = .ok contents) :
    sanitize context after input = Archive.sanitize contents := by
  rw [sanitize_of_openInput hopens.input (entryAt_of_not_own hopens hown), hcontents]

/-- A run changes nothing but its output, and leaves there what was sanitized up to the
first line that fails: the lines in front of that one have records. -/
theorem isFramed_run (hwf : context.tree.IsWellFormed) (options : Options) :
    IsFramed context options (run context options) := by
  constructor
  · intro place hplace
    rcases opens_or_failed context options with ⟨input, output, after, hopens⟩ | ⟨_, hfailed⟩
    · have htree : (run context options).tree =
          (deliver after output (sanitize context after input).output).1 := by
        rw [run_of_opens hopens]
        split
        · rfl
        · rfl
      rw [htree] at hplace ⊢
      exact denotes_of_deliver hwf hopens.output _ hplace
    · rw [hfailed] at hplace
      exact absurd rfl hplace
  · intro hclosed
    obtain ⟨message, hfailed⟩ := (opens_or_failed context options).resolve_left hclosed
    rw [hfailed]
    exact ⟨rfl, rfl, rfl⟩
  · intro input output after contents hopens hown hcontents hnone
    have hsanitize := sanitize_of_not_own hopens hown hcontents
    have houtput := outputContents_run hwf hopens
    rw [hsanitize] at houtput
    refine ⟨?_, houtput⟩
    rw [run_of_opens hopens, hsanitize, hnone]
    rfl
  · intro input output after contents error hopens hown hcontents herror
    have hsanitize := sanitize_of_not_own hopens hown hcontents
    have houtput := outputContents_run hwf hopens
    have hcode := code_run_of_error hopens (by rw [hsanitize, herror])
    obtain ⟨number, hstopped⟩ := Archive.isStopped herror
    obtain ⟨records, hfront, hrecords⟩ := hstopped.take
    refine ⟨number, hstopped, hcode, records, hfront, ?_⟩
    rw [houtput, hsanitize, hrecords]
  · intro input output after reason hopens hcontents
    have hown := not_own_of_inputContents hwf hcontents
    have hsanitize : sanitize context after input = ⟨[], some (.unreadable reason)⟩ := by
      rw [sanitize_of_openInput hopens.input (entryAt_of_not_own hopens hown), hcontents]
    have houtput := outputContents_run hwf hopens
    have hcode := code_run_of_error hopens (by rw [hsanitize])
    rw [hsanitize] at houtput
    exact ⟨hcode, houtput⟩

end

end SanitizeJsonl

/-! ## The tools -/

theorem VerifyEventOrder.tree_run (context : Context) (paths : List Path) :
    (VerifyEventOrder.run context paths).tree = context.tree := by
  unfold VerifyEventOrder.run withSettings
  split
  · rfl
  · rfl

section

variable {context : Context} {tool : Tool} {line : List String} {stop : Stop}
  {arguments : Arguments}

theorem Tool.run_of_arguments (h : tool.arguments line = .ok arguments) :
    tool.run context line = tool.runArguments context arguments := by
  unfold Tool.run
  rw [h]

/-- A command line that does not run its tool changes nothing. -/
theorem Tool.tree_run_of_stop (h : tool.arguments line = .error stop) :
    (tool.run context line).tree = context.tree := by
  unfold Tool.run
  rw [h]
  cases stop with
  | usage => rfl
  | help => rfl
  | version => rfl

/-- **What the tools change.**  The verifier changes nothing, and nor does a tool that
does not run.  The sanitizer changes its output, and the merger its output and the
missing directories above it; on success the merger has written the merge of what there
was at the start. -/
theorem run_isFramed (hwf : context.tree.IsWellFormed) (line : List String) :
    (Tool.verifyEventOrder.run context line).tree = context.tree ∧
      (∀ tool stop, Tool.arguments tool line = .error stop →
        (tool.run context line).tree = context.tree) ∧
      (∀ arguments, Tool.sanitizeJsonl.arguments line = .ok arguments →
        SanitizeJsonl.IsFramed context (.ofArguments arguments)
          (Tool.sanitizeJsonl.run context line)) ∧
      ∀ arguments, Tool.sbomMerge.arguments line = .ok arguments →
        SbomMerge.IsFramed context (.ofArguments arguments) (Tool.sbomMerge.run context line) := by
  refine ⟨?_, fun tool stop => Tool.tree_run_of_stop, ?_, ?_⟩
  · cases harguments : Tool.verifyEventOrder.arguments line with
    | error stop => exact Tool.tree_run_of_stop harguments
    | ok arguments =>
      rw [Tool.run_of_arguments harguments]
      exact VerifyEventOrder.tree_run context arguments.paths
  · intro arguments harguments
    rw [Tool.run_of_arguments harguments]
    exact SanitizeJsonl.isFramed_run hwf _
  · intro arguments harguments
    rw [Tool.run_of_arguments harguments]
    exact SbomMerge.isFramed_run hwf _

/-- A line with one record, and a line that is no JSON. -/
def mixedText : List Char := SanitizeJsonl.recordText.toList ++ ['\n', 'x']

/-- A file with the two lines, and a directory with bills of materials. -/
def mixedContext : Context where
  tree := { entries := (["in.jsonl"], .file (Text.encode mixedText)) :: Sbom.waitingTree.entries }
  environment := fun _ => none
  stdin := []

/-- How the second line fails. -/
def mixedError : Archive.Error := .atLine 2 (.invalidJson ⟨.expectedValue, 1, 1⟩)

theorem error?_mixedText :
    (Archive.sanitize (Text.encode mixedText)).error? = some mixedError := by
  have hbytes : Text.encode mixedText =
      Text.encode SanitizeJsonl.recordText.toList ++ 10 :: Text.encode ['x'] := by
    rw [mixedText, Text.encode_append]
    rfl
  have hlast : Text.byteLines (Text.encode ['x']) = [Text.encode ['x']] := by decide
  have hread : Json.Value.read ['x'] = .error ⟨.expectedValue, 1, 1⟩ := by rfl
  have htrim : Text.trim ['x'] = ['x'] := by decide
  have hfails : ∀ roster, Archive.LineFails roster 2 (Text.encode ['x']) mixedError := by
    intro roster
    refine .problem (Text.decode?_encode _) ?_
    unfold Archive.Roster.sanitizeLine
    rw [htrim]
    simp [hread]
  unfold Archive.sanitize
  rw [hbytes, Text.byteLines_append_newline SanitizeJsonl.newline_notMem_recordText, hlast,
    SanitizeJsonl.sanitizeLines_recordText, Archive.sanitizeLines_cons_of_fails (hfails _)]
  rfl

/-- A command line that sanitizes the file with the two lines. -/
def sanitizeLine : List String := ["-i", "in.jsonl", "-o", "out.jsonl"]

/-- A command line that writes the merge over one of the documents that are merged. -/
def mergeLine : List String := ["--root", "box", "--out", "box/b.cdx.json"]

theorem opens_mixedContext :
    SanitizeJsonl.Opens mixedContext ⟨"in.jsonl", "out.jsonl"⟩ (.place ["in.jsonl"])
      (.place ["out.jsonl"]) (mixedContext.tree.set ["out.jsonl"] (.file [])) :=
  ⟨⟨⟨"warn", .text⟩, rfl⟩, rfl, rfl⟩

theorem not_isOwnOutput_mixedContext :
    ¬ SanitizeJsonl.IsOwnOutput mixedContext.tree ⟨"in.jsonl", "out.jsonl"⟩ := by
  rintro ⟨location, opened, hinput, houtput⟩
  have hin := Except.ok.inj (hinput.symm.trans opens_mixedContext.input)
  have hout := congrArg Prod.fst (Except.ok.inj (houtput.symm.trans opens_mixedContext.output))
  exact absurd (hin.symm.trans hout) (by decide)

/-- The file with the two lines is sanitized up to the second one, and the merge is
written. -/
theorem run_isFramed_mixedContext :
    mixedContext.tree.IsWellFormed ∧
      (Tool.verifyEventOrder.run mixedContext ["box"]).tree = mixedContext.tree ∧
      (Tool.sbomMerge.run mixedContext ["--help"]).tree = mixedContext.tree ∧
      (∃ number records, Archive.IsStopped (Text.encode mixedText) number mixedError ∧
        Archive.sanitizeLines {} 1 ((Text.byteLines (Text.encode mixedText)).take (number - 1)) =
          ⟨records, none⟩ ∧
        SanitizeJsonl.outputContents (Tool.sanitizeJsonl.run mixedContext sanitizeLine)
            "out.jsonl" =
          .ok (Text.encode (Archive.Run.output ⟨records, none⟩).toList)) ∧
      (Tool.sbomMerge.run mixedContext mergeLine).code = 0 ∧
      (Tool.sbomMerge.run mixedContext mergeLine).tree.readBytes "box/b.cdx.json" =
        .ok (Text.encode (Sbom.mergeTree mixedContext.tree "box").render.toList) := by
  have hwf : mixedContext.tree.IsWellFormed := by decide
  have hhelp : Tool.sbomMerge.arguments ["--help"] = .error .help := by decide +kernel
  have hsanitize : Tool.sanitizeJsonl.arguments sanitizeLine =
      .ok { values := [("input", "in.jsonl"), ("output", "out.jsonl")] } := by decide +kernel
  have hmerge : Tool.sbomMerge.arguments mergeLine =
      .ok { values := [("root", "box"), ("out", "box/b.cdx.json")] } := by decide +kernel
  have hcode : (Tool.sbomMerge.run mixedContext mergeLine).code = 0 := by decide +kernel
  obtain ⟨hverify, -, -, -⟩ := run_isFramed hwf ["box"]
  obtain ⟨-, hstop, -, -⟩ := run_isFramed hwf ["--help"]
  obtain ⟨-, -, hsanitizes, -⟩ := run_isFramed hwf sanitizeLine
  obtain ⟨-, -, -, hmerges⟩ := run_isFramed hwf mergeLine
  obtain ⟨number, hstopped, -, records, hfront, houtput⟩ := (hsanitizes _ hsanitize).stopped
    _ _ _ _ _ opens_mixedContext not_isOwnOutput_mixedContext rfl error?_mixedText
  have hmerged := ((hmerges _ hmerge).merged hcode).2
  exact ⟨hwf, hverify, hstop _ _ hhelp, ⟨number, records, hstopped, hfront, houtput⟩, hcode,
    hmerged⟩

end

end GoldenFixtures.Command
