import GoldenFixtures.Proofs.Command.NormalizeTranscripts.Steps

/-!
# Checking transcripts

With `--check`, `normalize-transcripts` writes nothing, whatever the other options
ask for.  It succeeds exactly if every file is in normal form, it tells which files
are not, and a file without a normal form is the only one that it speaks of
(`run_check`).

What it tells is given word for word.  That is what it prints to its error output itself;
the log stands in front of it there, whatever it is that prints the log (`Logs`).  The log has a
record of each file that was normalized.
-/

namespace GoldenFixtures.Command.NormalizeTranscripts

/-- The file of a path holds the bytes of a text that is its own normal form. -/
def IsNormal (tree : FileTree) (path : Path) : Prop :=
  ∃ text, tree.readBytes path = .ok (Text.encode text.toList) ∧
    Transcript.normalize text = .ok text

/-- The file of a path holds a text that has a normal form. -/
def HasNormalForm (tree : FileTree) (path : Path) : Prop :=
  ∃ text output, Normalizes tree path text output

/-- The file of a path has no normal form, as it is told.  Nothing is told of a timestamp
past the last year, at which a run breaks off. -/
inductive Complains (tree : FileTree) (path : Path) : String → Prop where
  | unreadable {error : FileError} : tree.readText path = .error error →
    Complains tree path ("failed to read " ++ path ++ ": " ++ error.message)
  | invalid {text : String} {error : Transcript.Error} : tree.readText path = .ok text →
    Transcript.normalize text = .error error → error ≠ .timestampPastLastYear →
    Complains tree path (path ++ ": " ++ error.message)

/-- The file of a path holds a text at which a run breaks off. -/
def BreaksOff (tree : FileTree) (path : Path) : Prop :=
  ∃ text, tree.readText path = .ok text ∧
    Transcript.normalize text = .error .timestampPastLastYear

/-- The words in front of the path of a file that is not in normal form. -/
def differsWords (environment : Environment) : String :=
  if coloured environment then "\x1b[33mwould reformat\x1b[0m" else "would reformat"

/-- The word in front of an error. -/
def errorWord (environment : Environment) : String :=
  if coloured environment then "\x1b[1;31mError:\x1b[0m" else "Error:"

/-- The whole error output of a run is the log with these records, and then these lines. -/
def Logs (context : Context) (options : Options) (records : List Log.Record) (lines : String) :
    Prop :=
  ∀ (Filter : Type) (library : Log.Library Filter) (settings : Settings),
    Settings.read context.environment = .ok settings →
    errorOutput library context options =
      library.print context.environment settings records ++ lines

section

variable {context : Context} {options : Options} {progress : Progress} {tree : FileTree}
  {path : Path} {paths front back : List Path} {failure : Failure} {text output : String}
  {settings : Settings}

theorem isNormal_iff_of_readText (h : tree.readText path = .ok text) :
    IsNormal tree path ↔ Transcript.normalize text = .ok text := by
  constructor
  · intro hnormal
    obtain ⟨other, hbytes, hother⟩ := hnormal
    rw [← FileTree.readText_eq_ok_iff] at hbytes
    rwa [Except.ok.inj (h.symm.trans hbytes)]
  · intro hnormal
    exact ⟨text, FileTree.readText_eq_ok_iff.mp h, hnormal⟩

theorem not_isNormal_of_readText {error : FileError} (h : tree.readText path = .error error) :
    ¬ IsNormal tree path := by
  intro hnormal
  obtain ⟨text, hbytes, -⟩ := hnormal
  exact nomatch h.symm.trans (FileTree.readText_eq_ok_iff.mpr hbytes)

instance (tree : FileTree) (path : Path) : Decidable (IsNormal tree path) :=
  match h : tree.readText path with
  | .ok _ => decidable_of_iff _ (isNormal_iff_of_readText h).symm
  | .error _ => isFalse (not_isNormal_of_readText h)

theorem Normalizes.isNormal_iff (h : Normalizes tree path text output) :
    IsNormal tree path ↔ output = text := by
  rw [isNormal_iff_of_readText h.read, h.normal, Except.ok.injEq]

theorem Normalizes.isChanged_eq (h : Normalizes tree path text output) :
    Transcript.isChanged text output = decide (¬ IsNormal tree path) := by
  rw [Bool.eq_iff_iff, decide_eq_true_iff, h.isNormal_iff]
  simp [Transcript.isChanged]

/-- The records of files with normal forms. -/
def checkedRecords (tree : FileTree) (paths : List Path) : List Log.Record :=
  paths.map fun path =>
    ⟨.debug, "normalize_transcripts", "Normalized transcript",
      [("path", .text path), ("changed", .flag (¬ IsNormal tree path))]⟩

theorem IsNormal.hasNormalForm (h : IsNormal tree path) : HasNormalForm tree path := by
  obtain ⟨text, hbytes, hnormal⟩ := h
  exact ⟨text, text, FileTree.readText_eq_ok_iff.mpr hbytes, hnormal⟩

theorem Refuses.not_isNormal (h : Refuses tree path failure) : ¬ IsNormal tree path := by
  intro hnormal
  obtain ⟨text, output, houtput⟩ := hnormal.hasNormalForm
  exact h.not_normalizes houtput

/-- All files have normal forms, or there is a first one that has none. -/
theorem hasNormalForm_or_refuses (tree : FileTree) (paths : List Path) :
    (∀ path ∈ paths, HasNormalForm tree path) ∨
      ∃ front path back failure, paths = front ++ path :: back ∧
        (∀ earlier ∈ front, HasNormalForm tree earlier) ∧ Refuses tree path failure := by
  induction paths with
  | nil => exact Or.inl (by simp)
  | cons path paths ih =>
    rcases refuses_or_normalizes tree path with ⟨failure, hrefuses⟩ | hform
    · exact Or.inr ⟨[], path, paths, failure, rfl, by simp, hrefuses⟩
    · rcases ih with hall | ⟨front, next, back, failure, rfl, hfront, hrefuses⟩
      · exact Or.inl (List.forall_mem_cons.mpr ⟨hform, hall⟩)
      · exact Or.inr ⟨path :: front, next, back, failure, rfl,
          List.forall_mem_cons.mpr ⟨hform, hfront⟩, hrefuses⟩

/-- Only one file is the first one without a normal form. -/
theorem eq_of_first_split {other : Path} {before behind : List Path}
    (h : front ++ path :: back = before ++ other :: behind)
    (hfront : ∀ earlier ∈ front, HasNormalForm tree earlier) (hpath : ¬ HasNormalForm tree path)
    (hbefore : ∀ earlier ∈ before, HasNormalForm tree earlier)
    (hother : ¬ HasNormalForm tree other) : path = other := by
  induction front generalizing before with
  | nil =>
    cases before with
    | nil => exact (List.cons.inj h).1
    | cons first before =>
      obtain rfl := (List.cons.inj h).1
      exact absurd (hbefore path List.mem_cons_self) hpath
  | cons first front ih =>
    rw [List.forall_mem_cons] at hfront
    cases before with
    | nil =>
      obtain rfl := (List.cons.inj h).1
      exact absurd hfront.1 hother
    | cons next before =>
      exact ih (List.cons.inj h).2 hfront.2 (List.forall_mem_cons.mp hbefore).2

theorem Refuses.not_hasNormalForm (h : Refuses tree path failure) :
    ¬ HasNormalForm tree path := by
  intro hform
  obtain ⟨text, output, houtput⟩ := hform
  exact h.not_normalizes houtput

/-- A file that is refused is told of, or the run breaks off at it. -/
theorem Refuses.complains_or_breaksOff (h : Refuses tree path failure) :
    Complains tree path failure.message ∧ failure ≠ .invalid path .timestampPastLastYear ∨
      BreaksOff tree path := by
  cases h with
  | unreadable hread => exact Or.inl ⟨.unreadable hread, nofun⟩
  | @invalid text error hread hinvalid =>
    by_cases hlast : error = .timestampPastLastYear
    · right
      rw [hlast] at hinvalid
      exact ⟨text, hread, hinvalid⟩
    · refine Or.inl ⟨.invalid hread hinvalid hlast, fun hsame => hlast ?_⟩
      exact (Failure.invalid.inj hsame).2

/-! ## Words -/

theorem driftLines_eq (environment : Environment) (paths : List Path) :
    driftLines environment paths =
      String.join (paths.map fun path => differsWords environment ++ " " ++ path ++ "\n") := by
  have hwords : Style.warning.paint (coloured environment) "would reformat" =
      differsWords environment := by
    unfold differsWords
    cases coloured environment <;> rfl
  unfold driftLines
  rw [hwords]

theorem errorLine_eq (environment : Environment) (message : String) :
    Outcome.errorLine environment message = errorWord environment ++ " " ++ message ++ "\n" := by
  have hword : Style.error.paint (coloured environment) "Error:" = errorWord environment := by
    unfold errorWord
    cases coloured environment <;> rfl
  unfold Outcome.errorLine
  rw [hword]

/-! ## Steps -/

/-- What was done when these files were checked too: the paths of those that are
not in normal form were noted. -/
def Progress.check (progress : Progress) (paths : List Path) : Progress :=
  { progress with
    changed := progress.changed ++ paths.filter fun path => ¬ IsNormal progress.tree path }

theorem Progress.check_check (progress : Progress) (front back : List Path) :
    (progress.check front).check back = progress.check (front ++ back) := by
  simp [Progress.check]

/-- A step writes and prints nothing. -/
theorem step_check (hcheck : options.check = true) (h : HasNormalForm progress.tree path) :
    step options progress path = .ok (progress.check [path]) := by
  obtain ⟨text, output, hnormalizes⟩ := h
  have hplace (changed : Bool) : place options progress path output changed = .ok progress := by
    unfold place
    rw [if_pos hcheck]
  rw [step_of_normalizes options hnormalizes, hplace, hnormalizes.isChanged_eq]
  by_cases hnormal : IsNormal progress.tree path
  · simp [hnormal, Except.map, Progress.check]
  · simp [hnormal, Except.map, Progress.check]

theorem steps_check (hcheck : options.check = true)
    (h : ∀ path ∈ paths, HasNormalForm progress.tree path) :
    steps options progress paths = (progress.check paths, none) := by
  induction paths generalizing progress with
  | nil => simp [steps, Progress.check]
  | cons path paths ih =>
    rw [List.forall_mem_cons] at h
    have hpaths : steps options (progress.check [path]) paths =
        ((progress.check [path]).check paths, none) := ih h.2
    rw [steps, step_check hcheck h.1]
    simp only [hpaths, Progress.check_check, List.singleton_append]

/-- The steps end at the first file without a normal form. -/
theorem steps_check_of_refuses (hcheck : options.check = true)
    (hfront : ∀ path ∈ front, HasNormalForm progress.tree path)
    (h : Refuses progress.tree path failure) :
    steps options progress (front ++ path :: back) = (progress.check front, some failure) := by
  have hstep : step options (progress.check front) path = .error failure :=
    step_of_refuses options h
  rw [steps_append, steps_check hcheck hfront]
  simp only [steps, hstep]

/-! ## The log -/

theorem stepLog_of_hasNormalForm (h : HasNormalForm progress.tree path) :
    stepLog progress path = checkedRecords progress.tree [path] := by
  obtain ⟨text, output, hnormalizes⟩ := h
  unfold stepLog
  rw [hnormalizes.read]
  simp only [hnormalizes.normal, hnormalizes.isChanged_eq]
  rfl

/-- Files with normal forms are logged one after the other. -/
theorem stepsLog_append (hcheck : options.check = true)
    (hfront : ∀ path ∈ front, HasNormalForm progress.tree path) :
    stepsLog options progress (front ++ back) =
      checkedRecords progress.tree front ++ stepsLog options (progress.check front) back := by
  induction front generalizing progress with
  | nil => simp [checkedRecords, Progress.check]
  | cons path front ih =>
    rw [List.forall_mem_cons] at hfront
    have hrest : stepsLog options (progress.check [path]) (front ++ back) =
        checkedRecords progress.tree front ++
          stepsLog options ((progress.check [path]).check front) back := ih hfront.2
    rw [List.cons_append, stepsLog, stepLog_of_hasNormalForm hfront.1, step_check hcheck hfront.1]
    simp only [hrest, Progress.check_check, List.singleton_append, ← List.append_assoc]
    rfl

theorem stepsLog_of_refuses (options : Options) (h : Refuses progress.tree path failure) :
    stepsLog options progress (path :: back) = [] := by
  have hstep : stepLog progress path = [] := by
    unfold stepLog
    cases h with
    | unreadable hread => rw [hread]
    | invalid hread hinvalid =>
      rw [hread]
      simp only [hinvalid]
  rw [stepsLog, hstep, step_of_refuses options h, List.nil_append]

theorem logs_of_log {records : List Log.Record} (h : log context options = records) :
    Logs context options records (run context options).stderr := by
  intro Filter library settings hsettings
  unfold errorOutput
  rw [hsettings, h]

/-! ## Runs -/

/-- With `--check` options agree unless there is one output for several files. -/
theorem conflict?_check (hcheck : options.check = true) (hpaths : options.paths ≠ []) :
    options.conflict? =
      if options.output.isSome ∧ 1 < options.paths.length then some .outputOfSeveral else none := by
  have hlength : 0 < options.paths.length := List.length_pos_of_ne_nil hpaths
  have hseveral : (options.paths.length != 1) = decide (1 < options.paths.length) := by
    by_cases h : 1 < options.paths.length
    · simp [h, Nat.ne_of_gt h]
    · have hone : options.paths.length = 1 := by omega
      simp [hone]
  unfold Options.conflict?
  simp [hcheck, hseveral]

/-- If every file has a normal form, the files that differ from theirs are told. -/
theorem run_check_of_forms (hcheck : options.check = true)
    (hsettings : Settings.read context.environment = .ok settings)
    (hconflict : options.conflict? = none)
    (h : ∀ path ∈ options.paths, HasNormalForm context.tree path) :
    run context options =
      ⟨if (options.paths.filter fun path => ¬ IsNormal context.tree path) = [] then 0 else 1, "",
        driftLines context.environment
          (options.paths.filter fun path => ¬ IsNormal context.tree path), context.tree⟩ := by
  have hsteps : steps options { tree := context.tree } options.paths =
      (Progress.check { tree := context.tree } options.paths, none) := steps_check hcheck h
  have hchanged : (Progress.check { tree := context.tree } options.paths).changed =
      options.paths.filter fun path => ¬ IsNormal context.tree path := List.nil_append _
  rw [run_of_end hsettings hconflict hsteps, hchanged, hcheck, Bool.true_and]
  cases options.paths.filter fun path => ¬ IsNormal context.tree path with
  | nil => rfl
  | cons path paths => rfl

theorem log_check_of_forms (hcheck : options.check = true) (hconflict : options.conflict? = none)
    (h : ∀ path ∈ options.paths, HasNormalForm context.tree path) :
    log context options =
      checkedRecords context.tree options.paths ++
        [⟨.info, "normalize_transcripts", "Normalization finished",
          [("files", .number options.paths.length),
            ("changed", .number
              (options.paths.filter fun path => ¬ IsNormal context.tree path).length),
            ("check", .flag true)]⟩] := by
  have hlog : stepsLog options { tree := context.tree } (options.paths ++ []) = _ :=
    stepsLog_append hcheck h
  rw [List.append_nil] at hlog
  unfold log
  rw [hconflict, hlog, stepsLog, finishedRecord, hcheck]
  rfl

/-- A file without a normal form ends the run. -/
theorem run_check_of_refuses (hcheck : options.check = true)
    (hsettings : Settings.read context.environment = .ok settings)
    (hconflict : options.conflict? = none) (hpaths : options.paths = front ++ path :: back)
    (hfront : ∀ earlier ∈ front, HasNormalForm context.tree earlier)
    (h : Refuses context.tree path failure) :
    run context options =
      stopped context (Progress.check { tree := context.tree } front) failure := by
  apply run_of_failure hsettings hconflict
  rw [hpaths]
  exact steps_check_of_refuses hcheck hfront h

theorem log_check_of_refuses (hcheck : options.check = true)
    (hconflict : options.conflict? = none) (hpaths : options.paths = front ++ path :: back)
    (hfront : ∀ earlier ∈ front, HasNormalForm context.tree earlier)
    (h : Refuses context.tree path failure) :
    log context options = checkedRecords context.tree front := by
  have hlog : stepsLog options { tree := context.tree } (front ++ path :: back) = _ :=
    stepsLog_append hcheck hfront
  have hend : Refuses (Progress.check { tree := context.tree } front).tree path failure := h
  unfold log
  rw [hconflict, hpaths, hlog, stepsLog_of_refuses options hend, List.append_nil]

/-- The settings are read, and there is no one output for several files. -/
structure Accepts (environment : Environment) (options : Options) : Prop where
  settings : ∃ settings, Settings.read environment = .ok settings
  output : ¬ (options.output.isSome ∧ 1 < options.paths.length)

/-- What may come out of a run that checks files. -/
inductive Checks (context : Context) (options : Options) : Outcome → Prop where
  | rejected {message : String} : ¬ Accepts context.environment options →
    Checks context options (.failed context context.tree "" message)
  | told : Accepts context.environment options →
    (∀ path ∈ options.paths, HasNormalForm context.tree path) →
    Checks context options
      ⟨if (options.paths.filter fun path => ¬ IsNormal context.tree path) = [] then 0 else 1, "",
        driftLines context.environment
          (options.paths.filter fun path => ¬ IsNormal context.tree path), context.tree⟩
  | refused {front back : List Path} {path : Path} {failure : Failure} :
    Accepts context.environment options → options.paths = front ++ path :: back →
    (∀ earlier ∈ front, HasNormalForm context.tree earlier) →
    Refuses context.tree path failure →
    Checks context options (stopped context (Progress.check { tree := context.tree } front) failure)

theorem checks_run (context : Context) (hcheck : options.check = true)
    (hpaths : options.paths ≠ []) : Checks context options (run context options) := by
  cases hsettings : Settings.read context.environment with
  | error error =>
    have hrun : run context options =
        .failed context context.tree "" (Settings.errorMessage error) := by
      unfold run withSettings
      rw [hsettings]
    rw [hrun]
    refine .rejected fun haccepts => ?_
    obtain ⟨settings, hread⟩ := haccepts.settings
    exact nomatch hsettings.symm.trans hread
  | ok settings =>
    have hconflict := conflict?_check hcheck hpaths
    by_cases hseveral : options.output.isSome ∧ 1 < options.paths.length
    · rw [if_pos hseveral] at hconflict
      have hrun : run context options =
          .failed context context.tree "" Conflict.outputOfSeveral.message := by
        unfold run withSettings
        simp only [hsettings, hconflict]
      rw [hrun]
      exact .rejected fun haccepts => haccepts.output hseveral
    · rw [if_neg hseveral] at hconflict
      have haccepts : Accepts context.environment options := ⟨⟨settings, hsettings⟩, hseveral⟩
      rcases hasNormalForm_or_refuses context.tree options.paths with
        hforms | ⟨front, path, back, failure, hsplit, hfront, hrefuses⟩
      · rw [run_check_of_forms hcheck hsettings hconflict hforms]
        exact .told haccepts hforms
      · rw [run_check_of_refuses hcheck hsettings hconflict hsplit hfront hrefuses]
        exact .refused haccepts hsplit hfront hrefuses

theorem Checks.keeps {outcome : Outcome} (h : Checks context options outcome) :
    outcome.tree = context.tree ∧ outcome.stdout = "" := by
  cases h with
  | rejected _ => exact ⟨rfl, rfl⟩
  | told _ _ => exact ⟨rfl, rfl⟩
  | refused _ _ _ _ => exact ⟨stopped_tree _ _ _, stopped_stdout _ _ _⟩

theorem Checks.code_eq_zero_iff {outcome : Outcome} (h : Checks context options outcome) :
    outcome.code = 0 ↔ Accepts context.environment options ∧
      ∀ path ∈ options.paths, IsNormal context.tree path := by
  cases h with
  | rejected hrejects => simp [Outcome.failed, hrejects]
  | told haccepts _ => simp [haccepts, List.filter_eq_nil_iff]
  | @refused front back path failure _ hsplit _ hrefuses =>
    have hnot : ¬ ∀ path ∈ options.paths, IsNormal context.tree path := by
      intro hall
      refine hrefuses.not_isNormal (hall path ?_)
      rw [hsplit]
      exact List.mem_append_right _ List.mem_cons_self
    constructor
    · intro hcode
      exact absurd hcode (stopped_code_ne_zero _ _ _)
    · intro h
      exact absurd h.2 hnot

theorem Accepts.conflict?_eq_none (h : Accepts context.environment options)
    (hcheck : options.check = true) (hpaths : options.paths ≠ []) : options.conflict? = none := by
  rw [conflict?_check hcheck hpaths, if_neg h.output]

/-- A run with `--check` leaves the files alone and prints nothing to its output.
It succeeds if the settings are read, there is no one output for several files, and
every file is in normal form.  If the files have normal forms, it tells which of
them differ, as often as they are given; else it tells why the first one has none,
unless it broke off there.  Nothing else comes to its error output but the log, which has a
record of each file with a normal form up to there, and one of the end. -/
theorem run_check {line : List String} {arguments : Arguments} (context : Context)
    (harguments : Tool.normalizeTranscripts.arguments line = .ok arguments)
    (hcheck : arguments.has "check" = true) :
    ∃ outcome, Tool.normalizeTranscripts.run context line = outcome ∧
      outcome.tree = context.tree ∧ outcome.stdout = "" ∧
      (outcome.code = 0 ↔ Accepts context.environment (.ofArguments arguments) ∧
        ∀ path ∈ arguments.paths, IsNormal context.tree path) ∧
      (Accepts context.environment (.ofArguments arguments) →
        ((∀ path ∈ arguments.paths, HasNormalForm context.tree path) →
          ∃ differing, differing =
              arguments.paths.filter (fun path => ¬ IsNormal context.tree path) ∧
            outcome.code = (if differing = [] then 0 else 1) ∧
            outcome.stderr = String.join (differing.map fun path =>
              differsWords context.environment ++ " " ++ path ++ "\n") ∧
            Logs context (.ofArguments arguments)
              (checkedRecords context.tree arguments.paths ++
                [⟨.info, "normalize_transcripts", "Normalization finished",
                  [("files", .number arguments.paths.length),
                    ("changed", .number differing.length), ("check", .flag true)]⟩])
              outcome.stderr) ∧
        ((∃ path ∈ arguments.paths, ¬ HasNormalForm context.tree path) →
          ∃ front path back, arguments.paths = front ++ path :: back ∧
            (∀ earlier ∈ front, HasNormalForm context.tree earlier) ∧
            ¬ HasNormalForm context.tree path ∧
            (BreaksOff context.tree path ∨
              ∃ message, Complains context.tree path message ∧ outcome.code = 1 ∧
                outcome.stderr = errorWord context.environment ++ " " ++ message ++ "\n") ∧
            Logs context (.ofArguments arguments) (checkedRecords context.tree front)
              outcome.stderr)) := by
  let options := Options.ofArguments arguments
  have hpaths : options.paths ≠ [] := paths_ne_nil harguments
  have hchecks : Checks context options (run context options) := checks_run context hcheck hpaths
  refine ⟨run context options, run_of_arguments harguments context, hchecks.keeps.1,
    hchecks.keeps.2, hchecks.code_eq_zero_iff, ?_⟩
  intro haccepts
  obtain ⟨settings, hsettings⟩ := haccepts.settings
  have hconflict := haccepts.conflict?_eq_none hcheck hpaths
  constructor
  · intro hforms
    have hrun := run_check_of_forms hcheck hsettings hconflict hforms
    have hlog := log_check_of_forms hcheck hconflict hforms
    refine ⟨_, rfl, ?_, ?_, logs_of_log hlog⟩
    · rw [hrun]
      rfl
    · rw [hrun, driftLines_eq]
      rfl
  · intro hfails
    rcases hasNormalForm_or_refuses context.tree arguments.paths with
      hforms | ⟨front, path, back, failure, hsplit, hfront, hrefuses⟩
    · obtain ⟨path, hpath, hfails⟩ := hfails
      exact absurd (hforms path hpath) hfails
    · have hlog := log_check_of_refuses hcheck hconflict hsplit hfront hrefuses
      refine ⟨front, path, back, hsplit, hfront, hrefuses.not_hasNormalForm, ?_,
        logs_of_log hlog⟩
      rcases hrefuses.complains_or_breaksOff with ⟨hcomplains, hstays⟩ | hbreaks
      · right
        refine ⟨failure.message, hcomplains, ?_⟩
        rw [run_check_of_refuses hcheck hsettings hconflict hsplit hfront hrefuses,
          hrefuses.stopped_eq hstays, ← errorLine_eq]
        exact ⟨rfl, rfl⟩
      · exact Or.inl hbreaks

end

/-! ## Sample runs -/

/-- A log with a filter that lets nothing through, as the one of the level is that holds
where none is set. -/
def silentLibrary : Log.Library Unit where
  filter? := fun _ => some ()
  filter := fun _ => ((), "")
  line := fun _ _ _ _ => ""

theorem lines_silentLibrary (format : LogFormat) (place : Nat) (records : List Log.Record) :
    silentLibrary.lines () format place records = "" := by
  induction records generalizing place with
  | nil => rfl
  | cons record records ih =>
    rw [Log.Library.lines, ih]
    rfl

theorem print_silentLibrary (environment : Environment) (settings : Settings)
    (records : List Log.Record) : silentLibrary.print environment settings records = "" := by
  have hstart : silentLibrary.start environment settings = ((), "") := by
    unfold Log.Library.start
    split <;> rfl
  unfold Log.Library.print
  simp only [hstart, lines_silentLibrary]
  rfl

theorem readText_d : sampleTree.readText "d.json" = .ok "x" :=
  FileTree.readText_eq_ok_iff.mpr (FileTree.readBytes_of_locate rfl)

theorem normalize_x : Transcript.normalize "x" = .error (.invalidJson ⟨.expectedValue, 1, 1⟩) := by
  decide +kernel

theorem not_hasNormalForm_d : ¬ HasNormalForm sampleTree "d.json" :=
  (Refuses.invalid readText_d normalize_x).not_hasNormalForm

theorem not_breaksOff_d : ¬ BreaksOff sampleTree "d.json" := by
  rintro ⟨text, hread, hbreaks⟩
  obtain rfl := Except.ok.inj (readText_d.symm.trans hread)
  exact nomatch normalize_x.symm.trans hbreaks

theorem Complains.eq_of_d {message : String} (h : Complains sampleTree "d.json" message) :
    message = "d.json: invalid JSON: expected value at line 1 column 1" := by
  cases h with
  | unreadable hread => exact nomatch readText_d.symm.trans hread
  | invalid hread hinvalid _ =>
    obtain rfl := Except.ok.inj (readText_d.symm.trans hread)
    obtain rfl := Except.error.inj (normalize_x.symm.trans hinvalid)
    rfl

theorem readText_none : sampleTree.readText "none.json" = .error .notFound := rfl

theorem not_hasNormalForm_none : ¬ HasNormalForm sampleTree "none.json" :=
  (Refuses.unreadable readText_none).not_hasNormalForm

theorem not_breaksOff_none : ¬ BreaksOff sampleTree "none.json" := by
  rintro ⟨text, hread, -⟩
  exact nomatch readText_none.symm.trans hread

theorem Complains.eq_of_none {message : String} (h : Complains sampleTree "none.json" message) :
    message = "failed to read none.json: No such file or directory (os error 2)" := by
  cases h with
  | unreadable hread =>
    obtain rfl := Except.error.inj (readText_none.symm.trans hread)
    rfl
  | invalid hread _ _ => exact nomatch readText_none.symm.trans hread

theorem hasNormalForm_a : HasNormalForm sampleTree "a.json" := ⟨_, _, normalizes_a⟩

theorem exchangeNormal_ne : Transcript.exchangeNormal ≠ Transcript.exchange := by decide +kernel

theorem not_isNormal_a : ¬ IsNormal sampleTree "a.json" :=
  mt normalizes_a.isNormal_iff.mp exchangeNormal_ne

theorem isNormal_b : IsNormal sampleTree "b.json" := normalizes_b.isNormal_iff.mpr rfl

theorem not_isNormal_c : ¬ IsNormal sampleTree "c.json" :=
  mt normalizes_c.isNormal_iff.mp exchangeNormal_ne

/-- The files with colours asked for. -/
def colouredContext : Context :=
  ⟨sampleTree, fun name => if name = "CLICOLOR_FORCE" then some "1" else none, []⟩

/-- Four runs: over files that differ or do not, one of them given twice; over one that
differs, in colours; over files of which the second has no normal form; and over files of
which the first is not there.  The first is told with a log at the default level as well. -/
theorem run_check_sample :
    (∃ outcome, Tool.normalizeTranscripts.run sampleContext
        ["--check", "a.json", "b.json", "--in-place", "c.json", "a.json"] = outcome ∧
      outcome.tree = sampleTree ∧ outcome.stdout = "" ∧ outcome.code = 1 ∧
      outcome.stderr =
        "would reformat a.json\nwould reformat c.json\nwould reformat a.json\n" ∧
      errorOutput silentLibrary sampleContext
          ⟨["a.json", "b.json", "c.json", "a.json"], true, true, none⟩ =
        "would reformat a.json\nwould reformat c.json\nwould reformat a.json\n") ∧
    (∃ outcome, Tool.normalizeTranscripts.run colouredContext ["a.json", "--check"] = outcome ∧
      outcome.code = 1 ∧ outcome.stderr = "\x1b[33mwould reformat\x1b[0m a.json\n") ∧
    (∃ outcome, Tool.normalizeTranscripts.run sampleContext
        ["--check", "a.json", "d.json", "none.json"] = outcome ∧
      outcome.tree = sampleTree ∧ outcome.stdout = "" ∧ outcome.code = 1 ∧
      outcome.stderr = "Error: d.json: invalid JSON: expected value at line 1 column 1\n") ∧
    ∃ outcome, Tool.normalizeTranscripts.run sampleContext
        ["--check", "none.json", "d.json"] = outcome ∧
      outcome.tree = sampleTree ∧ outcome.stdout = "" ∧ outcome.code = 1 ∧
      outcome.stderr =
        "Error: failed to read none.json: No such file or directory (os error 2)\n" := by
  refine ⟨?_, ?_, ?_, ?_⟩
  · have harguments : Tool.normalizeTranscripts.arguments
        ["--check", "a.json", "b.json", "--in-place", "c.json", "a.json"] =
        .ok ⟨["check", "in-place"], [], ["a.json", "b.json", "c.json", "a.json"]⟩ := rfl
    obtain ⟨outcome, hrun, htree, hstdout, -, hmore⟩ := run_check sampleContext harguments rfl
    have hforms : ∀ path ∈ ["a.json", "b.json", "c.json", "a.json"],
        HasNormalForm sampleTree path := by
      simp only [List.forall_mem_cons]
      exact ⟨hasNormalForm_a, isNormal_b.hasNormalForm, ⟨_, _, normalizes_c⟩, hasNormalForm_a,
        by simp⟩
    obtain ⟨differing, hdiffering, hcode, hstderr, hlogs⟩ :=
      (hmore ⟨⟨_, rfl⟩, by decide⟩).1 hforms
    have hpaths : differing = ["a.json", "c.json", "a.json"] := by
      rw [hdiffering]
      simp [sampleContext, not_isNormal_a, isNormal_b, not_isNormal_c]
    rw [hpaths] at hcode hstderr
    refine ⟨outcome, hrun, htree, hstdout, hcode, hstderr, ?_⟩
    have hlog := hlogs Unit silentLibrary ⟨"warn", .text⟩ rfl
    rw [print_silentLibrary, hstderr] at hlog
    exact hlog
  · have harguments : Tool.normalizeTranscripts.arguments ["a.json", "--check"] =
        .ok ⟨["check"], [], ["a.json"]⟩ := rfl
    obtain ⟨outcome, hrun, -, -, -, hmore⟩ := run_check colouredContext harguments rfl
    have hforms : ∀ path ∈ ["a.json"], HasNormalForm sampleTree path :=
      List.forall_mem_singleton.mpr hasNormalForm_a
    obtain ⟨differing, hdiffering, hcode, hstderr, -⟩ :=
      (hmore ⟨⟨⟨"warn", .text⟩, by decide⟩, by decide⟩).1 hforms
    have hpaths : differing = ["a.json"] := by
      rw [hdiffering]
      simp [colouredContext, not_isNormal_a]
    rw [hpaths] at hcode hstderr
    exact ⟨outcome, hrun, hcode, hstderr⟩
  · have harguments : Tool.normalizeTranscripts.arguments
        ["--check", "a.json", "d.json", "none.json"] =
        .ok ⟨["check"], [], ["a.json", "d.json", "none.json"]⟩ := rfl
    obtain ⟨outcome, hrun, htree, hstdout, -, hmore⟩ := run_check sampleContext harguments rfl
    obtain ⟨front, path, back, hsplit, hfront, hfails, htold, -⟩ :=
      (hmore ⟨⟨_, rfl⟩, by decide⟩).2 ⟨"d.json", by simp, not_hasNormalForm_d⟩
    have hgiven : ["a.json"] ++ "d.json" :: ["none.json"] = front ++ path :: back := hsplit
    obtain rfl := eq_of_first_split hgiven (List.forall_mem_singleton.mpr hasNormalForm_a)
      not_hasNormalForm_d hfront hfails
    rcases htold with hbreaks | ⟨message, hcomplains, hcode, hstderr⟩
    · exact absurd hbreaks not_breaksOff_d
    · rw [hcomplains.eq_of_d] at hstderr
      exact ⟨outcome, hrun, htree, hstdout, hcode, hstderr⟩
  · have harguments : Tool.normalizeTranscripts.arguments ["--check", "none.json", "d.json"] =
        .ok ⟨["check"], [], ["none.json", "d.json"]⟩ := rfl
    obtain ⟨outcome, hrun, htree, hstdout, -, hmore⟩ := run_check sampleContext harguments rfl
    obtain ⟨front, path, back, hsplit, hfront, hfails, htold, -⟩ :=
      (hmore ⟨⟨_, rfl⟩, by decide⟩).2 ⟨"none.json", by simp, not_hasNormalForm_none⟩
    have hgiven : [] ++ "none.json" :: ["d.json"] = front ++ path :: back := hsplit
    obtain rfl := eq_of_first_split hgiven (by simp) not_hasNormalForm_none hfront hfails
    rcases htold with hbreaks | ⟨message, hcomplains, hcode, hstderr⟩
    · exact absurd hbreaks not_breaksOff_none
    · rw [hcomplains.eq_of_none] at hstderr
      exact ⟨outcome, hrun, htree, hstdout, hcode, hstderr⟩

end GoldenFixtures.Command.NormalizeTranscripts
