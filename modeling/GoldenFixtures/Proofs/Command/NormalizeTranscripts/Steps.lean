import GoldenFixtures.Command.Tool
import GoldenFixtures.Proofs.FileTree.Overwrite
import GoldenFixtures.Proofs.Transcript.Normalize

/-!
# One file after the other

`normalize-transcripts` takes one step for each of its paths.  A step fails where
the path's file has no normal form (`Refuses`); otherwise it puts the normal form
where the options say (`step_of_normalizes`).  The steps go through the paths up
to the first that fails (`exists_of_steps`), and the outcome of a run follows from
them (`run_of_settings`).
-/

namespace GoldenFixtures.Command.NormalizeTranscripts

/-- Why the file of a path has no normal form. -/
inductive Refuses (tree : FileTree) (path : Path) : Failure → Prop where
  | unreadable {error : FileError} : tree.readText path = .error error →
    Refuses tree path (.unreadable path error)
  | invalid {text : String} {error : Transcript.Error} : tree.readText path = .ok text →
    Transcript.normalize text = .error error → Refuses tree path (.invalid path error)

/-- The file of a path holds a text, which has a normal form. -/
structure Normalizes (tree : FileTree) (path : Path) (text output : String) : Prop where
  read : tree.readText path = .ok text
  normal : Transcript.normalize text = .ok output

section

variable {context : Context} {options : Options} {progress after : Progress} {tree : FileTree}
  {path : Path} {paths front back : List Path} {failure : Failure} {text output : String}

theorem refuses_or_normalizes (tree : FileTree) (path : Path) :
    (∃ failure, Refuses tree path failure) ∨ ∃ text output, Normalizes tree path text output := by
  cases hread : tree.readText path with
  | error error => exact Or.inl ⟨_, .unreadable hread⟩
  | ok text =>
    cases hnormal : Transcript.normalize text with
    | error error => exact Or.inl ⟨_, .invalid hread hnormal⟩
    | ok output => exact Or.inr ⟨text, output, hread, hnormal⟩

theorem Refuses.not_normalizes (h : Refuses tree path failure) :
    ¬ Normalizes tree path text output := by
  intro hnormal
  cases h with
  | unreadable hread => exact nomatch hread.symm.trans hnormal.read
  | invalid hread hinvalid =>
    obtain rfl := Except.ok.inj (hread.symm.trans hnormal.read)
    exact nomatch hinvalid.symm.trans hnormal.normal

/-! ## A step -/

theorem step_of_refuses (options : Options) (h : Refuses progress.tree path failure) :
    step options progress path = .error failure := by
  unfold step
  cases h with
  | unreadable hread => rw [hread]
  | invalid hread hinvalid =>
    rw [hread]
    simp only [hinvalid]

theorem step_of_normalizes (options : Options) (h : Normalizes progress.tree path text output) :
    step options progress path =
      (place options progress path output (Transcript.isChanged text output)).map fun progress =>
        if Transcript.isChanged text output then
          { progress with changed := progress.changed ++ [path] }
        else progress := by
  unfold step
  rw [h.read]
  simp only [h.normal]
  cases place options progress path output (Transcript.isChanged text output) with
  | error failure => rfl
  | ok after => rfl

/-! ## All steps -/

theorem steps_append (options : Options) (progress : Progress) (front back : List Path) :
    steps options progress (front ++ back) =
      match steps options progress front with
      | (after, none) => steps options after back
      | (after, some failure) => (after, some failure) := by
  induction front generalizing progress with
  | nil => rfl
  | cons path front ih =>
    rw [List.cons_append, steps, steps]
    cases step options progress path with
    | error failure => rfl
    | ok after => exact ih after

theorem steps_append_eq_none_iff :
    steps options progress (front ++ back) = (after, none) ↔
      ∃ middle, steps options progress front = (middle, none) ∧
        steps options middle back = (after, none) := by
  rw [steps_append]
  obtain ⟨middle, failure?⟩ := steps options progress front
  cases failure? with
  | none => simp
  | some failure => simp

theorem steps_cons_eq_none_iff :
    steps options progress (path :: paths) = (after, none) ↔
      ∃ next, step options progress path = .ok next ∧
        steps options next paths = (after, none) := by
  rw [steps]
  cases step options progress path with
  | error failure => simp
  | ok next => simp

/-- Steps go through the paths up to the first that fails. -/
theorem exists_of_steps (options : Options) (progress : Progress) (paths : List Path) :
    ∃ done rest after failure?, paths = done ++ rest ∧
      steps options progress done = (after, none) ∧
      steps options progress paths = (after, failure?) ∧
      (rest = [] ∧ failure? = none ∨
        ∃ path more failure, rest = path :: more ∧ failure? = some failure ∧
          step options after path = .error failure) := by
  induction paths generalizing progress with
  | nil => exact ⟨[], [], progress, none, rfl, rfl, rfl, Or.inl ⟨rfl, rfl⟩⟩
  | cons path paths ih =>
    cases hstep : step options progress path with
    | error failure =>
      refine ⟨[], path :: paths, progress, some failure, rfl, rfl, ?_,
        Or.inr ⟨path, paths, failure, rfl, rfl, hstep⟩⟩
      rw [steps, hstep]
    | ok next =>
      obtain ⟨done, rest, after, failure?, rfl, hdone, hall, hend⟩ := ih next
      refine ⟨path :: done, rest, after, failure?, rfl, ?_, ?_, hend⟩
      · rw [steps, hstep]
        exact hdone
      · rw [steps, hstep]
        exact hall

/-! ## A run -/

theorem run_of_failure {settings : Settings}
    (hsettings : Settings.read context.environment = .ok settings)
    (hconflict : options.conflict? = none)
    (hsteps : steps options { tree := context.tree } options.paths = (after, some failure)) :
    run context options = stopped context after failure := by
  unfold run withSettings
  simp only [hsettings, hconflict, hsteps]

theorem run_of_end {settings : Settings}
    (hsettings : Settings.read context.environment = .ok settings)
    (hconflict : options.conflict? = none)
    (hsteps : steps options { tree := context.tree } options.paths = (after, none)) :
    run context options =
      if options.check && !after.changed.isEmpty then
        ⟨1, after.stdout, driftLines context.environment after.changed, after.tree⟩
      else .finished after.tree 0 after.stdout := by
  unfold run withSettings
  simp only [hsettings, hconflict, hsteps]

theorem stopped_tree (context : Context) (progress : Progress) (failure : Failure) :
    (stopped context progress failure).tree = progress.tree := by
  unfold stopped
  split
  · rfl
  · rfl

theorem stopped_stdout (context : Context) (progress : Progress) (failure : Failure) :
    (stopped context progress failure).stdout = progress.stdout := by
  unfold stopped
  split
  · rfl
  · rfl

theorem stopped_code_ne_zero (context : Context) (progress : Progress) (failure : Failure) :
    (stopped context progress failure).code ≠ 0 := by
  unfold stopped
  split
  · exact Nat.succ_ne_zero 100
  · exact Nat.one_ne_zero

/-- A file without a normal form ends the run with an error, unless the run breaks
off there. -/
theorem Refuses.stopped_eq (h : Refuses tree path failure)
    (hstays : failure ≠ .invalid path .timestampPastLastYear) :
    stopped context progress failure =
      .failed context progress.tree progress.stdout failure.message := by
  cases h with
  | unreadable _ => rfl
  | @invalid _ error _ _ =>
    cases error with
    | timestampPastLastYear => exact absurd rfl hstays
    | _ => rfl

/-- A run is that of the tool on a command line. -/
theorem run_of_arguments {line : List String} {arguments : Arguments}
    (h : Tool.normalizeTranscripts.arguments line = .ok arguments) (context : Context) :
    Tool.normalizeTranscripts.run context line = run context (.ofArguments arguments) := by
  unfold Tool.run
  rw [h]
  rfl

/-- A command line that is accepted has a path. -/
theorem paths_ne_nil {line : List String} {arguments : Arguments}
    (h : Tool.normalizeTranscripts.arguments line = .ok arguments) : arguments.paths ≠ [] := by
  unfold Tool.arguments at h
  obtain ⟨found, -, h⟩ := Json.bind_eq_ok.mp h
  split at h
  · exact nomatch h
  · rename_i hpaths
    cases h
    simpa [Tool.grammar, grammar] using hpaths

end

/-! ## A sample -/

/-- A transcript that is not in normal form, one that is, a link to the first, and
a file that is no transcript. -/
def sampleTree : FileTree where
  entries :=
    [(["a.json"], .file (Text.encode Transcript.exchange.toList)),
      (["b.json"], .file (Text.encode Transcript.exchangeNormal.toList)),
      (["c.json"], .link "a.json"), (["d.json"], .file (Text.encode ['x']))]

/-- The files, no settings and no input. -/
def sampleContext : Context := ⟨sampleTree, fun _ => none, []⟩

theorem normalizes_a : Normalizes sampleTree "a.json" Transcript.exchange Transcript.exchangeNormal :=
  ⟨FileTree.readText_eq_ok_iff.mpr (FileTree.readBytes_of_locate rfl),
    Transcript.normalize_exchange⟩

theorem normalizes_b :
    Normalizes sampleTree "b.json" Transcript.exchangeNormal Transcript.exchangeNormal :=
  ⟨FileTree.readText_eq_ok_iff.mpr (FileTree.readBytes_of_locate rfl), by decide +kernel⟩

theorem normalizes_c : Normalizes sampleTree "c.json" Transcript.exchange Transcript.exchangeNormal :=
  ⟨FileTree.readText_eq_ok_iff.mpr (FileTree.readBytes_of_locate rfl),
    Transcript.normalize_exchange⟩

end GoldenFixtures.Command.NormalizeTranscripts
