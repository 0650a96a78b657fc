import GoldenFixtures.Command.Arguments
import GoldenFixtures.Command.Log
import GoldenFixtures.Command.Outcome
import GoldenFixtures.Transcript.Normalize

/-!
# The tool `normalize-transcripts`

It brings transcripts into their normal form, one file after the other, and
stops at the first file that it cannot read, normalize or write.  With
`--check` it writes nothing and tells which files would change.

What it logs on the way goes with the steps (`stepsLog`).  `errorOutput` is the whole
error output of a run: the log, and behind it the lines of the tool itself, which are
those of the outcome.
-/

namespace GoldenFixtures.Command.NormalizeTranscripts

/-- The options of the tool. -/
def grammar : Grammar :=
  { flags := ["in-place", "check"], values := [("output", none)], takesPaths := true }

/-- What the tool is asked to do. -/
structure Options where
  paths : List Path
  inPlace : Bool
  check : Bool
  output : Option Path
  deriving DecidableEq, Repr

/-- The options of a command line. -/
def Options.ofArguments (arguments : Arguments) : Options :=
  ⟨arguments.paths, arguments.has "in-place", arguments.has "check", arguments.value? "output"⟩

/-- Options that contradict each other. -/
inductive Conflict where
  | outputOfSeveral
  | noPlaceForSeveral
  deriving DecidableEq, Repr

/-- The wording of a contradiction. -/
def Conflict.message : Conflict → String
  | outputOfSeveral => "--output can only be used with a single input path"
  | noPlaceForSeveral => "provide --in-place or --output when normalizing multiple files"

/-- The contradiction in the options, if there is one. -/
def Options.conflict? (options : Options) : Option Conflict :=
  if options.output.isSome && options.paths.length != 1 then some .outputOfSeveral
  else if !options.inPlace && !options.check && options.output.isNone
      && 1 < options.paths.length then
    some .noPlaceForSeveral
  else none

/-- Why a file was not normalized. -/
inductive Failure where
  | unreadable (path : Path) (error : FileError)
  | invalid (path : Path) (error : Transcript.Error)
  | unwritable (path : Path) (error : FileError)
  deriving DecidableEq, Repr

/-- The wording of a failure. -/
def Failure.message : Failure → String
  | unreadable path error => "failed to read " ++ path ++ ": " ++ error.message
  | invalid path error => path ++ ": " ++ error.message
  | unwritable path error => "failed to write " ++ path ++ ": " ++ error.message

/-- What was done so far: the files, what was printed, and the paths of the
files that were not in normal form. -/
structure Progress where
  tree : FileTree
  stdout : String := ""
  changed : List Path := []

/-- Writes a file. -/
def writeTo (progress : Progress) (path : Path) (text : String) : Except Failure Progress :=
  match progress.tree.write path (Text.encode text.toList) with
  | .ok tree => .ok { progress with tree }
  | .error error => .error (.unwritable path error)

/-- Puts the normal form of a file where the options ask for it. -/
def place (options : Options) (progress : Progress) (path : Path) (output : String)
    (changed : Bool) : Except Failure Progress :=
  if options.check then .ok progress
  else
    match options.output with
    | some target => writeTo progress target output
    | none =>
      if options.inPlace then
        if changed then writeTo progress path output else .ok progress
      else .ok { progress with stdout := progress.stdout ++ output }

/-- Normalizes one file. -/
def step (options : Options) (progress : Progress) (path : Path) : Except Failure Progress :=
  match progress.tree.readText path with
  | .error error => .error (.unreadable path error)
  | .ok text =>
    match Transcript.normalize text with
    | .error error => .error (.invalid path error)
    | .ok output => do
      let changed := Transcript.isChanged text output
      let progress ← place options progress path output changed
      return if changed then { progress with changed := progress.changed ++ [path] } else progress

/-- Normalizes files one after the other: what was done, and why it stopped
before the last file, if it did. -/
def steps (options : Options) (progress : Progress) : List Path → Progress × Option Failure
  | [] => (progress, none)
  | path :: paths =>
    match step options progress path with
    | .error failure => (progress, some failure)
    | .ok progress => steps options progress paths

/-- The lines that tell which files would change. -/
def driftLines (environment : Environment) (paths : List Path) : String :=
  let words := Style.warning.paint (coloured environment) "would reformat"
  String.join (paths.map fun path => words ++ " " ++ path ++ "\n")

/-- The exit code of a tool that broke off in the middle of its work. -/
def brokenOffCode : Nat := 101

/-- The outcome after a failure. -/
def stopped (context : Context) (progress : Progress) (failure : Failure) : Outcome :=
  match failure with
  | .invalid _ .timestampPastLastYear =>
    ⟨brokenOffCode, progress.stdout, Transcript.Error.timestampPastLastYear.message ++ "\n",
      progress.tree⟩
  | failure => .failed context progress.tree progress.stdout failure.message

/-- Normalizes the files of the paths. -/
def run (context : Context) (options : Options) : Outcome :=
  withSettings context fun _ =>
    match options.conflict? with
    | some conflict => .failed context context.tree "" conflict.message
    | none =>
      match steps options { tree := context.tree } options.paths with
      | (progress, some failure) => stopped context progress failure
      | (progress, none) =>
        if options.check && !progress.changed.isEmpty then
          ⟨1, progress.stdout, driftLines context.environment progress.changed, progress.tree⟩
        else .finished progress.tree 0 progress.stdout

/-! ## The log -/

/-- The module that the records are of. -/
def logTarget : String := "normalize_transcripts"

/-- The record of a file that was read and normalized. -/
def normalizedRecord (path : Path) (changed : Bool) : Log.Record :=
  ⟨.debug, logTarget, "Normalized transcript", [("path", .text path), ("changed", .flag changed)]⟩

/-- The record of a run that came to the end of its files. -/
def finishedRecord (options : Options) (changed : Nat) : Log.Record :=
  ⟨.info, logTarget, "Normalization finished",
    [("files", .number options.paths.length), ("changed", .number changed),
      ("check", .flag options.check)]⟩

/-- What is logged of one file. -/
def stepLog (progress : Progress) (path : Path) : List Log.Record :=
  match progress.tree.readText path with
  | .error _ => []
  | .ok text =>
    match Transcript.normalize text with
    | .error _ => []
    | .ok output => [normalizedRecord path (Transcript.isChanged text output)]

/-- What is logged of files, one after the other, and at their end. -/
def stepsLog (options : Options) (progress : Progress) : List Path → List Log.Record
  | [] => [finishedRecord options progress.changed.length]
  | path :: paths =>
    stepLog progress path ++
      match step options progress path with
      | .error _ => []
      | .ok progress => stepsLog options progress paths

/-- What a run logs, if its settings can be read. -/
def log (context : Context) (options : Options) : List Log.Record :=
  match options.conflict? with
  | some _ => []
  | none => stepsLog options { tree := context.tree } options.paths

/-- The whole error output of a run. -/
def errorOutput {Filter : Type} (library : Log.Library Filter) (context : Context)
    (options : Options) : String :=
  match Settings.read context.environment with
  | .error _ => (run context options).stderr
  | .ok settings =>
    library.print context.environment settings (log context options)
      ++ (run context options).stderr

end GoldenFixtures.Command.NormalizeTranscripts
