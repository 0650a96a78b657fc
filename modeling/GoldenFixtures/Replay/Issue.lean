/-!
# Findings, issues and results

A `Finding` is what is wrong with a replay document, an `Issue` its rank and
wording as reports show them.  A `Result` belongs to one file and a `Summary`
to a whole run.  The rank of a severity is also an exit code: the worst rank of
a run wins.
-/

namespace GoldenFixtures.Replay

/-- How bad an issue is. -/
inductive Severity where
  /-- The file is missing, unreadable or not YAML. -/
  | load
  /-- A field is missing or has the wrong shape. -/
  | schema
  /-- Events stand in the wrong order. -/
  | order
  deriving DecidableEq, Repr

namespace Severity

/-- The number of a severity in reports and exit codes. -/
def rank : Severity → Nat
  | load => 1
  | schema => 2
  | order => 3

/-- The word for a severity. -/
def name : Severity → String
  | load => "load"
  | schema => "schema"
  | order => "order"

/-- The worse of two severities. -/
def worse (a b : Severity) : Severity := if a.rank < b.rank then b else a

/-- The worst of a list of severities. -/
def worst? : List Severity → Option Severity
  | [] => none
  | s :: rest =>
    match worst? rest with
    | none => some s
    | some t => some (worse s t)

end Severity

/-- What is wrong with a replay document.  A field that was found to be
something else is named by the type of its value; `label` is how an event is
called. -/
inductive Finding where
  | fileNotFound
  | unreadable (reason : String)
  | invalidYaml
  | rootNotMapping (found : String)
  | unsupportedMode (mode : String)
  | unsupportedModeType (found : String)
  | missingText (field : String)
  | noEvents
  | eventNotMapping (index : Nat) (found : String)
  | missingId (index : Nat)
  | duplicateId (id : String) (index first : Nat)
  | missingTime (label : String)
  | timeNotInteger (label found : String)
  | malformedDependencies (label found : String)
  | unseenDependencies (label : String) (missing : List String)
  | timeDecreases (label : String) (time previous : Int)
  deriving DecidableEq, Repr

/-- One problem as a report shows it. -/
structure Issue where
  severity : Severity
  message : String
  deriving DecidableEq, Repr

namespace Finding

/-- How bad a finding is. -/
def severity : Finding → Severity
  | fileNotFound | unreadable _ | invalidYaml => .load
  | unseenDependencies _ _ | timeDecreases _ _ _ => .order
  | _ => .schema

/-- An event by its place in the list. -/
def place (index : Nat) : String := "events[" ++ toString index ++ "]"

/-- The wording of a finding.  What the parser has to say about a text that is no document
is not kept: one fixed text stands for it. -/
def message : Finding → String
  | fileNotFound => "file not found"
  | unreadable reason => "failed to read file: " ++ reason
  | invalidYaml => "invalid YAML: the text is not one well-formed document"
  | rootNotMapping found => "document root must be a mapping, found " ++ found
  | unsupportedMode mode => "unsupported mode '" ++ mode ++ "'"
  | unsupportedModeType found => "unsupported mode " ++ found
  | missingText field => "document must define a non-empty string '" ++ field ++ "'"
  | noEvents => "document must contain a non-empty 'events' list"
  | eventNotMapping index found => place index ++ " must be a mapping, found " ++ found
  | missingId index => place index ++ " must define a non-empty string 'event_id'"
  | duplicateId id index first =>
    "duplicate event_id '" ++ id ++ "' at " ++ place index ++ " (first defined at "
      ++ place first ++ ")"
  | missingTime label => label ++ " must define an integer 'ts_ms'"
  | timeNotInteger label found => label ++ " has non-integer 'ts_ms' (" ++ found ++ ")"
  | malformedDependencies label found =>
    label ++ " has malformed 'depends_on': expected a list of strings, found " ++ found
  | unseenDependencies label missing =>
    label ++ " depends on events not seen earlier: " ++ ", ".intercalate missing
  | timeDecreases label time previous =>
    label ++ " has ts_ms " ++ toString time ++ " earlier than previous ts_ms "
      ++ toString previous ++ "; timestamps must be non-decreasing"

/-- A finding as a report shows it. -/
def toIssue (finding : Finding) : Issue := ⟨finding.severity, finding.message⟩

end Finding

/-- What became of one file. -/
inductive Outcome where
  /-- A manifest: there is nothing to check. -/
  | skipped
  /-- Checked, with the issues in the order in which they were found. -/
  | checked (issues : List Issue)
  deriving DecidableEq, Repr

/-- The outcome for the file of a path. -/
structure Result where
  path : String
  outcome : Outcome
  deriving DecidableEq, Repr

namespace Result

/-- The issues of a result; a skipped file has none. -/
def issues (result : Result) : List Issue :=
  match result.outcome with
  | .skipped => []
  | .checked issues => issues

/-- The file was not checked. -/
def isSkipped (result : Result) : Bool := result.outcome == .skipped

/-- The file was checked and nothing was found. -/
def isClean (result : Result) : Bool := result.outcome == .checked []

/-- The worst severity of a result. -/
def worst? (result : Result) : Option Severity :=
  Severity.worst? (result.issues.map Issue.severity)

end Result

/-- The results of a run, in the order of processing. -/
abbrev Summary := List Result

namespace Summary

/-- The worst severity of a run. -/
def worst? (summary : Summary) : Option Severity :=
  Severity.worst? (summary.filterMap Result.worst?)

/-- The exit code of a run: the worst rank, and zero when nothing was found. -/
def exitCode (summary : Summary) : Nat :=
  match worst? summary with
  | none => 0
  | some severity => severity.rank

/-- The number of issues of a run. -/
def issueCount (summary : Summary) : Nat := (summary.flatMap Result.issues).length

end Summary

end GoldenFixtures.Replay
