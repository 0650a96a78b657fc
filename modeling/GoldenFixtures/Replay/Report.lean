import GoldenFixtures.Replay.Issue

/-!
# Reports

A clean file has one line, a file with issues one line for each issue, a
skipped file none.
-/

namespace GoldenFixtures.Replay

/-- The line of one issue of a file. -/
def Issue.line (path : String) (issue : Issue) : String :=
  "ERROR (" ++ toString issue.severity.rank ++ ") " ++ path ++ ": " ++ issue.message

/-- The report lines of one file. -/
def Result.lines (result : Result) : List String :=
  match result.outcome with
  | .skipped => []
  | .checked [] => ["OK ✓ " ++ result.path]
  | .checked issues => issues.map (Issue.line result.path)

/-- The report lines of a run. -/
def Summary.lines (summary : Summary) : List String := summary.flatMap Result.lines

/-- The report of a run: each line ends with a line end. -/
def Summary.report (summary : Summary) : String :=
  String.join ((Summary.lines summary).map (· ++ "\n"))

end GoldenFixtures.Replay
