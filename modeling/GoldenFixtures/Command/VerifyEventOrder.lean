import GoldenFixtures.Command.Arguments
import GoldenFixtures.Command.Outcome
import GoldenFixtures.Replay.Report
import GoldenFixtures.Replay.Verify

/-!
# The tool `verify-event-order`

It checks replay documents and prints a report.  The exit code is the worst
rank of the report.
-/

namespace GoldenFixtures.Command.VerifyEventOrder

/-- The tool takes paths only. -/
def grammar : Grammar := { takesPaths := true }

/-- Checks the documents that the paths stand for. -/
def run (context : Context) (paths : List Path) : Outcome :=
  withSettings context fun _ =>
    let summary := Replay.verify context.tree paths
    .finished context.tree summary.exitCode summary.report

end GoldenFixtures.Command.VerifyEventOrder
