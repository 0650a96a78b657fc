import GoldenFixtures.Command.Settings
import GoldenFixtures.FileTree.Basic

/-!
# What a tool does

A tool works on a `Context`: the files that there are, the environment, and
what stands on its standard input.  Its `Outcome` is the exit code, what it
printed, and the files as it left them.

Of its error output, an outcome has the lines that the tool itself prints.  The lines of
the log go there as well, if the filter of the log lets them through, as that of the
default level does with warnings.  They are not part of an outcome, so that outcomes do
not depend on the log level and the log format.  For `normalize-transcripts` the log is
told beside the outcome (`NormalizeTranscripts.errorOutput`).
-/

namespace GoldenFixtures.Command

/-- What a tool works on. -/
structure Context where
  tree : FileTree
  environment : Environment
  stdin : List UInt8

/-- What a tool did. -/
structure Outcome where
  code : Nat
  stdout : String
  /-- The tool's own lines of its error output, without those of the log. -/
  stderr : String
  tree : FileTree

namespace Outcome

/-- The tool ended with an exit code after it had printed a text. -/
def finished (tree : FileTree) (code : Nat) (stdout : String) : Outcome :=
  ⟨code, stdout, "", tree⟩

/-- The line that tells an error. -/
def errorLine (environment : Environment) (message : String) : String :=
  Style.error.paint (coloured environment) "Error:" ++ " " ++ message ++ "\n"

/-- The tool stopped at an error after it had printed a text. -/
def failed (context : Context) (tree : FileTree) (stdout message : String) : Outcome :=
  ⟨1, stdout, errorLine context.environment message, tree⟩

end Outcome

/-- Runs a tool unless its settings cannot be read.  They are about the log alone. -/
def withSettings (context : Context) (run : Settings → Outcome) : Outcome :=
  match Settings.read context.environment with
  | .error e => .failed context context.tree "" (Settings.errorMessage e)
  | .ok settings => run settings

end GoldenFixtures.Command
