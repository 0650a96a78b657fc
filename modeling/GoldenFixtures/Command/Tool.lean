import GoldenFixtures.Command.NormalizeTranscripts
import GoldenFixtures.Command.SanitizeJsonl
import GoldenFixtures.Command.SbomMerge
import GoldenFixtures.Command.VerifyEventOrder

/-!
# The tools

`Tool.run` runs one of the four tools on a command line.
-/

namespace GoldenFixtures.Command

/-- A tool. -/
inductive Tool where
  | verifyEventOrder
  | normalizeTranscripts
  | sanitizeJsonl
  | sbomMerge
  deriving DecidableEq, Repr

namespace Tool

/-- The name of a tool. -/
def name : Tool → String
  | verifyEventOrder => "verify-event-order"
  | normalizeTranscripts => "normalize-transcripts"
  | sanitizeJsonl => "sanitize-jsonl"
  | sbomMerge => "sbom-merge"

/-- Every tool. -/
def all : List Tool := [verifyEventOrder, normalizeTranscripts, sanitizeJsonl, sbomMerge]

/-- The tool with a name. -/
def ofName? (name : String) : Option Tool := all.find? fun tool => tool.name == name

/-- The version of the tools. -/
def version : String := "0.1.0"

/-- The options of a tool. -/
def grammar : Tool → Grammar
  | verifyEventOrder => VerifyEventOrder.grammar
  | normalizeTranscripts => NormalizeTranscripts.grammar
  | sanitizeJsonl => SanitizeJsonl.grammar
  | sbomMerge => SbomMerge.grammar

/-- The arguments of a tool that takes paths; there has to be one of them. -/
def arguments (tool : Tool) (line : List String) : Except Stop Arguments := do
  let arguments ← tool.grammar.parse line
  if tool.grammar.takesPaths && arguments.paths.isEmpty then .error .usage
  else return arguments

/-- Runs a tool on its arguments. -/
def runArguments (tool : Tool) (context : Context) (arguments : Arguments) : Outcome :=
  match tool with
  | verifyEventOrder => VerifyEventOrder.run context arguments.paths
  | normalizeTranscripts =>
    NormalizeTranscripts.run context (NormalizeTranscripts.Options.ofArguments arguments)
  | sanitizeJsonl => SanitizeJsonl.run context (SanitizeJsonl.Options.ofArguments arguments)
  | sbomMerge => SbomMerge.run context (SbomMerge.Options.ofArguments arguments)

/-- How a tool is called. -/
def usage : Tool → String
  | verifyEventOrder => "Usage: verify-event-order <PATH>..."
  | normalizeTranscripts =>
    "Usage: normalize-transcripts [--in-place] [--output <PATH>] [--check] <PATH>..."
  | sanitizeJsonl => "Usage: sanitize-jsonl [-i <PATH>] [-o <PATH>]"
  | sbomMerge => "Usage: sbom-merge [--out <PATH>] [--root <DIR>]"

/-- The outcome of a command line that does not run the tool. -/
def stopped (tool : Tool) (tree : FileTree) (stop : Stop) : Outcome :=
  match stop with
  | .usage => ⟨2, "", tool.usage ++ "\n", tree⟩
  | .help => .finished tree 0 (tool.usage ++ "\n")
  | .version => .finished tree 0 (tool.name ++ " " ++ version ++ "\n")

/-- Runs a tool on a command line. -/
def run (tool : Tool) (context : Context) (line : List String) : Outcome :=
  match tool.arguments line with
  | .error stop => tool.stopped context.tree stop
  | .ok arguments => tool.runArguments context arguments

end Tool

end GoldenFixtures.Command
