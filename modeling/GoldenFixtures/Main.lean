import GoldenFixtures.Command.Tool
import GoldenFixtures.Disk

/-!
# The program

The first argument names a tool, and the others are its command line.  The
program surveys what the tool may look at on the disk, runs the tool on that,
and then stores what the tool changed and prints what it printed.
-/

namespace GoldenFixtures

open Command

/-- The paths that a tool may look at, and what it may look at below them. -/
def surveyed (tool : Tool) (arguments : Arguments) : List (Path × Disk.Scope) :=
  match tool with
  | .verifyEventOrder =>
    arguments.paths.map fun path => (path, { lists := true, reads := Replay.isDocumentName })
  | .normalizeTranscripts =>
    let options := NormalizeTranscripts.Options.ofArguments arguments
    (options.paths ++ options.output.toList).map fun path => (path, {})
  | .sanitizeJsonl =>
    let options := SanitizeJsonl.Options.ofArguments arguments
    ([options.input, options.output].filter (· ≠ SanitizeJsonl.standardPath)).map fun path =>
      (path, {})
  | .sbomMerge =>
    let options := SbomMerge.Options.ofArguments arguments
    (options.root, { lists := true, enters := (!Sbom.isHidden ·), reads := Sbom.isDocumentName })
      :: options.out.toList.map fun path => (path, {})

/-- The tool reads its standard input. -/
def readsStandardInput (tool : Tool) (arguments : Arguments) : Bool :=
  tool == .sanitizeJsonl &&
    (SanitizeJsonl.Options.ofArguments arguments).input == SanitizeJsonl.standardPath

/-- The environment, as far as the tools look at it. -/
def environment : IO Environment := do
  let found ← Settings.lookedUp.mapM fun name => do return (name, ← IO.getEnv name)
  return fun name => (found.lookup name).join

/-- Runs a tool on the disk. -/
def runOnDisk (tool : Tool) (arguments : Arguments) : IO Outcome := do
  let mut tree ← Disk.emptyTree
  for (path, scope) in surveyed tool arguments do
    tree ← Disk.survey tree path scope
  let stdin ←
    if readsStandardInput tool arguments then (← IO.getStdin).readBinToEnd
    else pure ByteArray.empty
  let outcome :=
    tool.runArguments { tree, environment := ← environment, stdin := stdin.toList } arguments
  Disk.store tree outcome.tree
  return outcome

/-- Runs the tool that a command line names. -/
def runLine : List String → IO Outcome
  | [] => return noTool
  | name :: line =>
    match Tool.ofName? name with
    | none => return noTool
    | some tool =>
      match tool.arguments line with
      | .error stop => return tool.stopped {} stop
      | .ok arguments => runOnDisk tool arguments
where
  noTool : Outcome :=
    ⟨2, "", "Usage: " ++ " | ".intercalate (Tool.all.map Tool.name) ++ "\n", {}⟩

end GoldenFixtures

/-- The program. -/
def main (line : List String) : IO UInt32 := do
  let outcome ← GoldenFixtures.runLine line
  (← IO.getStdout).putStr outcome.stdout
  (← IO.getStderr).putStr outcome.stderr
  return outcome.code.toUInt32
