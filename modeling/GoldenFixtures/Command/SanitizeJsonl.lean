import GoldenFixtures.Archive.Stream
import GoldenFixtures.Command.Arguments
import GoldenFixtures.Command.Outcome

/-!
# The tool `sanitize-jsonl`

It sanitizes a stream of archive records.  A hyphen in place of a path is the
standard input or output.  The output is emptied before the input is read, so an
input that is also the output is empty.
-/

namespace GoldenFixtures.Command.SanitizeJsonl

/-- The options of the tool. -/
def grammar : Grammar := { values := [("input", some 'i'), ("output", some 'o')] }

/-- The path that stands for the standard input or output. -/
def standardPath : Path := "-"

/-- What the tool is asked to do. -/
structure Options where
  input : Path
  output : Path
  deriving DecidableEq, Repr

/-- The options of a command line. -/
def Options.ofArguments (arguments : Arguments) : Options :=
  ⟨(arguments.value? "input").getD standardPath, (arguments.value? "output").getD standardPath⟩

/-- Where a stream comes from or goes to. -/
inductive Channel where
  | standard
  | place (location : Location)
  deriving DecidableEq, Repr

/-- Opens the input. -/
def openInput (tree : FileTree) (path : Path) : Except FileError Channel :=
  if path = standardPath then .ok .standard
  else (tree.locate path).map fun found => .place found.1

/-- Opens the output, which empties its file. -/
def openOutput (tree : FileTree) (path : Path) : Except FileError (Channel × FileTree) :=
  if path = standardPath then .ok (.standard, tree)
  else (tree.writable path).map fun location => (.place location, tree.set location (.file []))

/-- Sanitizes what stands on an input. -/
def sanitize (context : Context) (tree : FileTree) (input : Channel) : Archive.Run :=
  match input with
  | .standard => Archive.sanitize context.stdin
  | .place location =>
    match tree.bytesAt location with
    | .ok bytes => Archive.sanitize bytes
    | .error error => ⟨[], some (.unreadable error)⟩

/-- Writes what was sanitized to an output: the files then, and what was
printed. -/
def deliver (tree : FileTree) (output : Channel) (text : String) : FileTree × String :=
  match output with
  | .standard => (tree, text)
  | .place location => (tree.set location (.file (Text.encode text.toList)), "")

/-- Sanitizes the input to the output. -/
def run (context : Context) (options : Options) : Outcome :=
  withSettings context fun _ =>
    match openInput context.tree options.input with
    | .error error =>
      .failed context context.tree "" ("failed to open " ++ options.input ++ ": " ++ error.message)
    | .ok input =>
      match openOutput context.tree options.output with
      | .error error =>
        .failed context context.tree ""
          ("failed to create " ++ options.output ++ ": " ++ error.message)
      | .ok (output, tree) =>
        let run := sanitize context tree input
        let (tree, stdout) := deliver tree output run.output
        match run.error? with
        | some error => .failed context tree stdout error.message
        | none => .finished tree 0 stdout

end GoldenFixtures.Command.SanitizeJsonl
