import GoldenFixtures.Command.Arguments
import GoldenFixtures.Command.Outcome
import GoldenFixtures.Sbom.Discover

/-!
# The tool `sbom-merge`

It merges the bills of materials below a root.  The documents are read before
the output is written, so the output may be one of them.
-/

namespace GoldenFixtures.Command.SbomMerge

/-- The options of the tool. -/
def grammar : Grammar := { values := [("out", none), ("root", none)] }

/-- What the tool is asked to do. -/
structure Options where
  out : Option Path
  root : Path
  deriving DecidableEq, Repr

/-- The options of a command line. -/
def Options.ofArguments (arguments : Arguments) : Options :=
  ⟨arguments.value? "out", (arguments.value? "root").getD "."⟩

/-- A file or directory that could not be created. -/
structure Failure where
  path : Path
  error : FileError
  deriving DecidableEq, Repr

/-- The wording of a failure. -/
def Failure.message (failure : Failure) : String :=
  "failed to create " ++ failure.path ++ ": " ++ failure.error.message

/-- Creates the directories that a file is to lie in. -/
def createParents (tree : FileTree) (path : Path) : FileTree × Option Failure :=
  match path.parent? with
  | none => (tree, none)
  | some parent =>
    if parent = "" then (tree, none)
    else
      let (tree, error) := tree.createDirectories parent
      (tree, error.map (Failure.mk parent))

/-- Writes a file, with the directories that it is to lie in. -/
def writeTo (tree : FileTree) (path : Path) (text : String) : FileTree × Option Failure :=
  match createParents tree path with
  | (tree, some failure) => (tree, some failure)
  | (tree, none) =>
    match tree.write path (Text.encode text.toList) with
    | .ok tree => (tree, none)
    | .error error => (tree, some ⟨path, error⟩)

/-- Merges the documents below the root. -/
def run (context : Context) (options : Options) : Outcome :=
  withSettings context fun _ =>
    let text := (Sbom.mergeTree context.tree options.root).render
    match options.out with
    | none => .finished context.tree 0 text
    | some path =>
      match writeTo context.tree path text with
      | (tree, none) => .finished tree 0 ""
      | (tree, some failure) => .failed context tree "" failure.message

end GoldenFixtures.Command.SbomMerge
