import GoldenFixtures.FileTree.Basic
import GoldenFixtures.Replay.Document
import GoldenFixtures.Yaml.Document

/-!
# Verifying files

A path that denotes a directory stands for the documents in it; `candidates`
lists them.  `load` reads the document of one file, and `verify` checks all
that a list of paths stands for.  A failure in one file does not stop the
others.
-/

namespace GoldenFixtures.Replay

open Yaml (Value)

/-! ## Candidates -/

/-- The extensions of documents, in lower case. -/
def documentExtensions : List String := ["yaml", "yml", "json"]

/-- A name has the extension of a document, in any letter case. -/
def isDocumentName (name : String) : Bool :=
  match Path.extension? name with
  | some extension => documentExtensions.contains (extension.map Char.toLower)
  | none => false

/-- The names in their order. -/
def sortNames (names : List String) : List String := names.mergeSort fun a b => decide (a ≤ b)

/-- The documents in the directory of a path: the files, links followed, with
the extension of a document, in the order of their names. -/
def documentsIn (tree : FileTree) (path : Path) : List Path :=
  match tree.locate path with
  | .ok (location, .directory) =>
    ((sortNames (tree.names location)).filter fun name =>
      isDocumentName name && tree.isFileIn path location name).map (Path.join path)
  | _ => []

/-- The files that a path stands for.  A directory without documents stands
for itself, so that it is not passed over in silence. -/
def candidates (tree : FileTree) (path : Path) : List Path :=
  match documentsIn tree path with
  | [] => [path]
  | documents => documents

/-! ## Loading -/

/-- Why a document cannot be loaded. -/
inductive LoadError where
  | notFound
  | unreadable (error : FileError)
  | invalidYaml
  deriving DecidableEq, Repr

namespace LoadError

/-- The finding on a file that cannot be loaded. -/
def finding : LoadError → Finding
  | notFound => .fileNotFound
  | unreadable error => .unreadable error.message
  | invalidYaml => .invalidYaml

/-- The wording of an error. -/
def message (error : LoadError) : String := error.finding.message

end LoadError

/-- The document that a text holds. -/
def parse (text : String) : Except LoadError Value :=
  match Value.read? text.toList with
  | some value => .ok value
  | none => .error .invalidYaml

/-- The document in the file of a path. -/
def load (tree : FileTree) (path : Path) : Except LoadError Value :=
  if !tree.exists? path then .error .notFound
  else
    match tree.readText path with
    | .error error => .error (.unreadable error)
    | .ok text => parse text

/-! ## Verifying -/

/-- Checks the document in the file of a path. -/
def verifyFile (tree : FileTree) (path : Path) : Result :=
  match load tree path with
  | .ok document => ⟨path, validate document⟩
  | .error error => ⟨path, .checked [error.finding.toIssue]⟩

/-- Checks all documents that a path stands for. -/
def verifyPath (tree : FileTree) (path : Path) : Summary :=
  (candidates tree path).map (verifyFile tree)

/-- Checks all documents that a list of paths stands for. -/
def verify (tree : FileTree) (paths : List Path) : Summary := paths.flatMap (verifyPath tree)

end GoldenFixtures.Replay
