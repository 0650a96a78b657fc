import GoldenFixtures.FileTree.Error
import GoldenFixtures.FileTree.Path
import GoldenFixtures.Text.Utf8

/-!
# File trees

A file tree is the state of the disk as far as the tools see it: which files,
directories and links there are, and what the files hold.  `FileTree.locate`
follows a path, links included, to what it denotes.  The other operations read,
write, list and create entries by their paths.
-/

namespace GoldenFixtures

/-- A place in a file tree: the names that lead to it from the root. -/
abbrev Location := List String

/-- What stands at a place. -/
inductive Entry where
  | file (bytes : List UInt8)
  | directory
  /-- A link to a path, which starts at the link's directory. -/
  | link (target : Path)
  deriving DecidableEq, Repr

/-- The files, directories and links that there are.  The root is always a
directory; relative paths start at `home`. -/
structure FileTree where
  entries : List (Location × Entry) := []
  home : Location := []
  deriving Repr

namespace FileTree

/-- What stands at a place. -/
def entry? (tree : FileTree) (location : Location) : Option Entry :=
  if location = [] then some .directory else tree.entries.lookup location

/-- The tree with an entry at a place, in the stead of what stood there. -/
def set (tree : FileTree) (location : Location) (entry : Entry) : FileTree :=
  let others := tree.entries.filter fun e => e.1 != location
  { tree with entries := others ++ [(location, entry)] }

/-- The names of the entries of a directory. -/
def names (tree : FileTree) (location : Location) : List String :=
  tree.entries.filterMap fun (place, _) =>
    match place.getLast? with
    | some name => if place.dropLast = location then some name else none
    | none => none

/-- The entries of the second tree that the first has not or has otherwise. -/
def changes (before after : FileTree) : List (Location × Entry) :=
  after.entries.filter fun (location, entry) => before.entry? location != some entry

/-- No place is reached by more names than this. -/
def height (tree : FileTree) : Nat :=
  tree.entries.foldl (fun n entry => max n entry.1.length) tree.home.length

/-! ## Following paths -/

/-- The number of links that may be followed on the way along a path. -/
def maxLinks : Nat := 40

/-- The number of bytes that a name may have. -/
def maxNameSize : Nat := 255

/-- The number of bytes that a path may have. -/
def maxPathSize : Nat := 4095

/-- Where a path leads: a place at which there may be nothing yet, and whether
the path asks for a directory by a slash at its end. -/
structure Target where
  location : Location
  slash : Bool
  deriving DecidableEq, Repr

/-- The place from which a path starts, given that of relative paths. -/
def start (path : Path) (here : Location) : Location := if path.isAbsolute then [] else here

/-- What a path is followed for. -/
inductive Purpose where
  | find
  /-- To write a file there, which may be a new one. -/
  | write
  deriving DecidableEq, Repr

/-- Goes along steps from a place.  At a link, `jump` goes on from the link's
directory along the link's path and the steps that are left.  A name with a slash
at the end of the path is refused for writing before it is looked up. -/
def walk (tree : FileTree) (purpose : Purpose)
    (jump : Location → List Path.Step → Except FileError Target) :
    Location → List Path.Step → Except FileError Target
  | place, [] => .ok ⟨place, false⟩
  | place, .slash :: [] => .ok ⟨place, true⟩
  | place, step :: rest =>
    if tree.entry? place ≠ some .directory then .error .notDirectory
    else
      match step with
      | .here | .slash => walk tree purpose jump place rest
      | .up => walk tree purpose jump place.dropLast rest
      | .name name =>
        if purpose = .write ∧ rest = [.slash] then .error .isDirectory
        else if maxNameSize < name.utf8ByteSize then .error .nameTooLong
        else
          match tree.entry? (place ++ [name]) with
          | some (.link target) => jump (start target place) (target.steps ++ rest)
          | some _ => walk tree purpose jump (place ++ [name]) rest
          | none =>
            match rest with
            | [] => .ok ⟨place ++ [name], false⟩
            | [.slash] => .ok ⟨place ++ [name], true⟩
            | _ => .error .notFound

/-- Goes along steps from a place, over at most `links` links. -/
def follow (tree : FileTree) (purpose : Purpose) :
    (links : Nat) → Location → List Path.Step → Except FileError Target
  | 0 => walk tree purpose fun _ _ => .error .tooManyLinks
  | links + 1 => walk tree purpose (follow tree purpose links)

/-- Refuses a path that is empty or too long, whatever it asks for. -/
def checkPath (path : Path) : Except FileError Unit :=
  if path = "" then .error .notFound
  else if maxPathSize < path.utf8ByteSize then .error .nameTooLong
  else .ok ()

/-- Where a path leads. -/
def target (tree : FileTree) (purpose : Purpose) (path : Path) : Except FileError Target := do
  checkPath path
  tree.follow purpose maxLinks (start path tree.home) path.steps

/-- What a path denotes, and where it is. -/
def locate (tree : FileTree) (path : Path) : Except FileError (Location × Entry) := do
  let target ← tree.target .find path
  match tree.entry? target.location with
  | none => .error .notFound
  | some (.file bytes) =>
    if target.slash then .error .notDirectory else return (target.location, .file bytes)
  | some entry => return (target.location, entry)

/-- A path denotes something. -/
def exists? (tree : FileTree) (path : Path) : Bool := (tree.locate path).toBool

/-- A path denotes a directory. -/
def isDirectory (tree : FileTree) (path : Path) : Bool :=
  match tree.locate path with
  | .ok (_, .directory) => true
  | _ => false

/-- A path denotes a file. -/
def isFile (tree : FileTree) (path : Path) : Bool :=
  match tree.locate path with
  | .ok (_, .file _) => true
  | _ => false

/-- The entry with a name in the directory of a path is a file, or a link that
leads to one.  Only links are followed, so the path of a file may be too long to
open it. -/
def isFileIn (tree : FileTree) (path : Path) (location : Location) (name : String) : Bool :=
  match tree.entry? (location ++ [name]) with
  | some (.file _) => true
  | some (.link _) => tree.isFile (Path.join path name)
  | _ => false

/-! ## Reading -/

/-- What the file at a place holds. -/
def bytesAt (tree : FileTree) (location : Location) : Except FileError (List UInt8) :=
  match tree.entry? location with
  | some (.file bytes) => .ok bytes
  | some _ => .error .isDirectory
  | none => .error .notFound

/-- What the file of a path holds. -/
def readBytes (tree : FileTree) (path : Path) : Except FileError (List UInt8) := do
  let (location, _) ← tree.locate path
  tree.bytesAt location

/-- The text that the file of a path holds. -/
def readText (tree : FileTree) (path : Path) : Except FileError String := do
  match Text.decode? (← tree.readBytes path) with
  | some text => return String.ofList text
  | none => .error .notText

/-! ## Writing -/

/-- The place of the file that is written by a path: that of the file which the
path denotes, or a free place in a directory. -/
def writable (tree : FileTree) (path : Path) : Except FileError Location := do
  let target ← tree.target .write path
  if tree.entry? target.location == some .directory then .error .isDirectory
  else return target.location

/-- Writes the file of a path. -/
def write (tree : FileTree) (path : Path) (bytes : List UInt8) : Except FileError FileTree := do
  return tree.set (← tree.writable path) (.file bytes)

/-- A free place for the last name of a path, whose other steps lead to a
directory. -/
def freePlace (tree : FileTree) (path : Path) : Except FileError Location := do
  checkPath path
  let steps := path.steps.filter (· ≠ .slash)
  let parent ← tree.follow .find maxLinks (start path tree.home) steps.dropLast
  match tree.entry? parent.location with
  | none => .error .notFound
  | some .directory =>
    match steps.getLast? with
    | some (.name name) =>
      if maxNameSize < name.utf8ByteSize then .error .nameTooLong
      else if (tree.entry? (parent.location ++ [name])).isSome then .error .alreadyExists
      else return parent.location ++ [name]
    | _ => .error .alreadyExists
  | some _ => .error .notDirectory

/-- Creates a directory. -/
def createDirectory (tree : FileTree) (path : Path) : Except FileError FileTree := do
  return tree.set (← tree.freePlace path) .directory

/-- Creates a link. -/
def createLink (tree : FileTree) (path : Path) (target : Path) : Except FileError FileTree := do
  return tree.set (← tree.freePlace path) (.link target)

/-- Creates a directory unless there is one. -/
def ensureDirectory (tree : FileTree) (path : Path) : Except FileError FileTree :=
  match tree.createDirectory path with
  | .ok tree => .ok tree
  | .error e => if tree.isDirectory path then .ok tree else .error e

/-- Creates a directory and those above it, unless there are some already.
What was created before an error stays.  A path has at most `steps` parts. -/
def ensureDirectories : (steps : Nat) → FileTree → Path → FileTree × Option FileError
  | 0, tree, _ => (tree, none)
  | steps + 1, tree, path =>
    match tree.createDirectory path with
    | .ok tree => (tree, none)
    | .error .notFound =>
      match path.parent? with
      | none => (tree, some .notFound)
      | some parent =>
        let (tree, error) :=
          if parent = "" then (tree, none) else ensureDirectories steps tree parent
        match error with
        | some e => (tree, some e)
        | none =>
          match tree.ensureDirectory path with
          | .ok tree => (tree, none)
          | .error e => (tree, some e)
    | .error e => if tree.isDirectory path then (tree, none) else (tree, some e)

/-- Creates a directory and those above it, unless there are some already. -/
def createDirectories (tree : FileTree) (path : Path) : FileTree × Option FileError :=
  ensureDirectories (path.length + 1) tree path

end FileTree

end GoldenFixtures
