/-!
# Paths

A path is the text by which a file is asked for.  It is kept as it is given,
since messages show it so, and taken apart at its slashes where its parts
matter.
-/

namespace GoldenFixtures

/-- The text of a path. -/
abbrev Path := String

namespace Path

/-- A text cut at its slashes. -/
def splitSlashes : List Char → List (List Char)
  | [] => [[]]
  | c :: rest =>
    if c = '/' then [] :: splitSlashes rest
    else
      match splitSlashes rest with
      | [] => [[c]]
      | segment :: segments => (c :: segment) :: segments

/-- The texts between the slashes of a path; some may be empty. -/
def segments (path : Path) : List String :=
  (splitSlashes path.toList).map String.ofList

/-- The path starts at the root and not at the working directory. -/
def isAbsolute (path : Path) : Bool := path.toList.head? == some '/'

/-- What a segment of a path asks for. -/
inductive Step where
  /-- Stay in the directory. -/
  | here
  /-- Go to the directory above. -/
  | up
  /-- Go to the entry with a name. -/
  | name (name : String)
  /-- The slash at the end of a path: what was reached has to be a
  directory. -/
  | slash
  deriving DecidableEq, Repr

/-- The step of a segment; an empty one is none. -/
def Step.ofSegment? (segment : String) : Option Step :=
  if segment = "" then none
  else if segment = "." then some .here
  else if segment = ".." then some .up
  else some (.name segment)

/-- The steps of a path from where it starts. -/
def steps (path : Path) : List Step :=
  let steps := path.segments.filterMap Step.ofSegment?
  match steps.getLast? with
  | some (.name _) => if path.toList.getLast? = some '/' then steps ++ [.slash] else steps
  | _ => steps

/-- The path of an entry in the directory of a path. -/
def join (path : Path) (name : String) : Path :=
  if path = "" ∨ path.toList.getLast? = some '/' then path ++ name else path ++ "/" ++ name

/-- The path of an entry that lies several directories below a path. -/
def joinAll (path : Path) (names : List String) : Path := names.foldl join path

/-- Segments without the empty ones and the dots at their end.  The first
segment is kept: it tells an absolute path, or one that starts with a dot. -/
def trimSegments (segments : List String) : List String :=
  match segments with
  | [] => []
  | first :: rest =>
    let rest := (rest.reverse.dropWhile fun s => s == "" || s == ".").reverse
    if rest.isEmpty && first == "" then [] else first :: rest

/-- The name of the entry that a path asks for, unless it ends with dots. -/
def fileName? (path : Path) : Option String :=
  match (trimSegments path.segments).getLast? with
  | some name => if name = "" ∨ name = "." ∨ name = ".." then none else some name
  | none => none

/-- The path of the directory that an entry lies in: none for the root, and an
empty path for a name alone. -/
def parent? (path : Path) : Option Path :=
  let segments := trimSegments path.segments
  if segments.isEmpty then none
  else
    let parents := trimSegments segments.dropLast
    if parents.isEmpty then
      if path.isAbsolute then some "/" else some ""
    else some ("/".intercalate parents)

/-- The part of a name behind its last point, if there is something in front of
the point. -/
def extension? (name : String) : Option String :=
  let reversed := name.toList.reverse
  match reversed.dropWhile (· ≠ '.') with
  | _ :: _ :: _ => some (String.ofList (reversed.takeWhile (· ≠ '.')).reverse)
  | _ => none

end Path

end GoldenFixtures
