import GoldenFixtures.FileTree.Basic

/-!
# The disk

The tools work on file trees in memory.  `Disk.survey` brings into a tree what
stands on the disk along a path and, if asked, below the directory that the path
denotes.  `Disk.store` puts on the disk what a tool changed in a tree.
-/

namespace GoldenFixtures.Disk

/-- What a survey looks at below a path. -/
structure Scope where
  /-- If the path denotes a directory, its entries are surveyed too. -/
  lists : Bool := false
  /-- The names of the directories that are listed in their turn. -/
  enters : String → Bool := fun _ => false
  /-- The names of the files that are read in a directory.  A file that the path
  itself denotes is always read. -/
  reads : String → Bool := fun _ => false

/-- The place of an absolute path. -/
def locationOf (path : Path) : Location := path.segments.filter (· ≠ "")

/-- The absolute path of a place. -/
def pathOf (location : Location) : Path := "/" ++ "/".intercalate location

/-- The places from below the root down to a place. -/
def lineage (location : Location) : List Location :=
  (List.range location.length).map fun n => location.take (n + 1)

/-- A tree that holds nothing but the working directory and those above it. -/
def emptyTree : IO FileTree := do
  let home := locationOf (← IO.FS.realPath ".").toString
  return { entries := (lineage home).map fun place => (place, .directory), home }

/-- The value of an action, or none if it fails. -/
def attempt {α : Type} (action : IO α) : IO (Option α) := do
  try return some (← action) catch _ => return none

/-- What stands at a place.  A link is kept as the place that it leads to, and
is none if it leads nowhere.  A device, and a file that is not read, count as
empty files. -/
def entry? (reads : Bool) (location : Location) : IO (Option Entry) := do
  let place := (← IO.FS.realPath (pathOf location.dropLast)) / location.getLast?.getD ""
  let data ← attempt place.symlinkMetadata
  match data.map IO.FS.Metadata.type with
  | none => return none
  | some .dir => return some .directory
  | some .symlink => return (← attempt (IO.FS.realPath place)).map fun path => .link path.toString
  | some .file =>
    if reads then return some (.file (← IO.FS.readBinFile place).toList)
    else return some (.file [])
  | some .other => return some (.file [])

/-- Brings the entry at a place into a tree.  A file that is read takes the
stead of one that was not. -/
def surveyEntry (reads : Bool) (tree : FileTree) (location : Location) : IO FileTree := do
  match tree.entry? location with
  | some (.file []) | none =>
    match ← entry? reads location with
    | some entry => return tree.set location entry
    | none => return tree
  | some _ => return tree

/-- Brings into a tree what stands along steps from a place, and tells where
they lead.  There are no links on the way to a link's target. -/
def surveySteps (reads : Bool) (tree : FileTree) :
    Location → List Path.Step → IO (FileTree × Option Location)
  | place, [] => return (tree, some place)
  | place, .here :: rest | place, .slash :: rest => surveySteps reads tree place rest
  | place, .up :: rest => surveySteps reads tree place.dropLast rest
  | place, .name name :: rest => do
    let below := place ++ [name]
    let tree ← surveyEntry reads tree below
    match tree.entry? below with
    | none => return (tree, none)
    | some (.link target) =>
      let target := locationOf target
      let tree ← (lineage target).foldlM (surveyEntry reads) tree
      surveySteps reads tree target rest
    | some _ => surveySteps reads tree below rest

/-- The names of the entries of a directory. -/
def names (location : Location) : IO (List String) := do
  let entries ← attempt (do (← IO.FS.realPath (pathOf location)).readDir)
  return (entries.getD #[]).toList.map (·.fileName)

/-- Brings into a tree the entries of directories, and those of the directories
among them that the scope enters.  `listed` are the directories that were listed
before. -/
partial def surveyBelow (scope : Scope) (tree : FileTree) (listed : List Location) :
    List Location → IO FileTree
  | [] => return tree
  | here :: rest => do
    if listed.contains here then
      surveyBelow scope tree listed rest
    else
      let mut tree := tree
      let mut entered := []
      for name in ← names here do
        let (next, place) ← surveySteps (scope.reads name) tree here [.name name]
        tree := next
        match place with
        | some place =>
          if scope.enters name && tree.entry? place == some .directory then
            entered := place :: entered
        | none => pure ()
      surveyBelow scope tree (here :: listed) (entered ++ rest)

/-- Brings into a tree what stands on the disk along a path and, as the scope
says, below it. -/
def survey (tree : FileTree) (path : Path) (scope : Scope) : IO FileTree := do
  let (tree, place) ← surveySteps true tree (FileTree.start path tree.home) path.steps
  match place with
  | some place =>
    if scope.lists && tree.entry? place == some .directory then surveyBelow scope tree [] [place]
    else return tree
  | none => return tree

/-- Puts on the disk what stands otherwise in the second tree than in the
first. -/
def store (before after : FileTree) : IO Unit := do
  for (location, entry) in before.changes after do
    match entry with
    | .file bytes => IO.FS.writeBinFile (pathOf location) ⟨bytes.toArray⟩
    | .directory => IO.FS.createDirAll (pathOf location)
    | .link _ => pure ()

end GoldenFixtures.Disk
