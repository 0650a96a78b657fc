import GoldenFixtures.FileTree.Basic
import GoldenFixtures.Json.Reader
import GoldenFixtures.Sbom.Merge

/-!
# Bills of materials in a file tree

`discover` lists the documents below a root in the order of their paths, name by
name.  Links are followed, but not to a directory that the search is inside of.
What else is a file is told by the listing of its directory, so that its path may be
too long to open it.
Entries whose name starts with a point are passed over, the root aside.
`mergeTree` merges what these documents hold.
-/

namespace GoldenFixtures.Sbom

open Json (Value)

/-- The end of the names of documents. -/
def documentSuffix : String := ".cdx.json"

/-- A name is that of a document. -/
def isDocumentName (name : String) : Bool := documentSuffix.toList.isSuffixOf name.toList

/-- Entries whose name starts with a point are passed over. -/
def isHidden (name : String) : Bool := name.toList.head? == some '.'

/-- There is a link at a place. -/
def isLink (tree : FileTree) (location : Location) : Bool :=
  match tree.entry? location with
  | some (.link _) => true
  | _ => false

/-- The documents in the directory that lies `names` below a root and below it.
`chain` are the places of the directories that the search is inside of, this
one first; `depth` bounds the search. -/
def search (tree : FileTree) (root : Path) :
    (depth : Nat) → (chain : List Location) → (names : List String) → List (List String)
  | 0, _, _ => []
  | _ + 1, [], _ => []
  | depth + 1, here :: chain, names =>
    ((tree.names here).filter fun name => !isHidden name).flatMap fun name =>
      let below := names ++ [name]
      if tree.isFileIn (Path.joinAll root names) here name then
        if isDocumentName name then [below] else []
      else
        match tree.locate (Path.joinAll root below) with
        | .ok (location, .directory) =>
          if isLink tree (here ++ [name]) && (here :: chain).contains location then []
          else search tree root depth (location :: here :: chain) below
        | _ => []

/-- No path that leads anywhere has more names below a root than this: links
are limited, and between two of them each name leads further from the root. -/
def maxSearchDepth (tree : FileTree) : Nat := (FileTree.maxLinks + 1) * (tree.height + 1)

/-- The documents below a root, as the names that lead to them. -/
def documentsBelow (tree : FileTree) (root : Path) : List (List String) :=
  match tree.locate root with
  | .ok (_, .file _) =>
    if isDocumentName ((Path.fileName? root).getD root) then [[]] else []
  | .ok (location, .directory) => search tree root (maxSearchDepth tree) [location] []
  | _ => []

/-- The order of paths: by the first name in which they differ, and a path comes
before those that go on from it. -/
def namesPrecede : List String → List String → Bool
  | [], _ => true
  | _ :: _, [] => false
  | a :: as, b :: bs => if a = b then namesPrecede as bs else decide (a < b)

/-- The paths of the documents below a root. -/
def discover (tree : FileTree) (root : Path) : List Path :=
  ((documentsBelow tree root).mergeSort namesPrecede).map (Path.joinAll root)

/-- The document in the file of a path, if it can be read. -/
def document? (tree : FileTree) (path : Path) : Option Value := do
  let text ← (tree.readText path).toOption
  (Value.read text.toList).toOption

/-- The merged documents below a root.  What cannot be read is passed over. -/
def mergeTree (tree : FileTree) (root : Path) : Merge :=
  ((discover tree root).filterMap (document? tree)).foldl Merge.addDocument {}

end GoldenFixtures.Sbom
