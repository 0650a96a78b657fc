import GoldenFixtures.Sbom.Component

/-!
# Merged bills of materials

The components of several documents in one list, in which the first component
with an identity counts.
-/

namespace GoldenFixtures.Sbom

open Json (Value Members)

/-- The components merged so far, in order, and the identities that were seen. -/
structure Merge where
  seen : List Identity := []
  components : List Members := []

namespace Merge

/-- Adds a component, unless its identity was seen.  The number counts the
components that were added. -/
def add (state : Merge × Nat) (component : Members) : Merge × Nat :=
  let (merge, added) := state
  let identity := Identity.ofMembers component
  if identity ∈ merge.seen then (merge, added)
  else (⟨identity :: merge.seen, merge.components ++ [component]⟩, added + 1)

/-- The members of a value that is an object. -/
def object? : Value → Option Members
  | .object members => some members
  | _ => none

/-- The components of a document: the objects of its `components` list. -/
def componentsOf (document : Value) : List Members :=
  match document.get? "components" with
  | some (.array items) => items.filterMap object?
  | _ => []

/-- Adds components, and tells how many of them were new. -/
def addAll (merge : Merge) (components : List Members) : Merge × Nat :=
  components.foldl add (merge, 0)

/-- Adds the components of a document. -/
def addDocument (merge : Merge) (document : Value) : Merge :=
  (merge.addAll (componentsOf document)).1

/-- The number of components that a document adds. -/
def countNew (merge : Merge) (document : Value) : Nat :=
  (merge.addAll (componentsOf document)).2

/-- The number of components. -/
def size (merge : Merge) : Nat := merge.components.length

/-- The merged document. -/
def toValue (merge : Merge) : Value :=
  .object
    [("bomFormat", .string "CycloneDX"),
      ("specVersion", .string "1.3"),
      ("serialNumber", .string "urn:uuid:00000000-0000-0000-0000-000000000000"),
      ("version", .number (.ofNat 1)),
      ("metadata", .object
        [("component", .object
          [("type", .string "application"), ("name", .string "zaevrynth-workspace")])]),
      ("components", .array (merge.components.map Value.object))]

/-- The text of the merged document. -/
def render (merge : Merge) : String := merge.toValue.toPretty

end Merge

end GoldenFixtures.Sbom
