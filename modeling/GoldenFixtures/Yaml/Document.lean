import GoldenFixtures.Yaml.Node
import GoldenFixtures.Yaml.Resolve
import GoldenFixtures.Yaml.Scan

/-!
# YAML documents

`Value.read?` gives the value of a text that holds one document at most.  An
alias stands for the whole value of its node.  Nesting is bounded, and so is the
number of aliases that are followed.
-/

namespace GoldenFixtures.Yaml

/-- The number of aliases that may be followed for each node of a document. -/
def aliasesPerNode : Nat := 100

/-- An action that follows aliases and may fail.  The state is the number of
aliases that may still be followed. -/
abbrev Compose (α : Type) := StateT Nat Option α

namespace Compose

/-- The node that a node stands for, which is no alias. -/
def target (anchors : Anchors) (node : Node) : Compose Node := do
  match node with
  | .reference number =>
    match ← get with
    | 0 => failure
    | left + 1 =>
      set left
      match anchors.node? number with
      | some node => return node
      | none => failure
  | node => return node

/-- The values of a mapping's entries, no two of which may have the same
key. -/
def entries (value : Node → Compose Value) :
    List (Node × Node) → List (Value × Value) → Compose (List (Value × Value))
  | [], before => return before.reverse
  | (key, content) :: rest, before => do
    let key ← value key
    if before.any fun entry => key.same entry.1 then failure
    entries value rest ((key, ← value content) :: before)

/-- The value of a node in which at most `depth` collections stand inside one
another. -/
def value (anchors : Anchors) : (depth : Nat) → Node → Compose Value
  | depth, node => do
    match ← target anchors node with
    | .reference _ => failure
    | .scalar tag plain text => scalar? tag plain text
    | .sequence tag items =>
      match depth with
      | 0 => failure
      | depth + 1 => return withTag tag (.sequence (← items.mapM (value anchors depth)))
    | .mapping tag content =>
      match depth with
      | 0 => failure
      | depth + 1 => return withTag tag (.mapping (← entries (value anchors depth) content []))

end Compose

/-- The value of a text, if it is well formed. -/
def Value.read? (text : List Char) : Option Value := do
  let tokens ← tokens? text
  let (root, anchors) ← document? maxDepth tokens
  (Compose.value anchors maxDepth root).run' (aliasesPerNode * root.size)

end GoldenFixtures.Yaml
