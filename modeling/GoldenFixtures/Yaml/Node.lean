import GoldenFixtures.Text.Utf8
import GoldenFixtures.Yaml.Token

/-!
# From YAML tokens to nodes

A node is a scalar, a sequence or a mapping, or it is an alias of another
one.  `document?` reads the one document that a text may hold.

Anchors are numbered by the count of the names that were known when they were
given, so a name that is given again takes a number that the next new name may
take too.  An alias means the last node that was given its anchor's number.
-/

namespace GoldenFixtures.Yaml

/-- A part of a document before its scalars are resolved. -/
inductive Node where
  /-- An alias: it means the node with the number of an anchor. -/
  | reference (number : Nat)
  | scalar (tag : Option TagText) (plain : Bool) (text : List Char)
  | sequence (tag : Option TagText) (items : List Node)
  | mapping (tag : Option TagText) (entries : List (Node × Node))
  deriving Repr

instance : Inhabited Node := ⟨.reference 0⟩

namespace Node

mutual

/-- The size of a node: one for a scalar or an alias, and two more than its
parts for a collection. -/
def size : Node → Nat
  | .reference _ => 1
  | .scalar _ _ _ => 1
  | .sequence _ items => 2 + sizeOfItems items
  | .mapping _ entries => 2 + sizeOfEntries entries

/-- The size of the items of a sequence. -/
def sizeOfItems : List Node → Nat
  | [] => 0
  | item :: items => size item + sizeOfItems items

/-- The size of the entries of a mapping. -/
def sizeOfEntries : List (Node × Node) → Nat
  | [] => 0
  | (key, value) :: entries => size key + size value + sizeOfEntries entries

end

/-- A scalar without any text. -/
def empty (tag : Option TagText) : Node := .scalar tag true []

end Node

/-- The anchors of a document. -/
structure Anchors where
  /-- The number of each name. -/
  numbers : List (List Char × Nat) := []
  /-- The nodes that were given a number, in the order in which they end, each
  with the count of those that were given one before it started. -/
  nodes : List (Nat × Nat × Node) := []
  /-- The count of the nodes that were given a number. -/
  count : Nat := 0

namespace Anchors

/-- The number that a name is given. -/
def nextNumber (anchors : Anchors) : Nat := anchors.numbers.length

/-- The anchors after a name was given its number. -/
def give (anchors : Anchors) (name : List Char) : Anchors :=
  let others := anchors.numbers.filter fun entry => entry.1 != name
  { anchors with
    numbers := (name, anchors.nextNumber) :: others
    count := anchors.count + 1 }

/-- The node that started last of those with a number. -/
def node? (anchors : Anchors) (number : Nat) : Option Node :=
  let last := anchors.nodes.foldl
    (fun (best : Option (Nat × Node)) entry =>
      if entry.1 != number then best
      else
        match best with
        | some (start, node) =>
          if start < entry.2.1 then some entry.2 else some (start, node)
        | none => some entry.2)
    none
  last.map Prod.snd

end Anchors

/-- What is left of the tokens, and the anchors so far. -/
structure Reader where
  tokens : List Token
  anchors : Anchors := {}
  /-- A number above that of the tokens. -/
  steps : Nat
  /-- The texts that tag handles stand for. -/
  handles : List (List Char × TagText)

/-- An action that reads tokens and may fail. -/
abbrev Read (α : Type) := StateT Reader Option α

namespace Reader

/-- The next token; none at the end. -/
def peek : Read (Option Token) := return (← get).tokens.head?

/-- Leaves the next token out. -/
def drop : Read Unit := modify fun r => { r with tokens := r.tokens.tail }

/-- Leaves the next token out if it is the one given. -/
def dropIf (token : Token) : Read Bool := do
  if (← peek) == some token then
    drop
    return true
  else return false

/-- A number above that of the tokens. -/
def stepBound : Read Nat := return (← get).steps

/-! ## Properties -/

/-- What stands in front of a node's content. -/
structure Properties where
  anchor : Option (List Char) := none
  tag : Option TagText := none

/-- Reads an anchor. -/
def anchor : Read (Option (List Char)) := do
  match ← peek with
  | some (.anchor name) =>
    drop
    return some name
  | _ => return none

/-- Reads a tag, with its handle replaced by the text that it stands for. -/
def tag : Read (Option TagText) := do
  match ← peek with
  | some (.tag handle suffix) =>
    drop
    if handle.isEmpty then return some suffix
    match (← get).handles.lookup handle with
    | some expansion => return some (expansion ++ suffix)
    | none => failure
  | _ => return none

/-- Reads an anchor and a tag in either order. -/
def properties : Read Properties := do
  match ← anchor with
  | some name => return ⟨some name, ← tag⟩
  | none =>
    match ← tag with
    | some text => return ⟨← anchor, some text⟩
    | none => return {}

/-- Reads a node whose anchor is given its number before the node's content is
read. -/
def anchored (properties : Properties) (content : Read Node) : Read Node := do
  match properties.anchor with
  | none => content
  | some name =>
    let anchors := (← get).anchors
    modify fun r => { r with anchors := anchors.give name }
    let node ← content
    modify fun r =>
      { r with
        anchors :=
          { r.anchors with
            nodes := (anchors.nextNumber, anchors.count, node) :: r.anchors.nodes } }
    return node

/-! ## Collections -/

/-- Reads a node unless one of the tokens follows that may stand in its place;
the node is empty then. -/
def nodeUnless (node : Read Node) (ends : Option Token → Bool) : Read Node := do
  if ends (← peek) then return Node.empty none else node

/-- Reads the items of a block sequence behind its start. -/
def blockItems (node : Read Node) : (steps : Nat) → Read (List Node)
  | 0 => failure
  | steps + 1 => do
    if ← dropIf .blockEntry then
      let item ← nodeUnless node fun t => t == some .blockEntry || t == some .blockEnd
      return item :: (← blockItems node steps)
    else if ← dropIf .blockEnd then return []
    else failure

/-- The token ends an entry of a block mapping. -/
def endsEntry (token : Option Token) : Bool :=
  token == some .key || token == some .value || token == some .blockEnd

/-- Reads the items of a sequence that stands in a mapping without being
indented. -/
def unindentedItems (node : Read Node) : (steps : Nat) → Read (List Node)
  | 0 => failure
  | steps + 1 => do
    if ← dropIf .blockEntry then
      let item ← nodeUnless node fun t => t == some .blockEntry || endsEntry t
      return item :: (← unindentedItems node steps)
    else return []

/-- Reads the value of an entry of a block mapping, if it has one. -/
def blockValue (node : Read Node) : Read Node := do
  if ← dropIf .value then nodeUnless node endsEntry else return Node.empty none

/-- Reads the entries of a block mapping behind its start. -/
def blockEntries (node : Read Node) : (steps : Nat) → Read (List (Node × Node))
  | 0 => failure
  | steps + 1 => do
    if ← dropIf .key then
      let key ← nodeUnless node endsEntry
      let value ← blockValue node
      return (key, value) :: (← blockEntries node steps)
    else if ← dropIf .blockEnd then return []
    else failure

/-- Reads the value behind a key inside brackets or braces, if there is
one. -/
def flowValue (node : Read Node) (close : Token) : Read Node := do
  if ← dropIf .value then
    nodeUnless node fun t => t == some .flowEntry || t == some close
  else return Node.empty none

/-- Reads a mapping of one entry inside brackets, behind the mark of its key.
In place of an empty key the token that follows it is left out. -/
def singleEntry (node : Read Node) : Read Node := do
  let next ← peek
  let key ←
    if next == some .value || next == some .flowEntry || next == some .flowSequenceEnd then do
      drop
      pure (Node.empty none)
    else node
  let value ← flowValue node .flowSequenceEnd
  return .mapping none [(key, value)]

/-- Reads an item inside brackets. -/
def flowItem (node : Read Node) : Read Node := do
  if ← dropIf .key then singleEntry node else node

/-- Reads an entry inside braces.  A node without the mark of a key has no
value. -/
def flowPair (node : Read Node) : Read (Node × Node) := do
  if ← dropIf .key then
    let key ← nodeUnless node fun t =>
      t == some .value || t == some .flowEntry || t == some .flowMappingEnd
    let value ← flowValue node .flowMappingEnd
    return (key, value)
  else return (← node, Node.empty none)

/-- Reads what stands between brackets or braces: parts with commas between
them, and perhaps one behind the last. -/
def flowParts {α : Type} (part : Read α) (close : Token) : (steps : Nat) → Read (List α)
  | 0 => failure
  | steps + 1 => do
    if ← dropIf close then return []
    let first ← part
    if ← dropIf .flowEntry then return first :: (← flowParts part close steps)
    else if ← dropIf close then return [first]
    else failure

/-! ## Nodes -/

/-- Where a node stands. -/
inductive Setting where
  | block
  /-- In a block mapping, where a sequence need not be indented. -/
  | blockMapping
  | flow
  deriving DecidableEq

/-- Reads a node in which at most `depth` collections stand inside one
another. -/
def node : (depth : Nat) → Setting → Read Node
  | depth, setting => do
    let deeper : Read (Setting → Read Node) :=
      match depth with
      | 0 => failure
      | depth + 1 => return node depth
    match ← peek with
    | some (.reference name) =>
      drop
      match (← get).anchors.numbers.lookup name with
      | some number => return .reference number
      | none => failure
    | _ =>
      let properties ← properties
      let tag := properties.tag
      let steps ← stepBound
      anchored properties do
        let next ← peek
        match next with
        | some (.scalar plain text) =>
          drop
          return .scalar tag plain text
        | some .flowSequenceStart =>
          drop
          let child ← deeper
          return .sequence tag (← flowParts (flowItem (child .flow)) .flowSequenceEnd steps)
        | some .flowMappingStart =>
          drop
          let child ← deeper
          return .mapping tag (← flowParts (flowPair (child .flow)) .flowMappingEnd steps)
        | _ =>
          if setting == .blockMapping && next == some .blockEntry then
            let child ← deeper
            return .sequence tag (← unindentedItems (child .block) steps)
          else if setting != .flow && next == some .blockSequenceStart then
            drop
            let child ← deeper
            return .sequence tag (← blockItems (child .block) steps)
          else if setting != .flow && next == some .blockMappingStart then
            drop
            let child ← deeper
            return .mapping tag (← blockEntries (child .blockMapping) steps)
          else if properties.anchor.isSome || tag.isSome then
            return Node.empty tag
          else failure

/-! ## Documents -/

/-- The handles that need no directive. -/
def standardHandles : List (List Char × TagText) :=
  [(['!'], Text.encode ['!']), (['!', '!'], Text.encode "tag:yaml.org,2002:".toList)]

/-- Reads directives: whether there was one for the version, and the handles
that were given. -/
def directives : (steps : Nat) → (versioned : Bool) → List (List Char × TagText) →
    Read (List (List Char × TagText))
  | 0, _, _ => failure
  | steps + 1, versioned, handles => do
    match ← peek with
    | some (.version major minor) =>
      if versioned || major != 1 || (minor != 1 && minor != 2) then failure
      drop
      directives steps true handles
    | some (.tagHandle handle expansion) =>
      if (handles.lookup handle).isSome then failure
      drop
      directives steps versioned ((handle, expansion) :: handles)
    | _ => return handles

/-- The token may start a document with a marker. -/
def startsExplicitly : Token → Bool
  | .version _ _ | .tagHandle _ _ | .documentStart => true
  | _ => false

/-- The token ends a document, or starts another one. -/
def endsDocument : Token → Bool
  | .documentEnd => true
  | token => startsExplicitly token

/-- Reads a document behind its directives and its marker. -/
def explicitDocument (depth : Nat) : Read Node := do
  let given ← directives (← stepBound) false []
  if !(← dropIf .documentStart) then failure
  modify fun r => { r with handles := given ++ standardHandles }
  match ← peek with
  | none => return Node.empty none
  | some token =>
    if endsDocument token then return Node.empty none else node depth .block

/-- Leaves out the markers of a document's end. -/
def dropEnds : (steps : Nat) → Read Unit
  | 0 => return
  | steps + 1 => do
    if ← dropIf .documentEnd then dropEnds steps

/-- Reads the only document. -/
def document (depth : Nat) : Read Node := do
  match ← peek with
  | none => return Node.empty none
  | some token =>
    let root ← if startsExplicitly token then explicitDocument depth else node depth .block
    dropEnds (← stepBound)
    if (← peek).isSome then failure
    return root

end Reader

/-- The only document of a list of tokens, with its anchors.  A list without
any tokens is an empty document. -/
def document? (depth : Nat) (tokens : List Token) : Option (Node × Anchors) := do
  let (root, reader) ← (Reader.document depth).run
    { tokens, steps := tokens.length + 1, handles := Reader.standardHandles }
  return (root, reader.anchors)

end GoldenFixtures.Yaml
