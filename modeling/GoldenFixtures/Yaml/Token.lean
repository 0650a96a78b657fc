/-!
# YAML tokens

What a YAML text consists of once its scalars are read and its indentation is
turned into starts and ends of collections.
-/

namespace GoldenFixtures.Yaml

/-- The number of collections that may stand inside one another. -/
def maxDepth : Nat := 128

/-- The text of a tag, which may hold any bytes. -/
abbrev TagText := List UInt8

/-- A token. -/
inductive Token where
  | version (major minor : Nat)
  | tagHandle (handle : List Char) (expansion : TagText)
  | documentStart
  | documentEnd
  | blockSequenceStart
  | blockMappingStart
  | blockEnd
  | flowSequenceStart
  | flowSequenceEnd
  | flowMappingStart
  | flowMappingEnd
  | blockEntry
  | flowEntry
  | key
  | value
  /-- An alias: it means the node with the name of an anchor. -/
  | reference (name : List Char)
  | anchor (name : List Char)
  /-- A tag; an empty handle leaves the suffix as it is. -/
  | tag (handle : List Char) (suffix : TagText)
  | scalar (plain : Bool) (text : List Char)
  deriving DecidableEq, Repr

end GoldenFixtures.Yaml
