import GoldenFixtures.Yaml.Scalar
import GoldenFixtures.Yaml.Tag

/-!
# From a YAML text to its tokens

`Scanner` is the state of a scan from left to right.  Indentation opens and
closes block collections.  A key need not be marked: where one may start, the
scanner keeps the place as a `KeyPlace`, and when a colon follows on the same
line, the token that marks the key is put in at that place.
-/

namespace GoldenFixtures.Yaml

/-- A place where a key without a mark may start. -/
structure KeyPlace where
  /-- The number of tokens in front of it. -/
  tokens : Nat
  /-- A block mapping cannot go on without a key here. -/
  required : Bool
  index : Nat
  line : Nat
  column : Nat
  deriving Repr

/-- The number of bytes that a key without a mark may have. -/
def maxKeyLength : Nat := 1024

/-- The state of a scan. -/
structure Scanner where
  cursor : Cursor
  /-- The tokens so far, the last one first. -/
  tokens : List Token := []
  count : Nat := 0
  /-- The columns of the open block collections, the innermost first. -/
  indents : List Nat := []
  /-- A key without a mark may start here. -/
  keyAllowed : Bool := true
  /-- Where the key that is being read may have started. -/
  keyPlace : Option KeyPlace := none
  /-- The same for the text around each open bracket or brace. -/
  outerPlaces : List (Option KeyPlace) := []

namespace Scanner

/-- The scan is inside brackets or braces. -/
def inFlow (s : Scanner) : Bool := !s.outerPlaces.isEmpty

/-- A place lies on the line of the cursor and not too far in front of it. -/
def isNear (s : Scanner) (place : KeyPlace) : Bool :=
  s.cursor.line ≤ place.line && s.cursor.index ≤ place.index + maxKeyLength

/-- Adds a token at the end. -/
def emit (s : Scanner) (token : Token) : Scanner :=
  { s with tokens := token :: s.tokens, count := s.count + 1 }

/-- Puts a token in behind the first `place` tokens. -/
def insert (s : Scanner) (place : Nat) (token : Token) : Scanner :=
  let behind := s.count - place
  { s with
    tokens := s.tokens.take behind ++ token :: s.tokens.drop behind
    count := s.count + 1 }

/-- Closes the block collections to the right of a column. -/
def closeBlocks (s : Scanner) (column : Nat) : Scanner :=
  if s.inFlow then s
  else
    let closed := s.indents.takeWhile (column < ·)
    closed.foldl (fun s _ => s.emit .blockEnd) { s with indents := s.indents.drop closed.length }

/-- Closes all block collections. -/
def closeAllBlocks (s : Scanner) : Scanner :=
  if s.inFlow then s
  else s.indents.foldl (fun s _ => s.emit .blockEnd) { s with indents := [] }

/-- A block collection at a column would lie to the right of the innermost
one. -/
def opensBlock (s : Scanner) (column : Nat) : Bool :=
  !s.inFlow && s.indents.head?.all (· < column)

/-- Opens a block collection at the cursor, unless it is open already. -/
def openBlock (s : Scanner) (token : Token) : Scanner :=
  if s.opensBlock s.cursor.column then
    { s with indents := s.cursor.column :: s.indents }.emit token
  else s

/-- Gives up the place where a key may have started.  A required key has to
be one. -/
def dropKeyPlace (s : Scanner) : Option Scanner :=
  if s.keyPlace.any KeyPlace.required then none else some { s with keyPlace := none }

/-- Keeps the cursor's place if a key may start there. -/
def saveKeyPlace (s : Scanner) : Option Scanner := do
  if !s.keyAllowed then return s
  let s ← s.dropKeyPlace
  let required := !s.inFlow && s.indents.head? == some s.cursor.column
  return { s with
    keyPlace := some
      ⟨s.count, required, s.cursor.index, s.cursor.line, s.cursor.column⟩ }

/-- Gives up a place that is too far in front of the cursor. -/
def dropFarPlace? (s : Scanner) (place : Option KeyPlace) : Option (Option KeyPlace) :=
  match place with
  | none => some none
  | some place =>
    if s.isNear place then some (some place)
    else if place.required then none
    else some none

/-- Gives up all places that are too far in front of the cursor. -/
def dropFarPlaces (s : Scanner) : Option Scanner := do
  let keyPlace ← s.dropFarPlace? s.keyPlace
  let outerPlaces ← s.outerPlaces.mapM s.dropFarPlace?
  return { s with keyPlace, outerPlaces }

/-- Moves the cursor behind white space and comments.  A byte-order mark may
stand at the start of a line.  Outside brackets and braces, a tab may not stand
where a key may start, and a new line may start with a key. -/
def skipToToken : (steps : Nat) → Scanner → Scanner
  | 0, s => s
  | steps + 1, s =>
    let cursor := s.cursor
    let cursor :=
      if cursor.column == 0 && cursor.next? == some '\ufeff' then cursor.skip 1 else cursor
    let tabs := s.inFlow || !s.keyAllowed
    let cursor := cursor.skipWhile fun c => c == ' ' || (tabs && c == '\t')
    let cursor := if cursor.next? == some '#' then cursor.skipWhile (!isBreak ·) else cursor
    if cursor.next?.any isBreak then
      skipToToken steps
        { s with cursor := cursor.skipBreak, keyAllowed := s.keyAllowed || !s.inFlow }
    else { s with cursor }

/-! ## Marks -/

/-- Reads a directive. -/
def directive (s : Scanner) : Option Scanner := do
  let s ← s.closeAllBlocks.dropKeyPlace
  let (token, cursor) ← readDirective (s.cursor.skip 1)
  return { s with cursor, keyAllowed := false }.emit token

/-- Reads the marker of a document's start or end. -/
def documentMarker (s : Scanner) (token : Token) : Option Scanner := do
  let s ← s.closeAllBlocks.dropKeyPlace
  return { s with cursor := s.cursor.skip 3, keyAllowed := false }.emit token

/-- Reads an opening bracket or brace, inside of which no more than `maxDepth`
others may be open. -/
def flowStart (s : Scanner) (token : Token) : Option Scanner := do
  if maxDepth < s.outerPlaces.length then none
  let s ← s.saveKeyPlace
  return { s with
    cursor := s.cursor.skip 1
    keyAllowed := true
    keyPlace := none
    outerPlaces := s.keyPlace :: s.outerPlaces }.emit token

/-- Reads a closing bracket or brace. -/
def flowEnd (s : Scanner) (token : Token) : Option Scanner := do
  let s ← s.dropKeyPlace
  let s := { s with cursor := s.cursor.skip 1, keyAllowed := false }
  match s.outerPlaces with
  | [] => return s.emit token
  | keyPlace :: outerPlaces => return { s with keyPlace, outerPlaces }.emit token

/-- Reads a comma inside brackets or braces. -/
def flowEntry (s : Scanner) : Option Scanner := do
  let s ← s.dropKeyPlace
  return { s with cursor := s.cursor.skip 1, keyAllowed := true }.emit .flowEntry

/-- Reads the dash of a block sequence. -/
def blockEntry (s : Scanner) : Option Scanner := do
  if !s.inFlow && !s.keyAllowed then none else
  let s ← (s.openBlock .blockSequenceStart).dropKeyPlace
  return { s with cursor := s.cursor.skip 1, keyAllowed := true }.emit .blockEntry

/-- Reads the question mark of a key. -/
def key (s : Scanner) : Option Scanner := do
  if !s.inFlow && !s.keyAllowed then none else
  let s ← (s.openBlock .blockMappingStart).dropKeyPlace
  return { s with cursor := s.cursor.skip 1, keyAllowed := !s.inFlow }.emit .key

/-- Marks the key that started at a place. -/
def markKey (s : Scanner) (place : KeyPlace) : Scanner :=
  let s := s.insert place.tokens .key
  if s.opensBlock place.column then
    { s with indents := place.column :: s.indents }.insert place.tokens .blockMappingStart
  else s

/-- Reads the colon of a value. -/
def value (s : Scanner) : Option Scanner :=
  match s.keyPlace with
  | some place =>
    let s := s.markKey place
    some ({ s with
      cursor := s.cursor.skip 1, keyAllowed := false, keyPlace := none }.emit .value)
  | none =>
    if !s.inFlow && !s.keyAllowed then none
    else
      let s := s.openBlock .blockMappingStart
      some ({ s with cursor := s.cursor.skip 1, keyAllowed := !s.inFlow }.emit .value)

/-! ## Content -/

/-- Reads the name of an anchor or alias. -/
def name (s : Scanner) (token : List Char → Token) : Option Scanner := do
  let s ← s.saveKeyPlace
  let (name, cursor) ← readName (s.cursor.skip 1)
  return { s with cursor, keyAllowed := false }.emit (token name)

/-- Reads a tag. -/
def tag (s : Scanner) : Option Scanner := do
  let s ← s.saveKeyPlace
  let (token, cursor) ← readTag s.inFlow s.cursor
  return { s with cursor, keyAllowed := false }.emit token

/-- Reads a block of lines. -/
def block (s : Scanner) (steps : Nat) (literal : Bool) : Option Scanner := do
  let s ← s.dropKeyPlace
  let (text, cursor) ← readBlock literal s.indents.head? steps (s.cursor.skip 1)
  return { s with cursor, keyAllowed := true }.emit (.scalar false text)

/-- Reads a quoted scalar. -/
def quoted (s : Scanner) (steps : Nat) (quote : Char) : Option Scanner := do
  let s ← s.saveKeyPlace
  let (text, cursor) ← readQuoted quote steps (s.cursor.skip 1)
  return { s with cursor, keyAllowed := false }.emit (.scalar false text)

/-- Reads a plain scalar.  A key may start behind it if a line ended there. -/
def plain (s : Scanner) (steps : Nat) : Option Scanner := do
  let s ← s.saveKeyPlace
  let indent :=
    match s.indents.head? with
    | some column => column + 1
    | none => 0
  let scalar ← readPlain s.inFlow indent steps s.cursor
  return { s with cursor := scalar.cursor, keyAllowed := scalar.broken }.emit
    (.scalar true scalar.text)

/-- The characters that no plain scalar starts with. -/
def isIndicator (c : Char) : Bool :=
  c ∈ ['-', '?', ':', ',', '[', ']', '{', '}', '#', '&', '*', '!', '|', '>', '\'', '"', '%',
    '@', '`']

/-- A plain scalar may start with a character, given what follows it. -/
def startsPlain (s : Scanner) (c : Char) (rest : List Char) : Bool :=
  !(isWhite c || isIndicator c)
    || (c == '-' && !rest.head?.any isBlank)
    || (!s.inFlow && (c == '?' || c == ':') && !endsWord rest)

/-- Reads the token at the cursor, which starts with a character. -/
def token (s : Scanner) (steps : Nat) (c : Char) (rest : List Char) : Option Scanner :=
  let marks := s.inFlow || endsWord rest
  if s.cursor.column == 0 && c == '%' then s.directive
  else if s.cursor.atMarker '-' then s.documentMarker .documentStart
  else if s.cursor.atMarker '.' then s.documentMarker .documentEnd
  else if c == '[' then s.flowStart .flowSequenceStart
  else if c == '{' then s.flowStart .flowMappingStart
  else if c == ']' then s.flowEnd .flowSequenceEnd
  else if c == '}' then s.flowEnd .flowMappingEnd
  else if c == ',' then s.flowEntry
  else if c == '-' && endsWord rest then s.blockEntry
  else if c == '?' && marks then s.key
  else if c == ':' && marks then s.value
  else if c == '*' then s.name .reference
  else if c == '&' then s.name .anchor
  else if c == '!' then s.tag
  else if c == '|' && !s.inFlow then s.block steps true
  else if c == '>' && !s.inFlow then s.block steps false
  else if c == '\'' || c == '"' then s.quoted steps c
  else if s.startsPlain c rest then s.plain steps
  else none

/-- Reads all tokens that are left.  Each step takes at least one
character. -/
def run : (steps : Nat) → Scanner → Option (List Token)
  | 0, _ => none
  | steps + 1, s => do
    let s ← (s.skipToToken (steps + 1)).dropFarPlaces
    match s.cursor.rest with
    | [] =>
      let s ← s.closeAllBlocks.dropKeyPlace
      return s.tokens.reverse
    | c :: rest =>
      let s ← (s.closeBlocks s.cursor.column).token (steps + 1) c rest
      run steps s

end Scanner

/-- The tokens of a text. -/
def tokens? (text : List Char) : Option (List Token) :=
  if text.all isAllowed then Scanner.run (text.length + 1) { cursor := { rest := text } } else none

end GoldenFixtures.Yaml
