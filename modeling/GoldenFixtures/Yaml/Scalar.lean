import GoldenFixtures.Json.Reader
import GoldenFixtures.Yaml.Cursor

/-!
# The text of scalars

A scalar is plain, quoted or a block of lines.  Each reader takes a cursor
and gives the text of the scalar together with the cursor behind it, or
nothing if the scalar is malformed.  Each step of a reader takes at least one
character, so `steps` may be any number above that of the characters left.
-/

namespace GoldenFixtures.Yaml

/-! ## Plain scalars -/

/-- The characters that end a plain scalar inside brackets or braces. -/
def isFlowMark (c : Char) : Bool := c == ',' || c == '[' || c == ']' || c == '{' || c == '}'

/-- The characters of a plain scalar up to white space or to what ends the
scalar.  A colon inside brackets or braces may not be followed by one of their
marks. -/
def plainWord? (inFlow : Bool) : List Char → Option (List Char)
  | [] => some []
  | c :: rest =>
    let next := rest.head?
    if isWhite c then some []
    else if inFlow && c == ':' && (next.any fun d => isFlowMark d || d == '?') then none
    else if c == ':' && endsWord rest then some []
    else if inFlow && isFlowMark c then some []
    else (plainWord? inFlow rest).map (c :: ·)

/-- A run of white space starts a line with a tab where indentation is due. -/
def tabbed (indent : Nat) (white : List Char) : Bool :=
  go false 0 white
where
  /-- Walks along the run: whether a line end was met, and the column. -/
  go : Bool → Nat → List Char → Bool
    | _, _, [] => false
    | broken, column, c :: rest =>
      if isBreak c then go true 0 rest
      else (broken && column < indent && c == '\t') || go broken (column + 1) rest

/-- A plain scalar: its text, the cursor behind it and behind the white space
after it, and whether that white space holds a line end. -/
structure PlainScalar where
  text : List Char
  cursor : Cursor
  broken : Bool

/-- Reads a plain scalar from one word on.  `indent` is the column that its
lines have to reach, `white` the white space in front of the word. -/
def readPlainWords (inFlow : Bool) (indent : Nat) :
    (steps : Nat) → (white : List Char) → Cursor → Option PlainScalar
  | 0, white, cursor => some ⟨[], cursor, !(lineBreaks white).isEmpty⟩
  | steps + 1, white, cursor =>
    let stop : PlainScalar := ⟨[], cursor, !(lineBreaks white).isEmpty⟩
    if cursor.atDocumentMarker || cursor.next? == some '#' then some stop
    else do
      let word ← plainWord? inFlow cursor.rest
      if word.isEmpty then some stop else
      let cursor := cursor.skip word.length
      let after := cursor.white
      if after.isEmpty then return ⟨fold white ++ word, cursor, false⟩ else
      if tabbed indent after then none else
      let cursor := cursor.skipWhite
      if !inFlow && cursor.column < indent then
        return ⟨fold white ++ word, cursor, !(lineBreaks after).isEmpty⟩
      else
        let more ← readPlainWords inFlow indent steps after cursor
        return { more with text := fold white ++ word ++ more.text }

/-- Reads a plain scalar. -/
def readPlain (inFlow : Bool) (indent steps : Nat) (cursor : Cursor) : Option PlainScalar :=
  readPlainWords inFlow indent steps [] cursor

/-! ## Quoted scalars -/

/-- The value of hexadecimal digits. -/
def hexNumber? (digits : List Char) : Option Nat :=
  digits.foldlM (fun n c => (Json.hexValue? c).map (n * 16 + ·)) 0

/-- The character that an escape stands for, and the number of characters that
it takes behind the backslash and its letter. -/
def escape? (letter : Char) (rest : List Char) : Option (Char × Nat) :=
  let coded (count : Nat) : Option (Char × Nat) := do
    let digits := rest.take count
    if digits.length < count then none else
    let code ← hexNumber? digits
    if (0xD800 ≤ code ∧ code ≤ 0xDFFF) ∨ 0x10FFFF < code then none
    else some (Char.ofNat code, count)
  match letter with
  | '0' => some ('\x00', 0)
  | 'a' => some ('\x07', 0)
  | 'b' => some ('\x08', 0)
  | 't' => some ('\t', 0)
  | '\t' => some ('\t', 0)
  | 'n' => some ('\n', 0)
  | 'v' => some ('\x0b', 0)
  | 'f' => some ('\x0c', 0)
  | 'r' => some ('\r', 0)
  | 'e' => some ('\x1b', 0)
  | ' ' => some (' ', 0)
  | '"' => some ('"', 0)
  | '/' => some ('/', 0)
  | '\\' => some ('\\', 0)
  | 'N' => some ('\u0085', 0)
  | '_' => some ('\u00a0', 0)
  | 'L' => some ('\u2028', 0)
  | 'P' => some ('\u2029', 0)
  | 'x' => coded 2
  | 'u' => coded 4
  | 'U' => coded 8
  | _ => none

/-- The characters of a quoted scalar up to white space, to the closing quote
or to an escaped line end, and the number of characters that write them. -/
def quotedWord? (quote : Char) : (steps : Nat) → List Char → Option (List Char × Nat)
  | 0, _ => some ([], 0)
  | _ + 1, [] => some ([], 0)
  | steps + 1, c :: rest =>
    if isWhite c then some ([], 0)
    else if c == quote then
      match quote, rest with
      | '\'', '\'' :: rest => do
        let (more, used) ← quotedWord? quote steps rest
        return (c :: more, used + 2)
      | _, _ => some ([], 0)
    else if quote == '"' && c == '\\' then
      match rest with
      | [] => none
      | letter :: rest =>
        if isBreak letter then some ([], 0)
        else do
          let (character, extra) ← escape? letter rest
          let (more, used) ← quotedWord? quote steps (rest.drop extra)
          return (character :: more, used + 2 + extra)
    else do
      let (more, used) ← quotedWord? quote steps rest
      return (c :: more, used + 1)

/-- Reads a quoted scalar behind its opening quote or from one word on, up to
its closing quote. -/
def readQuoted (quote : Char) : (steps : Nat) → Cursor → Option (List Char × Cursor)
  | 0, _ => none
  | steps + 1, cursor =>
    if cursor.atDocumentMarker then none
    else do
      let (word, used) ← quotedWord? quote (steps + 1) cursor.rest
      let cursor := cursor.skip used
      match cursor.rest with
      | [] => none
      | c :: _ =>
        if c == quote then return (word, cursor.skip 1)
        else if c == '\\' then
          let cursor := cursor.skip 1
          let (more, after) ← readQuoted quote steps cursor.skipWhite
          return (word ++ (lineBreaks cursor.white).drop 1 ++ more, after)
        else
          let (more, after) ← readQuoted quote steps cursor.skipWhite
          return (word ++ fold cursor.white ++ more, after)

/-! ## Blocks of lines -/

/-- What a block does with the line ends at its end. -/
inductive Chomping where
  | strip
  | clip
  | keep
  deriving DecidableEq, Repr

/-- Reads the sign that sets the chomping. -/
def readChomping? (cursor : Cursor) : Option (Chomping × Cursor) :=
  match cursor.next? with
  | some '+' => some (.keep, cursor.skip 1)
  | some '-' => some (.strip, cursor.skip 1)
  | _ => none

/-- Reads the digit that sets the indentation: none if there is no digit. -/
def readIndent? (cursor : Cursor) : Option (Nat × Cursor) :=
  match cursor.next?.bind Digit.ofChar? with
  | some digit => some (digit.val, cursor.skip 1)
  | none => none

/-- Reads the signs behind a block's indicator, in either order. -/
def readBlockSigns (cursor : Cursor) : Chomping × Option Nat × Cursor :=
  match readChomping? cursor with
  | some (chomping, cursor) =>
    match readIndent? cursor with
    | some (indent, cursor) => (chomping, some indent, cursor)
    | none => (chomping, none, cursor)
  | none =>
    match readIndent? cursor with
    | some (indent, cursor) =>
      match readChomping? cursor with
      | some (chomping, cursor) => (chomping, some indent, cursor)
      | none => (.clip, some indent, cursor)
    | none => (.clip, none, cursor)

/-- The line end at a cursor, as a scalar's text keeps it. -/
def breakAt (cursor : Cursor) : List Char :=
  if endsLine cursor.rest then (lineBreaks (cursor.rest.take 2)).take 1 else []

/-- Empty lines in a block: their line ends, the greatest column that was
reached, and the cursor behind the indentation of the line after them. -/
structure EmptyLines where
  breaks : List Char
  column : Nat
  cursor : Cursor

/-- Reads empty lines.  While the indentation is not known, all spaces count
for it.  A tab in the indentation is refused. -/
def readEmptyLines (indent? : Option Nat) : (steps : Nat) → Cursor → Option EmptyLines
  | 0, _ => none
  | steps + 1, cursor =>
    let spaces := (cursor.rest.takeWhile (· == ' ')).length
    let count :=
      match indent? with
      | none => spaces
      | some indent => min spaces (indent - cursor.column)
    let cursor := cursor.skip count
    let inIndent :=
      match indent? with
      | none => true
      | some indent => cursor.column < indent
    match cursor.next? with
    | none => some ⟨[], cursor.column, cursor⟩
    | some c =>
      if inIndent && c == '\t' then none
      else if isBreak c then do
        let lines ← readEmptyLines indent? steps cursor.skipBreak
        return ⟨breakAt cursor ++ lines.breaks, max cursor.column lines.column, lines.cursor⟩
      else some ⟨[], cursor.column, cursor⟩

/-- The line ends at the end of a block: that of the last line, and those of
the empty lines behind it. -/
def Chomping.apply (chomping : Chomping) (broken empty : List Char) : List Char :=
  match chomping with
  | strip => []
  | clip => broken
  | keep => broken ++ empty

/-- What stands between two lines of a block, the empty lines between them
aside.  A folded block joins lines by a blank, unless one of them starts with a
blank. -/
def joint (literal : Bool) (broken empty : List Char) (blank : Bool) : List Char :=
  if !literal && broken == ['\n'] && !blank then
    if empty.isEmpty then [' '] else []
  else broken

/-- Reads the lines of a block.  `broken` is the line end of the line before,
`empty` those of the empty lines behind it, and `blank` tells whether that line
started with a blank. -/
def readBlockLines (literal : Bool) (chomping : Chomping) (indent : Nat) :
    (steps : Nat) → (broken empty : List Char) → (blank : Bool) → Cursor →
      Option (List Char × Cursor)
  | 0, _, _, _, _ => none
  | steps + 1, broken, empty, blank, cursor =>
    match cursor.next? with
    | none => some (chomping.apply broken empty, cursor)
    | some c =>
      if cursor.column != indent then some (chomping.apply broken empty, cursor)
      else do
        let startsBlank := isBlank c
        let line := cursor.rest.takeWhile fun c => !isBreak c
        let before := joint literal broken empty (blank || startsBlank) ++ empty
        let cursor := cursor.skip line.length
        let lines ← readEmptyLines (some indent) (steps + 1) cursor.skipBreak
        let (more, after) ← readBlockLines literal chomping indent steps (breakAt cursor)
          lines.breaks startsBlank lines.cursor
        return (before ++ line ++ more, after)

/-- Reads a block whose indicator has been read, inside a collection at column
`parent`, or at the top level. -/
def readBlock (literal : Bool) (parent : Option Nat) (steps : Nat) (cursor : Cursor) :
    Option (List Char × Cursor) := do
  let (chomping, increment, cursor) := readBlockSigns cursor
  let cursor := cursor.skipWhile isBlank
  let cursor := if cursor.next? == some '#' then cursor.skipWhile (!isBreak ·) else cursor
  if increment == some 0 || !endsLine cursor.rest then none else
  let cursor := cursor.skipBreak
  match increment with
  | some increment =>
    let indent := parent.getD 0 + increment
    let lines ← readEmptyLines (some indent) steps cursor
    readBlockLines literal chomping indent steps [] lines.breaks false lines.cursor
  | none =>
    let lines ← readEmptyLines none steps cursor
    let least :=
      match parent with
      | some column => column + 1
      | none => 1
    readBlockLines literal chomping (max lines.column least) steps [] lines.breaks false
      lines.cursor

end GoldenFixtures.Yaml
