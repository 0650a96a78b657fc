import GoldenFixtures.Text.Utf8

/-!
# Places in a YAML text

The classes of characters that YAML tells apart, and a `Cursor`, which is what
is left of a text together with the place where it stands.  A line ends with a
carriage return, a line feed, both, or one of three other characters; of these
the line and paragraph separators stay in a scalar's text, the others are read
as a line feed.
-/

namespace GoldenFixtures.Yaml

/-- The character may stand in a YAML text. -/
def isAllowed (c : Char) : Bool :=
  let n := c.toNat
  n == 0x9 || n == 0xA || n == 0xD || (0x20 ≤ n && n ≤ 0x7E) || n == 0x85
    || (0xA0 ≤ n && n ≤ 0xD7FF) || (0xE000 ≤ n && n ≤ 0xFFFD) || 0x10000 ≤ n

/-- A space or a tab. -/
def isBlank (c : Char) : Bool := c == ' ' || c == '\t'

/-- A character that ends a line. -/
def isBreak (c : Char) : Bool :=
  c == '\n' || c == '\r' || c == '\u0085' || c == '\u2028' || c == '\u2029'

/-- White space: blanks and line ends. -/
def isWhite (c : Char) : Bool := isBlank c || isBreak c

/-- A letter, a digit, `_` or `-`: the characters of names. -/
def isWord (c : Char) : Bool := c.isAlphanum || c == '_' || c == '-'

/-- The text ends or goes on with white space. -/
def endsWord (text : List Char) : Bool :=
  match text with
  | [] => true
  | c :: _ => isWhite c

/-- The text ends or goes on with a line end. -/
def endsLine (text : List Char) : Bool :=
  match text with
  | [] => true
  | c :: _ => isBreak c

/-- The line ends of a run of white space, as a scalar's text keeps them. -/
def lineBreaks : List Char → List Char
  | [] => []
  | '\r' :: '\n' :: rest => '\n' :: lineBreaks rest
  | c :: rest =>
    if c == '\u2028' || c == '\u2029' then c :: lineBreaks rest
    else if isBreak c then '\n' :: lineBreaks rest
    else lineBreaks rest

/-- The blanks behind the last line end of a run of white space. -/
def lastLine (white : List Char) : List Char := (white.reverse.takeWhile isBlank).reverse

/-- What is left of a text, and the place where it stands.  Lines and columns
count from zero, a column in characters; the index is the number of bytes in
front. -/
structure Cursor where
  rest : List Char
  index : Nat := 0
  line : Nat := 0
  column : Nat := 0
  deriving Repr

namespace Cursor

/-- The cursor behind some characters, among which is no line end. -/
def skip (cursor : Cursor) (count : Nat) : Cursor :=
  { cursor with
    rest := cursor.rest.drop count
    index := cursor.index + Text.byteCount (cursor.rest.take count)
    column := cursor.column + count }

/-- The cursor behind characters with a property, among which is no line end. -/
def skipWhile (cursor : Cursor) (p : Char → Bool) : Cursor :=
  cursor.skip (cursor.rest.takeWhile p).length

/-- The cursor behind a line end, if it stands before one. -/
def skipBreak (cursor : Cursor) : Cursor :=
  match cursor.rest with
  | '\r' :: '\n' :: rest => ⟨rest, cursor.index + 2, cursor.line + 1, 0⟩
  | c :: rest =>
    if isBreak c then ⟨rest, cursor.index + c.utf8Size, cursor.line + 1, 0⟩ else cursor
  | [] => cursor

/-- The white space at the cursor. -/
def white (cursor : Cursor) : List Char := cursor.rest.takeWhile isWhite

/-- The cursor behind the white space at it. -/
def skipWhite (cursor : Cursor) : Cursor :=
  let white := cursor.white
  let breaks := (lineBreaks white).length
  { rest := cursor.rest.drop white.length
    index := cursor.index + Text.byteCount white
    line := cursor.line + breaks
    column := if breaks = 0 then cursor.column + white.length else (lastLine white).length }

/-- The next character. -/
def next? (cursor : Cursor) : Option Char := cursor.rest.head?

/-- The cursor stands at the start of a line that is a marker of three equal
characters. -/
def atMarker (cursor : Cursor) (mark : Char) : Bool :=
  cursor.column == 0 && cursor.rest.take 3 == [mark, mark, mark] && endsWord (cursor.rest.drop 3)

/-- The cursor stands at a marker of a document's start or end. -/
def atDocumentMarker (cursor : Cursor) : Bool := cursor.atMarker '-' || cursor.atMarker '.'

end Cursor

/-! ## Folding -/

/-- White space inside a scalar that is not written line by line: without a
line end it stays, a single line end becomes a blank, and of several the first
is left out. -/
def fold (white : List Char) : List Char :=
  match lineBreaks white with
  | [] => white
  | '\n' :: [] => [' ']
  | '\n' :: more => more
  | breaks => breaks

end GoldenFixtures.Yaml
