import GoldenFixtures.Json.Reader
import GoldenFixtures.Text.Utf8
import GoldenFixtures.Yaml.Cursor
import GoldenFixtures.Yaml.Token

/-!
# Tags and directives

Readers for the parts of a text that name tags.  A tag is either verbatim,
`!<...>`, or a handle such as `!` or `!name!` with a suffix.
-/

namespace GoldenFixtures.Yaml

/-- The character may stand in a tag.  The marks of collections may only stand
in a verbatim tag or in the text of a handle. -/
def isTagChar (verbatim : Bool) (c : Char) : Bool :=
  isWord c || c ∈ [';', '/', '?', ':', '@', '&', '=', '+', '$', '.', '%', '!', '~', '*', '\'',
    '(', ')'] || (verbatim && c ∈ [',', '[', ']'])

/-- The byte that an escape `%XX` writes. -/
def escapedByte? : List Char → Option (Nat × List Char)
  | '%' :: a :: b :: rest => do
    let high ← Json.hexValue? a
    let low ← Json.hexValue? b
    return (high * 16 + low, rest)
  | _ => none

/-- The number of escapes that write the character whose first byte is
given. -/
def escapeWidth? (first : Nat) : Option Nat :=
  if first < 0x80 then some 1
  else if 0xC0 ≤ first ∧ first < 0xE0 then some 2
  else if 0xE0 ≤ first ∧ first < 0xF0 then some 3
  else if 0xF0 ≤ first ∧ first < 0xF8 then some 4
  else none

/-- Reads the further bytes of an escaped character. -/
def readEscapedBytes : (count : Nat) → List Char → Option (TagText × List Char)
  | 0, text => some ([], text)
  | count + 1, text => do
    let (byte, rest) ← escapedByte? text
    if byte < 0x80 ∨ 0xC0 ≤ byte then none else
    let (bytes, rest) ← readEscapedBytes count rest
    return (byte.toUInt8 :: bytes, rest)

/-- The bytes of the characters of a tag, which may be escaped.  Each step
takes at least one character. -/
def tagBytes? : (steps : Nat) → List Char → Option TagText
  | _, [] => some []
  | 0, _ => none
  | steps + 1, c :: rest =>
    if c == '%' then do
      let (first, rest) ← escapedByte? (c :: rest)
      let width ← escapeWidth? first
      let (others, rest) ← readEscapedBytes (width - 1) rest
      let more ← tagBytes? steps rest
      return first.toUInt8 :: (others ++ more)
    else (tagBytes? steps rest).map (Text.encode [c] ++ ·)

/-- Reads the characters of a tag at a cursor.  A zero byte ends the tag's
text, but not what is read. -/
def tagTextAt (verbatim : Bool) (cursor : Cursor) : Option (TagText × Cursor) := do
  let word := cursor.rest.takeWhile (isTagChar verbatim)
  let bytes ← tagBytes? word.length word
  return (bytes.takeWhile (· != 0), cursor.skip word.length)

/-- Reads at least one character of a tag at a cursor. -/
def someTagTextAt (verbatim : Bool) (cursor : Cursor) : Option (TagText × Cursor) := do
  let (text, after) ← tagTextAt verbatim cursor
  if after.index = cursor.index then none else return (text, after)

/-- Reads an exclamation mark, name characters and a second mark, if there is
one. -/
def readHandle (cursor : Cursor) : Option (List Char × Cursor) :=
  match cursor.rest with
  | '!' :: rest =>
    let name := rest.takeWhile isWord
    if (rest.drop name.length).head? == some '!' then
      some ('!' :: (name ++ ['!']), cursor.skip (name.length + 2))
    else some ('!' :: name, cursor.skip (name.length + 1))
  | _ => none

/-- Reads a verbatim tag behind its `!<`. -/
def readVerbatim (cursor : Cursor) : Option (Token × Cursor) := do
  let (text, cursor) ← someTagTextAt true cursor
  if cursor.next? == some '>' then return (.tag [] text, cursor.skip 1) else none

/-- Reads a handle with its suffix.  What looks like a handle but has no
second mark belongs to the suffix of the handle `!`; an exclamation mark alone
is a tag of its own. -/
def readShorthand (cursor : Cursor) : Option (Token × Cursor) := do
  let (handle, after) ← readHandle cursor
  if 2 ≤ handle.length && handle.getLast? == some '!' then
    let (suffix, behind) ← someTagTextAt false after
    return (.tag handle suffix, behind)
  else
    let (suffix, behind) ← tagTextAt false after
    let suffix := Text.encode (handle.drop 1) ++ suffix
    if suffix.isEmpty then return (.tag [] (Text.encode ['!']), behind)
    else return (.tag ['!'] suffix, behind)

/-- Reads a tag.  White space has to follow it, or a comma inside brackets or
braces. -/
def readTag (inFlow : Bool) (cursor : Cursor) : Option (Token × Cursor) := do
  let (token, after) ←
    if cursor.rest.take 2 == ['!', '<'] then readVerbatim (cursor.skip 2)
    else readShorthand cursor
  if endsWord after.rest || (inFlow && after.next? == some ',') then return (token, after)
  else none

/-- Reads the name of an anchor or alias.  Only white space and some marks may
follow it. -/
def readName (cursor : Cursor) : Option (List Char × Cursor) :=
  let name := cursor.rest.takeWhile isWord
  let after := cursor.skip name.length
  let ends :=
    match after.next? with
    | none => true
    | some c => isWhite c || c ∈ ['?', ':', ',', ']', '}', '%', '@', '`']
  if !name.isEmpty && ends then some (name, after) else none

/-! ## Directives -/

/-- Reads a version number: digits, at most nine of them. -/
def readVersionNumber (cursor : Cursor) : Option (Nat × Cursor) :=
  let digits := (Digits.split cursor.rest).1
  if digits.isEmpty || 9 < digits.length then none
  else some (Digits.toNat digits, cursor.skip digits.length)

/-- Reads the value of a version directive. -/
def readVersion (cursor : Cursor) : Option (Token × Cursor) := do
  let (major, cursor) ← readVersionNumber (cursor.skipWhile isBlank)
  if cursor.next? != some '.' then none else
  let (minor, cursor) ← readVersionNumber (cursor.skip 1)
  return (.version major minor, cursor)

/-- Reads the value of a tag directive: a handle and the text that it stands
for. -/
def readTagHandle (cursor : Cursor) : Option (Token × Cursor) := do
  let (handle, cursor) ← readHandle (cursor.skipWhile isBlank)
  if handle != ['!'] && !(2 ≤ handle.length && handle.getLast? == some '!') then none else
  if !(cursor.next?.any isBlank) then none else
  let (text, cursor) ← someTagTextAt true (cursor.skipWhile isBlank)
  if endsWord cursor.rest then return (.tagHandle handle text, cursor) else none

/-- Reads a directive behind its percent sign, with the rest of its line. -/
def readDirective (cursor : Cursor) : Option (Token × Cursor) := do
  let name := cursor.rest.takeWhile isWord
  let cursor := cursor.skip name.length
  if name.isEmpty || !endsWord cursor.rest then none else
  let (token, cursor) ←
    if name == ['Y', 'A', 'M', 'L'] then readVersion cursor
    else if name == ['T', 'A', 'G'] then readTagHandle cursor
    else none
  let cursor := cursor.skipWhile isBlank
  let cursor := if cursor.next? == some '#' then cursor.skipWhile (!isBreak ·) else cursor
  if endsLine cursor.rest then return (token, cursor.skipBreak) else none

end GoldenFixtures.Yaml
