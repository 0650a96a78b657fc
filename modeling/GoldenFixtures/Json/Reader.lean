import GoldenFixtures.Json.Value
import GoldenFixtures.Json.Error
import GoldenFixtures.Text.Utf8

/-!
# Reading JSON

`Value.read` reads one value that fills a text.  Each part of the reader takes
what is left of the text and gives what it read together with what is left
after it.  A `Fault` says how many bytes stand behind the offending one, so
that it needs no count of what was read before; `Value.read` turns it into a
line and a column.

A number may also be spelled as an object: its first key is `numberKey`, and the
value is a string that holds the number's text.  Such an object has no other
members.

Nesting is bounded: at most `maxDepth` arrays and objects stand inside one
another.
-/

namespace GoldenFixtures.Json

/-- The number of arrays and objects that may stand inside one another. -/
def maxDepth : Nat := 127

/-- A cause, with the number of bytes that stand behind the offending one. -/
structure Fault where
  cause : Cause
  behind : Nat
  /-- The string that the bytes are counted in, if it is not the whole text. -/
  within : Option (List Char) := none
  /-- The offending byte was taken as part of a number before it was refused. -/
  taken : Bool := false
  deriving DecidableEq, Repr

/-- A fault at the byte in front of so many others. -/
def faultBefore {α : Type} (cause : Cause) (behind : Nat) : Except Fault α :=
  .error { cause, behind }

/-- A fault at the first byte of what is left, or at the end of the text. -/
def faultAt {α : Type} (cause : Cause) (left : List Char) : Except Fault α :=
  faultBefore cause (Text.byteCount left - 1)

/-- No digit stands at the start of what is left, where a number has to go on. -/
def noDigitAt {α : Type} (left : List Char) : Except Fault α :=
  match left with
  | [] => faultAt .endInValue []
  | _ => .error { cause := .invalidNumber, behind := Text.byteCount left - 1, taken := true }

/-- White space between the parts of a text: space, tab and line ends. -/
def isSpace (c : Char) : Bool := c == ' ' || c == '\t' || c == '\n' || c == '\r'

/-- A text without the white space at its front. -/
def skipSpace (text : List Char) : List Char := text.dropWhile isSpace

/-- Reads the rest of a fixed word. -/
def readWord : List Char → List Char → Except Fault (List Char)
  | [], left => .ok left
  | _ :: _, [] => faultAt .endInValue []
  | w :: word, c :: left =>
    if c = w then readWord word left else faultAt .expectedIdent (c :: left)

/-! ## Numbers -/

/-- Reads the digits of a whole part: a single zero, or digits that start with
another one. -/
def readWhole (text : List Char) : Except Fault (Nat × List Char) :=
  match Digits.split text with
  | ([], after) => noDigitAt after
  | (first :: others, after) =>
    if first.val = 0 ∧ others ≠ [] then faultAt .invalidNumber (text.drop 1)
    else .ok (Digits.toNat (first :: others), after)

/-- Reads the digits of a fraction, if there is one. -/
def readFraction (text : List Char) : Except Fault (List Digit × List Char) :=
  match text with
  | '.' :: left =>
    match Digits.split left with
    | ([], []) => faultAt .endInValue []
    | ([], after) => faultAt .invalidNumber after
    | (digits, after) => .ok (digits, after)
  | _ => .ok ([], text)

/-- Reads the digits of an exponent. -/
def readExponentDigits (negative : Bool) (text : List Char) :
    Except Fault (Option Exponent × List Char) :=
  match Digits.split text with
  | ([], after) => noDigitAt after
  | (first :: others, after) => .ok (some ⟨negative, first, others⟩, after)

/-- Reads an exponent, if there is one.  Its sign may be left out. -/
def readExponent (text : List Char) : Except Fault (Option Exponent × List Char) :=
  match text with
  | c :: left =>
    if c = 'e' ∨ c = 'E' then
      match left with
      | '+' :: digits => readExponentDigits false digits
      | '-' :: digits => readExponentDigits true digits
      | _ => readExponentDigits false left
    else .ok (none, text)
  | [] => .ok (none, [])

/-- Reads a number whose sign has been read. -/
def readUnsigned (negative : Bool) (text : List Char) : Except Fault (Number × List Char) := do
  let (whole, left) ← readWhole text
  let (fraction, left) ← readFraction left
  let (exponent, left) ← readExponent left
  return (⟨negative, whole, fraction, exponent⟩, left)

/-! ## Strings -/

/-- The value of a hexadecimal digit, in either case. -/
def hexValue? (c : Char) : Option Nat :=
  if '0' ≤ c ∧ c ≤ '9' then some (c.toNat - 48)
  else if 'a' ≤ c ∧ c ≤ 'f' then some (c.toNat - 87)
  else if 'A' ≤ c ∧ c ≤ 'F' then some (c.toNat - 55)
  else none

/-- Reads four hexadecimal digits.  They are taken as four bytes, whatever
these are, before any of them is looked at. -/
def readHex (text : List Char) : Except Fault (Nat × List Char) :=
  let bad := if Text.byteCount text < 4 then faultAt .endInString []
    else faultBefore .invalidEscape (Text.byteCount text - 4)
  match text with
  | a :: b :: c :: d :: left =>
    match hexValue? a, hexValue? b, hexValue? c, hexValue? d with
    | some a, some b, some c, some d => .ok (((a * 16 + b) * 16 + c) * 16 + d, left)
    | _, _, _, _ => bad
  | _ => bad

/-- Reads what follows an escaped first half of a surrogate pair. -/
def readSecondHalf (first : Nat) (text : List Char) : Except Fault (Char × List Char) :=
  match text with
  | [] => faultAt .endInString []
  | '\\' :: [] => faultAt .endInString []
  | '\\' :: 'u' :: digits => do
    let (second, left) ← readHex digits
    if 0xDC00 ≤ second ∧ second ≤ 0xDFFF then
      return (Char.ofNat (0x10000 + (first - 0xD800) * 0x400 + (second - 0xDC00)), left)
    else
      faultBefore .loneSurrogate (Text.byteCount left)
  | '\\' :: left => faultAt .brokenSurrogatePair left
  | _ => faultAt .brokenSurrogatePair text

/-- Reads the character that an escape stands for, after the backslash. -/
def readEscape (text : List Char) : Except Fault (Char × List Char) :=
  match text with
  | [] => faultAt .endInString []
  | '"' :: left => .ok ('"', left)
  | '\\' :: left => .ok ('\\', left)
  | '/' :: left => .ok ('/', left)
  | 'b' :: left => .ok ('\x08', left)
  | 'f' :: left => .ok ('\x0c', left)
  | 'n' :: left => .ok ('\n', left)
  | 'r' :: left => .ok ('\r', left)
  | 't' :: left => .ok ('\t', left)
  | 'u' :: digits => do
    let (code, left) ← readHex digits
    if 0xDC00 ≤ code ∧ code ≤ 0xDFFF then
      faultBefore .loneSurrogate (Text.byteCount left)
    else if 0xD800 ≤ code ∧ code ≤ 0xDBFF then
      readSecondHalf code left
    else
      return (Char.ofNat code, left)
  | _ => faultAt .invalidEscape text

/-- Reads the characters of a string up to its closing quote.  Every step takes
at least one character, so `steps` may be the length of the text. -/
def readCharacters : (steps : Nat) → List Char → Except Fault (List Char × List Char)
  | 0, _ => faultAt .endInString []
  | _ + 1, [] => faultAt .endInString []
  | steps + 1, c :: left =>
    if c = '"' then .ok ([], left)
    else if c = '\\' then do
      let (character, left) ← readEscape left
      let (others, left) ← readCharacters steps left
      return (character :: others, left)
    else if c.toNat < 0x20 then faultAt .controlCharacter (c :: left)
    else do
      let (others, left) ← readCharacters steps left
      return (c :: others, left)

/-- Reads a string whose opening quote has been read. -/
def readString (text : List Char) : Except Fault (String × List Char) := do
  let (characters, left) ← readCharacters (text.length + 1) text
  return (String.ofList characters, left)

/-! ## Numbers as objects -/

/-- The first key of an object that spells a number. -/
def numberKey : String := "$serde_json::private::Number"

/-- Reads a number, its sign included, that fills a text. -/
def readNumberText (text : List Char) : Except Fault Number := do
  let (number, left) ←
    match text with
    | '-' :: left => readUnsigned true left
    | c :: _ =>
      if (Digit.ofChar? c).isSome then readUnsigned false text else faultAt .invalidNumber text
    | [] => faultAt .endInValue []
  if left.isEmpty then return number else faultAt .invalidNumber left

/-- A fault in a string that has to be a number.  Behind a byte that was taken,
the following one is at fault, if there is one. -/
def Fault.inString (fault : Fault) (text : List Char) : Fault :=
  { fault with
    within := some text
    behind := if fault.taken then fault.behind - 1 else fault.behind }

/-- A number in the place of a string. -/
def Found.ofNumber (n : Number) : Found :=
  let value : Int := if n.negative then -n.whole else n.whole
  if n.fraction.isEmpty && n.exponent.isNone && !(n.negative && n.whole == 0)
      && decide (int64Min ≤ value) && decide (value ≤ uint64Max) then
    .integer value
  else .number

/-- Reads what stands in the place of a string, up to where its type is known:
what was found, and what is left. -/
def readFound (text : List Char) : Except Fault (Found × List Char) :=
  match text with
  | [] => faultAt .endInValue []
  | c :: left =>
    if c = 'n' then (readWord ['u', 'l', 'l'] left).map fun left => (.null, left)
    else if c = 't' then (readWord ['r', 'u', 'e'] left).map fun left => (.boolean true, left)
    else if c = 'f' then
      (readWord ['a', 'l', 's', 'e'] left).map fun left => (.boolean false, left)
    else if c = '-' then
      (readUnsigned true left).map fun (n, left) => (.ofNumber n, left)
    else if (Digit.ofChar? c).isSome then
      (readUnsigned false text).map fun (n, left) => (.ofNumber n, left)
    else if c = '[' then .ok (.list, text)
    else if c = '{' then .ok (.mapping, text)
    else faultAt .expectedValue text

/-- Reads the string that holds a number's text. -/
def readNumberString (text : List Char) : Except Fault (Number × List Char) :=
  match skipSpace text with
  | '"' :: left => do
    let (characters, left) ← readString left
    let number ← (readNumberText characters.toList).mapError (·.inString characters.toList)
    return (number, left)
  | text => do
    let (found, left) ← readFound text
    faultBefore (.numberNotString found) (Text.byteCount left)

/-- Reads an object that spells a number, behind its key. -/
def readNumberObject (text : List Char) : Except Fault (Number × List Char) :=
  match skipSpace text with
  | [] => faultAt .endInObject []
  | ':' :: left => do
    let (number, left) ← readNumberString left
    match skipSpace left with
    | [] => faultAt .endInObject []
    | '}' :: left => return (number, left)
    | ',' :: left => faultAt .trailingComma (',' :: left)
    | left => faultAt .trailingCharacters left
  | left => faultAt .expectedColon left

/-- What stands behind the first key of an object that spells a number. -/
def behindNumberKey? (text : List Char) : Option (List Char) :=
  match text with
  | '"' :: left =>
    match readString left with
    | .ok (key, left) => if key = numberKey then some left else none
    | .error _ => none
  | _ => none

/-! ## Arrays and objects -/

/-- What closes an array or an object, and what is wrong where neither that nor a
comma follows a part: the text ends, or it goes on. -/
structure Closing where
  character : Char
  missing : Cause
  unexpected : Cause

/-- The end of an array. -/
def Closing.bracket : Closing := ⟨']', .endInList, .expectedCommaOrBracket⟩

/-- The end of an object. -/
def Closing.brace : Closing := ⟨'}', .endInObject, .expectedCommaOrBrace⟩

/-- Reads the parts of an array or an object from one part on, up to what closes
it.  Every step takes at least one character. -/
def readParts {α : Type} (closing : Closing) (part : List Char → Except Fault (α × List Char)) :
    (steps : Nat) → List Char → Except Fault (List α × List Char)
  | 0, _ => faultAt closing.missing []
  | steps + 1, text => do
    let (first, left) ← part text
    match skipSpace left with
    | [] => faultAt closing.missing []
    | c :: left =>
      if c = closing.character then return ([first], left)
      else if c = ',' then
        match skipSpace left with
        | [] => faultAt .endInValue []
        | c :: left =>
          if c = closing.character then faultAt .trailingComma (c :: left)
          else do
            let (others, left) ← readParts closing part steps (c :: left)
            return (first :: others, left)
      else faultAt closing.unexpected (c :: left)

/-- Reads an array whose opening bracket has been read. -/
def readArray (item : List Char → Except Fault (Value × List Char)) (text : List Char) :
    Except Fault (List Value × List Char) :=
  match skipSpace text with
  | [] => faultAt .endInList []
  | ']' :: left => .ok ([], left)
  | left => readParts .bracket item (left.length + 1) left

/-- Reads one member of an object: a key, a colon and a value. -/
def readMember (item : List Char → Except Fault (Value × List Char)) (text : List Char) :
    Except Fault ((String × Value) × List Char) :=
  match text with
  | '"' :: left => do
    let (key, left) ← readString left
    match skipSpace left with
    | [] => faultAt .endInObject []
    | ':' :: left => do
      let (value, left) ← item left
      return ((key, value), left)
    | left => faultAt .expectedColon left
  | _ => faultAt .keyNotString text

/-- Reads an object whose opening brace has been read, or the number that it
spells. -/
def readObject (item : List Char → Except Fault (Value × List Char)) (text : List Char) :
    Except Fault (Value × List Char) :=
  match skipSpace text with
  | [] => faultAt .endInObject []
  | '}' :: left => .ok (.object [], left)
  | left =>
    match behindNumberKey? left with
    | some left => (readNumberObject left).map fun (n, left) => (.number n, left)
    | none =>
      (readParts .brace (readMember item) (left.length + 1) left).map fun (pairs, left) =>
        (.object (Members.ofPairs pairs), left)

/-- Reads a value, white space in front of it included, in which at most
`depth` arrays and objects stand inside one another. -/
def readValue : (depth : Nat) → List Char → Except Fault (Value × List Char)
  | depth, text =>
    match skipSpace text with
    | [] => faultAt .endInValue []
    | c :: left =>
      if c = '"' then (readString left).map fun (s, left) => (.string s, left)
      else if c = '[' then
        match depth with
        | 0 => faultAt .tooDeep (c :: left)
        | depth + 1 => (readArray (readValue depth) left).map fun (vs, left) => (.array vs, left)
      else if c = '{' then
        match depth with
        | 0 => faultAt .tooDeep (c :: left)
        | depth + 1 => readObject (readValue depth) left
      else if c = 'n' then
        (readWord ['u', 'l', 'l'] left).map fun left => (.null, left)
      else if c = 't' then
        (readWord ['r', 'u', 'e'] left).map fun left => (.bool true, left)
      else if c = 'f' then
        (readWord ['a', 'l', 's', 'e'] left).map fun left => (.bool false, left)
      else if c = '-' then
        (readUnsigned true left).map fun (n, left) => (.number n, left)
      else if (Digit.ofChar? c).isSome then
        (readUnsigned false (c :: left)).map fun (n, left) => (.number n, left)
      else faultAt .expectedValue (c :: left)

/-! ## Whole texts -/

/-- The line and column after the bytes `text` and `inside` bytes more of the
same line. -/
def placeAfter (text : List Char) (bytes : Nat) : Nat × Nat :=
  go text bytes 1 0
where
  /-- Counts lines and columns until the bytes are used up. -/
  go : List Char → Nat → Nat → Nat → Nat × Nat
    | [], bytes, line, column => (line, column + bytes)
    | c :: rest, bytes, line, column =>
      if bytes < c.utf8Size then (line, column + bytes)
      else if c = '\n' then go rest (bytes - 1) (line + 1) 0
      else go rest (bytes - c.utf8Size) line (column + c.utf8Size)

/-- The error that a fault in a text is. -/
def Fault.toError (text : List Char) (fault : Fault) : Error :=
  let text := fault.within.getD text
  let place := placeAfter text (Text.byteCount text - fault.behind)
  ⟨fault.cause, place.1, place.2⟩

/-- Reads one value and white space around it, up to the end of the text. -/
def readWholeText (text : List Char) : Except Fault Value := do
  let (value, left) ← readValue maxDepth text
  match skipSpace left with
  | [] => return value
  | left => faultAt .trailingCharacters left

/-- The value that a text holds. -/
def Value.read (text : List Char) : Except Error Value :=
  (readWholeText text).mapError (Fault.toError text)

end GoldenFixtures.Json
