/-!
# Errors of the JSON reader

An error says what is wrong and where: the line from 1, and the number of bytes
of that line up to and including the offending one.  An error in a number that a
string holds has its place in that string.
-/

namespace GoldenFixtures.Json

/-- What was found in the place of a string.  The value of an integer of 64 bits is
told, that of another number is not. -/
inductive Found where
  | null
  | boolean (flag : Bool)
  | integer (value : Int)
  | number
  | list
  | mapping
  deriving DecidableEq, Repr

/-- The wording of what was found. -/
def Found.message : Found → String
  | null => "null"
  | boolean flag => "boolean `" ++ toString flag ++ "`"
  | integer value => "integer `" ++ toString value ++ "`"
  | number => "number"
  | list => "sequence"
  | mapping => "map"

/-- What is wrong with a text that is not JSON. -/
inductive Cause where
  | endInValue
  | endInList
  | endInObject
  | endInString
  | expectedValue
  | expectedIdent
  | expectedColon
  | expectedCommaOrBracket
  | expectedCommaOrBrace
  | keyNotString
  | trailingComma
  | trailingCharacters
  | tooDeep
  | invalidNumber
  | invalidEscape
  | loneSurrogate
  | brokenSurrogatePair
  | controlCharacter
  /-- A number's text has to stand in a string. -/
  | numberNotString (found : Found)
  deriving DecidableEq, Repr

/-- The wording of a cause. -/
def Cause.message : Cause → String
  | endInValue => "EOF while parsing a value"
  | endInList => "EOF while parsing a list"
  | endInObject => "EOF while parsing an object"
  | endInString => "EOF while parsing a string"
  | expectedValue => "expected value"
  | expectedIdent => "expected ident"
  | expectedColon => "expected `:`"
  | expectedCommaOrBracket => "expected `,` or `]`"
  | expectedCommaOrBrace => "expected `,` or `\x7d`"
  | keyNotString => "key must be a string"
  | trailingComma => "trailing comma"
  | trailingCharacters => "trailing characters"
  | tooDeep => "recursion limit exceeded"
  | invalidNumber => "invalid number"
  | invalidEscape => "invalid escape"
  | loneSurrogate => "lone leading surrogate in hex escape"
  | brokenSurrogatePair => "unexpected end of hex escape"
  | controlCharacter => "control character (\\u0000-\\u001F) found while parsing a string"
  | numberNotString found =>
    "invalid type: " ++ found.message ++ ", expected string containing a number"

/-- An error with its place. -/
structure Error where
  cause : Cause
  line : Nat
  column : Nat
  deriving DecidableEq, Repr

/-- The wording of an error. -/
def Error.message (e : Error) : String :=
  e.cause.message ++ " at line " ++ toString e.line ++ " column " ++ toString e.column

end GoldenFixtures.Json
