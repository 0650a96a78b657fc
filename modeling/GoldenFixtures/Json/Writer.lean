import GoldenFixtures.Json.Value

/-!
# Writing JSON

`Value.compact` writes a value without any white space, `Value.pretty` over
several lines with two blanks for every level.  Both escape the quote, the
backslash and the characters below U+0020, and write every other character as
it is.
-/

namespace GoldenFixtures.Json

/-- The hexadecimal digit of a number below sixteen, in lower case. -/
def hexDigit (n : Nat) : Char := if n < 10 then Char.ofNat (48 + n) else Char.ofNat (87 + n)

/-- A character inside a string. -/
def escapeChar (c : Char) : List Char :=
  if c = '"' then ['\\', '"']
  else if c = '\\' then ['\\', '\\']
  else if c = '\x08' then ['\\', 'b']
  else if c = '\x0c' then ['\\', 'f']
  else if c = '\n' then ['\\', 'n']
  else if c = '\r' then ['\\', 'r']
  else if c = '\t' then ['\\', 't']
  else if c.toNat < 0x20 then
    ['\\', 'u', '0', '0', hexDigit (c.toNat / 16), hexDigit (c.toNat % 16)]
  else [c]

/-- A string in quotes. -/
def quote (text : String) : List Char := '"' :: (text.toList.flatMap escapeChar ++ ['"'])

/-- An exponent: a small `e`, a sign and the digits. -/
def Exponent.toChars (e : Exponent) : List Char :=
  'e' :: (if e.negative then '-' else '+') :: Digits.toChars (e.first :: e.others)

/-- A number as it is written, but for its exponent's letter and sign. -/
def Number.toChars (n : Number) : List Char :=
  (if n.negative then ['-'] else []) ++ Digits.toChars (Digits.ofNat n.whole)
    ++ (if n.fraction.isEmpty then [] else '.' :: Digits.toChars n.fraction)
    ++ (match n.exponent with
      | none => []
      | some e => e.toChars)

/-- A list of written parts with a separator between them. -/
def separated (separator : List Char) : List (List Char) → List Char
  | [] => []
  | [part] => part
  | part :: parts => part ++ separator ++ separated separator parts

/-- The word for a boolean. -/
def boolChars (flag : Bool) : List Char :=
  if flag then ['t', 'r', 'u', 'e'] else ['f', 'a', 'l', 's', 'e']

/-- The start of a line at a level of nesting. -/
def newLine (level : Nat) : List Char := '\n' :: List.replicate (2 * level) ' '

namespace Value

mutual

/-- A value without white space. -/
def compact : Value → List Char
  | .null => ['n', 'u', 'l', 'l']
  | .bool flag => boolChars flag
  | .number n => n.toChars
  | .string text => quote text
  | .array items => '[' :: (separated [','] (compactItems items) ++ [']'])
  | .object members => '{' :: (separated [','] (compactMembers members) ++ ['}'])

/-- The elements of an array, each without white space. -/
def compactItems : List Value → List (List Char)
  | [] => []
  | item :: items => compact item :: compactItems items

/-- The members of an object, each without white space. -/
def compactMembers : List (String × Value) → List (List Char)
  | [] => []
  | (key, value) :: members => (quote key ++ ':' :: compact value) :: compactMembers members

end

mutual

/-- A value over several lines, at a level of nesting. -/
def pretty (level : Nat) : Value → List Char
  | .null => ['n', 'u', 'l', 'l']
  | .bool flag => boolChars flag
  | .number n => n.toChars
  | .string text => quote text
  | .array [] => ['[', ']']
  | .array (item :: items) =>
    '[' :: (separated [','] (prettyItems (level + 1) (item :: items)) ++ newLine level ++ [']'])
  | .object [] => ['{', '}']
  | .object (member :: members) =>
    '{' :: (separated [','] (prettyMembers (level + 1) (member :: members)) ++ newLine level
      ++ ['}'])

/-- The elements of an array, each on a line of its own. -/
def prettyItems (level : Nat) : List Value → List (List Char)
  | [] => []
  | item :: items => (newLine level ++ pretty level item) :: prettyItems level items

/-- The members of an object, each on a line of its own. -/
def prettyMembers (level : Nat) : List (String × Value) → List (List Char)
  | [] => []
  | (key, value) :: members =>
    (newLine level ++ quote key ++ ':' :: ' ' :: pretty level value) ::
      prettyMembers level members

end

/-- A value without white space, as a string. -/
def toCompact (value : Value) : String := String.ofList value.compact

/-- A value over several lines that ends with a line end, as a string. -/
def toPretty (value : Value) : String := String.ofList (value.pretty 0 ++ ['\n'])

end Value

end GoldenFixtures.Json
