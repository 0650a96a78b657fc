import GoldenFixtures.Decimal.Digits
import GoldenFixtures.Decimal.Width
import GoldenFixtures.Json.Reader
import GoldenFixtures.Text.Utf8
import GoldenFixtures.Yaml.Token
import GoldenFixtures.Yaml.Value

/-!
# What scalars stand for

A plain scalar is null, a boolean, an integer, a floating-point number or a
string, the first of these that its text can be read as.  Any other scalar is a
string.  A tag may ask for one of the types, whatever the scalar's style.
-/

namespace GoldenFixtures.Yaml

/-- The text of null. -/
def isNullText (text : List Char) : Bool :=
  text ∈ [['~'], ['n', 'u', 'l', 'l'], ['N', 'u', 'l', 'l'], ['N', 'U', 'L', 'L']]

/-- The boolean that a text writes. -/
def boolean? (text : List Char) : Option Bool :=
  if text ∈ ["true".toList, "True".toList, "TRUE".toList] then some true
  else if text ∈ ["false".toList, "False".toList, "FALSE".toList] then some false
  else none

/-! ## Integers -/

/-- A sign in front of a text: whether it is a minus, and the text behind
it. -/
def splitSign : List Char → Option Bool × List Char
  | '+' :: rest => (some false, rest)
  | '-' :: rest => (some true, rest)
  | text => (none, text)

/-- The number that a text of digits writes; there has to be a digit, and each
has to be below the base. -/
def natural? (base : Nat) (text : List Char) : Option Nat :=
  if text.isEmpty then none
  else text.foldlM (fun n c => do
    let digit ← Json.hexValue? c
    if digit < base then some (n * base + digit) else none) 0

/-- The text has only digits, of which the first of several is a zero, behind a
sign or not.  Such a text is no number. -/
def isZeroPadded (text : List Char) : Bool :=
  match (splitSign text).2 with
  | '0' :: c :: rest => (c :: rest).all fun c => (Digit.ofChar? c).isSome
  | _ => false

/-- The natural number that a text without a sign writes, in base ten or with
the mark of another base. -/
def unsigned? (text : List Char) : Option Nat :=
  match text with
  | '0' :: 'x' :: digits => natural? 16 digits
  | '0' :: 'o' :: digits => natural? 8 digits
  | '0' :: 'b' :: digits => natural? 2 digits
  | digits => natural? 10 digits

/-- The integer that a text writes. -/
def integer? (text : List Char) : Option Int :=
  if isZeroPadded text then none
  else
    match splitSign text with
    | (some true, rest) => (unsigned? rest).map fun n => -(n : Int)
    | (_, rest) => (unsigned? rest).map fun n => (n : Int)

/-- The integer that a text writes, if it has at most 128 bits.  Greater ones
are no integers. -/
def wideInteger? (text : List Char) : Option Int :=
  (integer? text).filter fun n => decide (int128Min ≤ n) && decide (n ≤ uint128Max)

/-- An integer has a value only if it fits 64 bits, with or without a sign. -/
def ofInteger? (n : Int) : Option Value :=
  if h : int64Min ≤ n ∧ n ≤ uint64Max then some (.integer ⟨n, h.1, h.2⟩) else none

/-! ## Floating-point numbers -/

/-- The power of ten that an exponent writes: none if there is anything
malformed. -/
def exponent? (text : List Char) : Option Int :=
  match text with
  | [] => some 0
  | c :: rest =>
    if c == 'e' || c == 'E' then
      match splitSign rest with
      | (some true, digits) => (natural? 10 digits).map fun n => -(n : Int)
      | (_, digits) => (natural? 10 digits).map fun n => (n : Int)
    else none

/-- The digits in front of a point and behind it, and what follows them. -/
def splitPoint (text : List Char) : List Digit × List Digit × List Char :=
  match Digits.split text with
  | (whole, '.' :: rest) => (whole, Digits.split rest)
  | (whole, rest) => (whole, [], rest)

/-- The finite number that a text writes in base ten: there has to be a digit
in front of the point or behind it. -/
def finite? (negative : Bool) (text : List Char) : Option Real := do
  let (whole, fraction, rest) := splitPoint text
  if whole.isEmpty && fraction.isEmpty then none else
  let exponent ← exponent? rest
  let magnitude ←
    Binary64.Magnitude.ofDecimal (Digits.toNat (whole ++ fraction))
      (exponent - fraction.length)
  return .finite negative magnitude

/-- The text of infinity. -/
def isInfinityText (text : List Char) : Bool :=
  text ∈ [".inf".toList, ".Inf".toList, ".INF".toList]

/-- The floating-point number that a text writes. -/
def real? (text : List Char) : Option Real :=
  let (sign, rest) := splitSign text
  let negative := sign == some true
  if isInfinityText rest then some (.infinite negative)
  else if text ∈ [".nan".toList, ".NaN".toList, ".NAN".toList] then some .notANumber
  else finite? negative rest

/-! ## Scalars -/

/-- What a plain scalar stands for.  An integer that has no value makes it
malformed. -/
def plain? (text : List Char) : Option Value :=
  if text.isEmpty || isNullText text then some .null
  else
    match boolean? text with
    | some flag => some (.bool flag)
    | none =>
      match wideInteger? text with
      | some n => ofInteger? n
      | none =>
        match if isZeroPadded text then none else real? text with
        | some value => some (.real value)
        | none => some (.string (String.ofList text))

/-- The tag of a standard type. -/
def standardTag (name : String) : TagText := Text.encode ("tag:yaml.org,2002:" ++ name).toList

/-- The name of a local tag, which starts with an exclamation mark and is
UTF-8. -/
def localTag? (tag : TagText) : Option String :=
  match tag with
  | 33 :: [] => some "!"
  | 33 :: rest => (Text.decode? rest).map String.ofList
  | _ => none

/-- What the text of a scalar stands for, given its style. -/
def untaggedScalar? (isPlain : Bool) (text : List Char) : Option Value :=
  if isPlain then plain? text else some (.string (String.ofList text))

/-- What a scalar stands for. -/
def scalar? (tag : Option TagText) (isPlain : Bool) (text : List Char) : Option Value :=
  match tag with
  | none => untaggedScalar? isPlain text
  | some tag =>
    match localTag? tag with
    | some name => (untaggedScalar? isPlain text).map (.tagged name)
    | none =>
      if tag == standardTag "bool" then (boolean? text).map .bool
      else if tag == standardTag "int" then (wideInteger? text).bind ofInteger?
      else if tag == standardTag "float" then (real? text).map .real
      else if tag == standardTag "null" then if isNullText text then some .null else none
      else if tag.head? == some 33 then untaggedScalar? isPlain text
      else some (.string (String.ofList text))

/-- A collection with its tag, which counts only if it is local. -/
def withTag (tag : Option TagText) (value : Value) : Value :=
  match tag.bind localTag? with
  | some name => .tagged name value
  | none => value

end GoldenFixtures.Yaml
