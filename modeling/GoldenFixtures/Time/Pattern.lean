import GoldenFixtures.Decimal.Digits
import GoldenFixtures.Text.Blank
import GoldenFixtures.Time.Instant

/-!
# Time patterns

A pattern is a list of items, each of which reads a piece of a text.  What the
items read is collected in `Fields`, and `Fields.toInstant?` checks that these
make an instant.  A pattern accepts a text only as a whole.
-/

namespace GoldenFixtures.Time

/-- A numeric part of a time. -/
inductive Part where
  | year
  | month
  | day
  | hour
  | minute
  | second
  deriving DecidableEq, Repr

/-- The parts of a time as they were read.  Parts that a pattern leaves out
keep these values. -/
structure Fields where
  year : Int := 1970
  month : Nat := 1
  day : Nat := 1
  hour : Nat := 0
  minute : Nat := 0
  second : Nat := 0
  nanosecond : Nat := 0
  /-- Seconds that local time is ahead of UTC. -/
  offset : Int := 0
  deriving DecidableEq, Repr

namespace Fields

/-- Sets a numeric part. -/
def set (fields : Fields) (part : Part) (value : Int) : Fields :=
  match part with
  | .year => { fields with year := value }
  | .month => { fields with month := value.toNat }
  | .day => { fields with day := value.toNat }
  | .hour => { fields with hour := value.toNat }
  | .minute => { fields with minute := value.toNat }
  | .second => { fields with second := value.toNat }

/-- The instant that the fields name.  The second 60 is a leap second, counted
from the start of the second 59. -/
def toInstant? (fields : Fields) : Option Instant :=
  let date : Date := ⟨fields.year, fields.month, fields.day⟩
  let leap := fields.second == 60
  let second := if leap then 59 else fields.second
  let utc := date.toDays * secondsPerDay
    + (fields.hour * 3600 + fields.minute * 60 + second : Nat) - fields.offset
  if date.isValid ∧ firstYear ≤ fields.year ∧ fields.year ≤ lastYear ∧ fields.hour ≤ 23
      ∧ fields.minute ≤ 59 ∧ fields.second ≤ 60 ∧ -secondsPerDay < fields.offset
      ∧ fields.offset < secondsPerDay ∧ Instant.inRange utc then
    some ⟨utc, fields.nanosecond + (if leap then 1000000000 else 0)⟩
  else none

end Fields

/-- A piece of a pattern. -/
inductive Item where
  /-- Exactly this many digits. -/
  | digits (count : Nat) (part : Part)
  /-- Digits after any white space, up to two of them; for a year up to four,
  or any number after a sign. -/
  | number (part : Part)
  /-- One of these characters. -/
  | oneOf (characters : List Char)
  /-- Any white space. -/
  | blanks
  /-- A point and digits, or nothing.  Digits behind the ninth do not count. -/
  | fraction
  /-- A `Z`, or a sign, two digits, a colon and two digits. -/
  | zone
  /-- A sign after any white space, two digits, any colons and white space, and
  two digits. -/
  | offset
  deriving DecidableEq, Repr

/-- Up to `count` digits at the front of a text, and what follows them. -/
def takeDigits : (count : Nat) → List Char → List Digit × List Char
  | 0, text => ([], text)
  | _ + 1, [] => ([], [])
  | count + 1, c :: text =>
    match Digit.ofChar? c with
    | some d => (d :: (takeDigits count text).1, (takeDigits count text).2)
    | none => ([], c :: text)

/-- Exactly `count` digits at the front of a text. -/
def exactDigits? (count : Nat) (text : List Char) : Option (Nat × List Char) :=
  match takeDigits count text with
  | (digits, rest) => if digits.length = count then some (Digits.toNat digits, rest) else none

/-- At least one digit, and at most `count`. -/
def someDigits? (count : Nat) (text : List Char) : Option (Nat × List Char) :=
  match takeDigits count text with
  | ([], _) => none
  | (digits, rest) => some (Digits.toNat digits, rest)

/-- At least one digit and as many as there are. -/
def allDigits? (text : List Char) : Option (List Digit × List Char) :=
  match Digits.split text with
  | ([], _) => none
  | (digits, rest) => some (digits, rest)

/-- A number after any white space: two digits at most, for a year four or a
sign and any number of them. -/
def number? (part : Part) (text : List Char) : Option (Int × List Char) :=
  let text := Text.trimStart text
  if part = .year then
    match text with
    | '-' :: rest => (allDigits? rest).map fun (ds, rest) => (-(Digits.toNat ds : Int), rest)
    | '+' :: rest => (allDigits? rest).map fun (ds, rest) => ((Digits.toNat ds : Int), rest)
    | _ => (someDigits? 4 text).map fun (n, rest) => ((n : Int), rest)
  else (someDigits? 2 text).map fun (n, rest) => ((n : Int), rest)

/-- The nanoseconds that the digits behind a point write. -/
def nanoseconds (digits : List Digit) : Nat :=
  let counted := digits.take 9
  Digits.toNat counted * Nat.pow 10 (9 - counted.length)

/-- A sign of an offset: whether it is negative.  The minus sign of
mathematics counts as one. -/
def sign? (text : List Char) : Option (Bool × List Char) :=
  match text with
  | '+' :: rest => some (false, rest)
  | '-' :: rest => some (true, rest)
  | '\u2212' :: rest => some (true, rest)
  | _ => none

/-- The seconds of an offset. -/
def offsetSeconds (negative : Bool) (hours minutes : Nat) : Int :=
  let seconds : Int := hours * 3600 + minutes * 60
  if negative then -seconds else seconds

/-- Two digits that write at most 59. -/
def offsetMinutes? (text : List Char) : Option (Nat × List Char) :=
  (exactDigits? 2 text).bind fun (minutes, rest) =>
    if minutes ≤ 59 then some (minutes, rest) else none

/-- An offset whose hours and minutes are parted as `skip` says. -/
def offset? (skip : List Char → Option (List Char)) (text : List Char) :
    Option (Int × List Char) := do
  let (negative, rest) ← sign? text
  let (hours, rest) ← exactDigits? 2 rest
  let rest ← skip rest
  let (minutes, rest) ← offsetMinutes? rest
  return (offsetSeconds negative hours minutes, rest)

/-- A text behind one colon. -/
def afterColon? (text : List Char) : Option (List Char) :=
  match text with
  | ':' :: rest => some rest
  | _ => none

/-- A text behind any colons and white space. -/
def afterColons (text : List Char) : List Char :=
  text.dropWhile fun c => c == ':' || Text.isBlank c

/-- Reads one item. -/
def Item.read (item : Item) (fields : Fields) (text : List Char) : Option (Fields × List Char) :=
  match item with
  | .digits count part =>
    (exactDigits? count text).map fun (n, rest) => (fields.set part n, rest)
  | .number part => (number? part text).map fun (n, rest) => (fields.set part n, rest)
  | .oneOf characters =>
    match text with
    | c :: rest => if c ∈ characters then some (fields, rest) else none
    | [] => none
  | .blanks => some (fields, Text.trimStart text)
  | .fraction =>
    match text with
    | '.' :: rest =>
      (allDigits? rest).map fun (ds, rest) => ({ fields with nanosecond := nanoseconds ds }, rest)
    | _ => some (fields, text)
  | .zone =>
    match text with
    | 'Z' :: rest => some ({ fields with offset := 0 }, rest)
    | 'z' :: rest => some ({ fields with offset := 0 }, rest)
    | _ => (offset? afterColon? text).map fun (s, rest) => ({ fields with offset := s }, rest)
  | .offset =>
    (offset? (fun rest => some (afterColons rest)) (Text.trimStart text)).map fun (s, rest) =>
      ({ fields with offset := s }, rest)

/-- A pattern. -/
abbrev Pattern := List Item

/-- Reads the items of a pattern, which have to use up the text. -/
def Pattern.read (pattern : Pattern) (fields : Fields) (text : List Char) : Option Fields :=
  match pattern with
  | [] => if text.isEmpty then some fields else none
  | item :: items =>
    match item.read fields text with
    | some (fields, rest) => Pattern.read items fields rest
    | none => none

/-- The instant that a text names under a pattern. -/
def Pattern.instant? (pattern : Pattern) (text : List Char) : Option Instant :=
  (Pattern.read pattern {} text).bind Fields.toInstant?

end GoldenFixtures.Time
