import GoldenFixtures.Decimal.Digits
import GoldenFixtures.Decimal.Width

/-!
# JSON values

A number is kept as it was written, digit by digit, and an object keeps its
members in order.  So a value that is read and written again loses nothing.
-/

namespace GoldenFixtures.Json

/-- The exponent of a number: a sign and at least one digit, leading zeros
included. -/
structure Exponent where
  negative : Bool
  first : Digit
  others : List Digit
  deriving DecidableEq, Repr

/-- A number as it is written.  The whole part has no leading zeros, so it is a
natural number; an absent fraction has no digits. -/
structure Number where
  negative : Bool
  whole : Nat
  fraction : List Digit
  exponent : Option Exponent
  deriving DecidableEq, Repr

/-- A JSON value.  The members of an object stand in the order of the text. -/
inductive Value where
  | null
  | bool (flag : Bool)
  | number (number : Number)
  | string (text : String)
  | array (items : List Value)
  | object (members : List (String × Value))
  deriving Repr

instance : Inhabited Value := ⟨.null⟩

/-- The members of an object. -/
abbrev Members := List (String × Value)

namespace Members

/-- The value of a member. -/
def get? (members : Members) (key : String) : Option Value := members.lookup key

/-- Sets a member: a key that is there keeps its place and takes the new value,
another key goes to the end. -/
def set (members : Members) (key : String) (value : Value) : Members :=
  match members with
  | [] => [(key, value)]
  | (k, v) :: rest => if k = key then (k, value) :: rest else (k, v) :: set rest key value

/-- The members of a text in which a key may repeat: the last value counts, in
the place of the first. -/
def ofPairs (pairs : List (String × Value)) : Members :=
  pairs.foldl (fun members pair => set members pair.1 pair.2) []

end Members

namespace Value

/-- The member of an object; other values have none. -/
def get? (value : Value) (key : String) : Option Value :=
  match value with
  | object members => Members.get? members key
  | _ => none

/-- The name of a value's type, as error messages write it. -/
def typeName : Value → String
  | null => "null"
  | bool _ => "boolean"
  | number _ => "number"
  | string _ => "string"
  | array _ => "array"
  | object _ => "object"

end Value

namespace Number

/-- The number written with these digits and no sign, fraction or exponent. -/
def ofNat (n : Nat) : Number := ⟨false, n, [], none⟩

/-- An integer as a number. -/
def ofInt (n : Int) : Number := ⟨decide (n < 0), n.natAbs, [], none⟩

/-- The integer that a number writes when it has neither fraction nor exponent
and lies in the 64-bit signed range. -/
def toInt64? (n : Number) : Option Int :=
  if n.fraction.isEmpty && n.exponent.isNone then
    let value : Int := if n.negative then -n.whole else n.whole
    if int64Min ≤ value ∧ value ≤ int64Max then some value else none
  else none

end Number

end GoldenFixtures.Json
