import GoldenFixtures.Decimal.Binary64
import GoldenFixtures.Decimal.Width

/-!
# YAML values

A mapping keeps its entries in order, and any value may be a key.  Every integer
fits 64 bits, with a sign or without one.  A value with a local tag keeps the
tag; `asMapping?`, `asSequence?` and `asString?` look through it, `get?` and the
constructors do not.
-/

namespace GoldenFixtures.Yaml

/-- A floating-point number. -/
inductive Real where
  | finite (negative : Bool) (magnitude : Binary64.Magnitude)
  | infinite (negative : Bool)
  | notANumber
  deriving DecidableEq, Repr

/-- An integer of 64 bits, with a sign or without one. -/
structure Integer where
  value : Int
  int64Min_le : int64Min ≤ value
  le_uint64Max : value ≤ uint64Max
  deriving DecidableEq, Repr

/-- A YAML value. -/
inductive Value where
  | null
  | bool (flag : Bool)
  | integer (value : Integer)
  | real (value : Real)
  | string (text : String)
  | sequence (items : List Value)
  | mapping (entries : List (Value × Value))
  | tagged (tag : String) (value : Value)
  deriving Repr

instance : Inhabited Value := ⟨.null⟩

/-- Both zeros are the same number, and what is no number is the same as
itself. -/
def Real.same : Real → Real → Bool
  | .finite n m, .finite n' m' => m == m' && (n == n' || m.significand == 0)
  | .infinite n, .infinite n' => n == n'
  | .notANumber, .notANumber => true
  | _, _ => false

/-- The name of a tag: an exclamation mark in front of it does not count. -/
def tagName (tag : String) : List Char :=
  match tag.toList with
  | '!' :: c :: rest => c :: rest
  | text => text

namespace Value

mutual

/-- Two values are the same key of a mapping.  The order of a mapping's entries
does not count; an integer and a floating-point number are different. -/
def same : Value → Value → Bool
  | .null, .null => true
  | .bool a, .bool b => a == b
  | .integer a, .integer b => a == b
  | .real a, .real b => a.same b
  | .string a, .string b => a == b
  | .sequence as, .sequence bs => sameItems as bs
  | .mapping as, .mapping bs => as.length == bs.length && sameEntries as bs
  | .tagged t a, .tagged u b => tagName t == tagName u && same a b
  | _, _ => false

/-- Two lists of items are the same, one by one. -/
def sameItems : List Value → List Value → Bool
  | [], [] => true
  | a :: as, b :: bs => same a b && sameItems as bs
  | _, _ => false

/-- Each entry of the first list is in the second one. -/
def sameEntries : List (Value × Value) → List (Value × Value) → Bool
  | [], _ => true
  | (key, value) :: rest, bs =>
    (bs.any fun b => same key b.1 && same value b.2) && sameEntries rest bs

end

/-- The value under a string key. -/
def lookup (entries : List (Value × Value)) (key : String) : Option Value :=
  match entries with
  | [] => none
  | (.string text, value) :: rest => if text = key then some value else lookup rest key
  | _ :: rest => lookup rest key

/-- A value without its tags. -/
def untagged : Value → Value
  | .tagged _ value => untagged value
  | value => value

/-- The entries of a mapping, tagged or not. -/
def asMapping? (value : Value) : Option (List (Value × Value)) :=
  match value.untagged with
  | .mapping entries => some entries
  | _ => none

/-- The items of a sequence, tagged or not. -/
def asSequence? (value : Value) : Option (List Value) :=
  match value.untagged with
  | .sequence items => some items
  | _ => none

/-- The text of a string, tagged or not. -/
def asString? (value : Value) : Option String :=
  match value.untagged with
  | .string text => some text
  | _ => none

/-- The name of a value's type, as messages write it. -/
def typeName : Value → String
  | null => "null"
  | bool _ => "boolean"
  | integer _ => "integer"
  | real _ => "float"
  | string _ => "string"
  | sequence _ => "list"
  | mapping _ => "mapping"
  | tagged _ _ => "tagged value"

end Value

end GoldenFixtures.Yaml
