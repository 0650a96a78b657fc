import GoldenFixtures.Json.Value

/-!
# Sorted objects

`Value.sorted` orders the members of every object by key, at every depth.  Keys
compare character by character, which is also the order of their UTF-8 bytes.
-/

namespace GoldenFixtures.Json

namespace Members

/-- Members in the order of their keys. -/
def sortByKey (members : Members) : Members :=
  members.mergeSort fun a b => decide (a.1 ≤ b.1)

end Members

namespace Value

mutual

/-- A value with the members of every object in the order of their keys. -/
def sorted : Value → Value
  | .array items => .array (sortedItems items)
  | .object members => .object (Members.sortByKey (sortedMembers members))
  | .null => .null
  | .bool flag => .bool flag
  | .number n => .number n
  | .string text => .string text

/-- The elements of an array, each sorted inside. -/
def sortedItems : List Value → List Value
  | [] => []
  | item :: items => sorted item :: sortedItems items

/-- The members of an object, each sorted inside. -/
def sortedMembers : List (String × Value) → List (String × Value)
  | [] => []
  | (key, value) :: members => (key, sorted value) :: sortedMembers members

end

end Value

end GoldenFixtures.Json
