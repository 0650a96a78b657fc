import GoldenFixtures.Json.Binary
import GoldenFixtures.Json.Writer

/-!
# Components of a bill of materials

Two components are the same if they have the same identity: the reference under
which a component is known, or else its name and version.
-/

namespace GoldenFixtures.Sbom

open Json (Value Members)

/-- The value says something: it is neither empty, nor zero, nor false. -/
def isTruthy : Value → Bool
  | .null => false
  | .bool flag => flag
  | .number n =>
    match n.magnitude? with
    | some magnitude => magnitude.significand != 0
    | none => false
  | .string text => text != ""
  | .array items => !items.isEmpty
  | .object members => !members.isEmpty

/-- What makes a component the one that it is. -/
inductive Identity where
  /-- The text of its reference. -/
  | reference (text : String)
  /-- The texts of its name and version. -/
  | nameVersion (name version : String)
  deriving DecidableEq, Repr

namespace Identity

/-- The text of a reference: that of a string is the string itself. -/
def referenceText : Value → String
  | .string text => text
  | value => value.toCompact

/-- The value under a key, if it says something. -/
def reference? (members : Members) (key : String) : Option Value :=
  (Members.get? members key).filter isTruthy

/-- The text under a key; a missing member reads as null. -/
def memberText (members : Members) (key : String) : String :=
  ((Members.get? members key).getD .null).toCompact

/-- The identity of a component: its `bom-ref`, else its `purl`, else its name
and version. -/
def ofMembers (members : Members) : Identity :=
  match reference? members "bom-ref" with
  | some value => .reference (referenceText value)
  | none =>
    match reference? members "purl" with
    | some value => .reference (referenceText value)
    | none => .nameVersion (memberText members "name") (memberText members "version")

end Identity

end GoldenFixtures.Sbom
