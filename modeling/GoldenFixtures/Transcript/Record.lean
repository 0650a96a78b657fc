import GoldenFixtures.Json.Sorted
import GoldenFixtures.Json.Writer
import GoldenFixtures.Json.Error
import GoldenFixtures.Text.Lowercase
import GoldenFixtures.Transcript.Timestamp

/-!
# Exchange records

A record of a transcript is an object with a direction, a timestamp and an
envelope; it may have more members.  `Record.ofValue` brings a record into its
normal form, and `Error` lists what may stop it.
-/

namespace GoldenFixtures.Transcript

open Json (Value Members)

/-- The members that every record has. -/
inductive Field where
  | direction
  | timestamp
  | envelope
  deriving DecidableEq, Repr

/-- The key of a member that every record has. -/
def Field.key : Field → String
  | direction => "direction"
  | timestamp => "timestamp"
  | envelope => "envelope"

/-- The keys of the members that every record has. -/
def requiredKeys : List String := [Field.direction.key, Field.timestamp.key, Field.envelope.key]

/-- Why a transcript cannot be normalized.  A record is named by its index, and
an offending value by its text or its type. -/
inductive Error where
  | invalidJson (error : Json.Error)
  | notAnArray (found : String)
  | recordNotObject (index : Nat) (found : String)
  | missingField (index : Nat) (field : Field)
  | invalidDirection (index : Nat) (found : String)
  | invalidTimestamp (index : Nat) (found : String)
  /-- The timestamp rounds to an instant behind the last year. -/
  | timestampPastLastYear
  deriving DecidableEq, Repr

/-- The wording of an error. -/
def Error.message : Error → String
  | invalidJson error => "invalid JSON: " ++ error.message
  | notAnArray found => "transcript must be a JSON array of exchange records, found " ++ found
  | recordNotObject index found =>
    "record " ++ toString index ++ " must be a JSON object, found " ++ found
  | missingField index field =>
    "record " ++ toString index ++ " is missing required field '" ++ field.key ++ "'"
  | invalidDirection index found =>
    "record " ++ toString index ++ " direction must be one of send, receive; got " ++ found
  | invalidTimestamp index found =>
    "record " ++ toString index ++ " has invalid ISO-8601 timestamp: " ++ found
  | timestampPastLastYear => "`DateTime + TimeDelta` overflowed"

/-- Who sent the envelope. -/
inductive Direction where
  | send
  | receive
  deriving DecidableEq, Repr

namespace Direction

/-- The word for a direction. -/
def name : Direction → String
  | send => "send"
  | receive => "receive"

/-- The direction that a word names. -/
def ofName? (word : String) : Option Direction :=
  if word = "send" then some send
  else if word = "receive" then some receive
  else none

/-- The direction that a value names: a string in any letter case, another
value by its text. -/
def ofValue? (value : Value) : Option Direction :=
  match value with
  | .string text => ofName? (Text.lowercase text)
  | value => ofName? value.toCompact

end Direction

/-- A record in normal form.  The other members stand in the order of their
keys. -/
structure Record where
  direction : Direction
  timestamp : String
  envelope : Value
  others : Members

namespace Record

/-- The record as a value: its three fields, then the other members. -/
def toValue (record : Record) : Value :=
  .object ((Field.direction.key, .string record.direction.name)
    :: (Field.timestamp.key, .string record.timestamp)
    :: (Field.envelope.key, record.envelope) :: record.others)

/-- The members besides the three that every record has, sorted at every
depth. -/
def otherMembers (members : Members) : Members :=
  Members.sortByKey
    (Value.sortedMembers (members.filter fun member => member.1 ∉ requiredKeys))

/-- A member that every record has. -/
def field (members : Members) (index : Nat) (field : Field) : Except Error Value :=
  match Members.get? members field.key with
  | some value => .ok value
  | none => .error (.missingField index field)

/-- The direction of the record at an index. -/
def readDirection (members : Members) (index : Nat) : Except Error Direction := do
  let value ← field members index .direction
  match Direction.ofValue? value with
  | some direction => return direction
  | none => .error (.invalidDirection index value.toCompact)

/-- The normal form of the timestamp of the record at an index. -/
def readTimestamp (members : Members) (index : Nat) : Except Error String := do
  let value ← field members index .timestamp
  match value with
  | .string text =>
    match Timestamp.normalize text with
    | .ok timestamp => return timestamp
    | .error .unreadable => .error (.invalidTimestamp index value.toCompact)
    | .error .pastLastYear => .error .timestampPastLastYear
  | value => .error (.invalidTimestamp index value.toCompact)

/-- The normal form of the record at an index. -/
def ofValue (index : Nat) (value : Value) : Except Error Record :=
  match value with
  | .object members => do
    let direction ← readDirection members index
    let timestamp ← readTimestamp members index
    let envelope ← field members index .envelope
    return ⟨direction, timestamp, envelope.sorted, otherMembers members⟩
  | value => .error (.recordNotObject index value.typeName)

end Record

end GoldenFixtures.Transcript
