import GoldenFixtures.Json.Reader
import GoldenFixtures.Transcript.Record

/-!
# Normal transcripts

A transcript is a JSON array of exchange records.  Its normal form holds the
normal form of every record, over several lines, and ends with a line end.
-/

namespace GoldenFixtures.Transcript

open Json (Value)

/-- The normal forms of a list of records whose first has an index. -/
def recordsFrom (index : Nat) : List Value → Except Error (List Record)
  | [] => .ok []
  | value :: values => do
    let record ← Record.ofValue index value
    let records ← recordsFrom (index + 1) values
    return record :: records

/-- The normal forms of the records of a transcript. -/
def records (value : Value) : Except Error (List Record) :=
  match value with
  | .array values => recordsFrom 0 values
  | value => .error (.notAnArray value.typeName)

/-- The text of a list of records. -/
def render (records : List Record) : String := (Value.array (records.map Record.toValue)).toPretty

/-- The normal form of a transcript's text. -/
def normalize (text : String) : Except Error String := do
  let value ← (Value.read text.toList).mapError Error.invalidJson
  let records ← records value
  return render records

/-- The text is not in normal form already. -/
def isChanged (text output : String) : Bool := output != text

end GoldenFixtures.Transcript
