import GoldenFixtures.Replay.Order
import GoldenFixtures.Yaml.Value

/-!
# Checking replay documents

A replay document is a mapping with a scenario, a source and a list of events.
A document without `events` is a manifest and is skipped, unless its mode says
that it is something else.

`validate` checks the fields of the document and then its events, one after
the other.  An event is read into an `Event` first; `Event.findings` says what
is wrong with it after the events in front of it, and `Progress.after` what the
following events have to know of it.
-/

namespace GoldenFixtures.Replay

open Yaml (Value)

/-- The entries of a mapping. -/
abbrev Entries := List (Value × Value)

/-! ## The document's own fields -/

/-- The mode of a document. -/
inductive Mode where
  | unset
  | named (name : String)
  /-- The mode is no string but a value of another type. -/
  | invalid (found : String)
  deriving DecidableEq, Repr

namespace Mode

/-- The mode that a document sets; null sets none. -/
def ofEntries (entries : Entries) : Mode :=
  match Value.lookup entries "mode" with
  | none | some .null => unset
  | some (.string name) => named name
  | some value => invalid value.typeName

/-- A document without events is a manifest. -/
def allowsSkip (mode : Mode) : Bool :=
  mode == unset || mode == named "replay" || mode == named "config"

/-- The finding on a mode in which there are no events to replay. -/
def finding? (mode : Mode) : Option Finding :=
  match mode with
  | unset => none
  | named name => if name = "replay" then none else some (.unsupportedMode name)
  | invalid found => some (.unsupportedModeType found)

end Mode

/-- The non-empty string under a key. -/
def text? (entries : Entries) (key : String) : Option String :=
  match Value.lookup entries key with
  | some (.string text) => if text = "" then none else some text
  | _ => none

/-- The finding on a field that has to be a non-empty string. -/
def textFinding? (entries : Entries) (key : String) : Option Finding :=
  match text? entries key with
  | some _ => none
  | none => some (.missingText key)

/-- The findings on the fields of a document besides its events. -/
def headFindings (entries : Entries) : List Finding :=
  (Mode.ofEntries entries).finding?.toList
    ++ (textFinding? entries "scenario").toList
    ++ (textFinding? entries "source").toList

/-! ## Events -/

/-- The time of an event. -/
inductive Time where
  | missing
  | at (value : Int)
  /-- The time is no integer but a value of another type. -/
  | invalid (found : String)
  deriving DecidableEq, Repr

namespace Time

/-- The time that an event sets. -/
def ofEntries (entries : Entries) : Time :=
  match Value.lookup entries "ts_ms" with
  | none => missing
  | some (.integer time) => .at time.value
  | some value => invalid value.typeName

/-- The time, if it is an integer. -/
def value? : Time → Option Int
  | .at value => some value
  | _ => none

/-- The finding on a time that is no integer. -/
def finding? (time : Time) (label : String) : Option Finding :=
  match time with
  | missing => some (.missingTime label)
  | .at _ => none
  | invalid found => some (.timeNotInteger label found)

end Time

/-- The strings of a list, or the type of the first item that is none. -/
def strings : List Value → Except String (List String)
  | [] => .ok []
  | item :: items =>
    match item.asString? with
    | none => .error (item.typeName ++ " item")
    | some text => (strings items).map (text :: ·)

/-- The ids that an event depends on, or what stands in their place. -/
def dependencies (entries : Entries) : Except String (List String) :=
  match Value.lookup entries "depends_on" with
  | none | some .null => .ok []
  | some (.sequence items) => strings items
  | some value => .error value.typeName

/-- An event as far as it is checked. -/
structure Event where
  id : Option String
  time : Time
  dependencies : Except String (List String)

namespace Event

/-- The event that a mapping describes. -/
def ofEntries (entries : Entries) : Event :=
  ⟨text? entries "event_id", Time.ofEntries entries, Replay.dependencies entries⟩

/-- How findings call an event: by its id, or by its place. -/
def label (event : Event) (index : Nat) : String :=
  match event.id with
  | some id => "event '" ++ id ++ "'"
  | none => Finding.place index

end Event

/-- What is known after some events: the ids and the last time. -/
structure Progress where
  seen : Seen := {}
  clock : Clock := {}
  deriving DecidableEq, Repr

namespace Event

/-- The finding on the id of an event. -/
def idFinding? (event : Event) (index : Nat) (seen : Seen) : Option Finding :=
  match event.id with
  | none => some (.missingId index)
  | some id => (seen.indexOf? id).map (.duplicateId id index)

/-- The finding on the dependencies of an event. -/
def dependencyFinding? (event : Event) (index : Nat) (seen : Seen) : Option Finding :=
  match event.dependencies with
  | .ok ids => seen.finding? (event.label index) ids
  | .error found => some (.malformedDependencies (event.label index) found)

/-- The finding on an event that is earlier than the one before. -/
def clockFinding? (event : Event) (index : Nat) (clock : Clock) : Option Finding :=
  event.time.value?.bind (clock.finding? (event.label index))

/-- The findings on an event after the events in front of it. -/
def findings (event : Event) (index : Nat) (progress : Progress) : List Finding :=
  (event.idFinding? index progress.seen).toList
    ++ (event.time.finding? (event.label index)).toList
    ++ (event.dependencyFinding? index progress.seen).toList
    ++ (event.clockFinding? index progress.clock).toList

end Event

namespace Progress

/-- What is known after one more event. -/
def after (progress : Progress) (event : Event) (index : Nat) : Progress :=
  { seen :=
      match event.id with
      | some id => progress.seen.record id index
      | none => progress.seen
    clock :=
      match event.time.value? with
      | some time => progress.clock.observe time
      | none => progress.clock }

end Progress

/-- The findings on the events from an index on. -/
def eventFindings (progress : Progress) (index : Nat) : List Value → List Finding
  | [] => []
  | value :: values =>
    match value.asMapping? with
    | none =>
      .eventNotMapping index value.typeName :: eventFindings progress (index + 1) values
    | some entries =>
      let event := Event.ofEntries entries
      event.findings index progress
        ++ eventFindings (progress.after event index) (index + 1) values

/-! ## Documents -/

/-- The events of a document, if it has a list of at least one. -/
def events? (entries : Entries) : Option (List Value) :=
  ((Value.lookup entries "events").bind Value.asSequence?).filter fun events => !events.isEmpty

/-- A document is a manifest if it has no events and its mode allows that. -/
def isManifest (entries : Entries) : Bool :=
  (Value.lookup entries "events").isNone && (Mode.ofEntries entries).allowsSkip

/-- The findings on a document, or none at all for a manifest. -/
def findings? (document : Value) : Option (List Finding) :=
  match document.asMapping? with
  | none => some [.rootNotMapping document.typeName]
  | some entries =>
    if isManifest entries then none
    else
      some (headFindings entries
        ++ match events? entries with
          | some events => eventFindings {} 0 events
          | none => [.noEvents])

/-- Checks a document. -/
def validate (document : Value) : Outcome :=
  match findings? document with
  | none => .skipped
  | some findings => .checked (findings.map Finding.toIssue)

end GoldenFixtures.Replay
