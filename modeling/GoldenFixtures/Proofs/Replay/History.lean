import Mathlib.Data.List.Basic
import GoldenFixtures.Replay.Document

/-!
# The scan of the events without its state

`eventFindings` walks over the events with a `Progress` in its hand.  This
module says what comes of it without that state: `issuesBehind earlier value` are
the issues on an event that stands behind the events `earlier`, worked out from
these events alone and told word for word.

There are four groups.

* The history.  `firstPlace?`, `lastTime?` and `unseen` ask the events in front
  what the scan has remembered of them.
* The invariant.  `Progress.Knows` ties the state to the history;
  `Progress.Knows.after` and `Progress.Knows.skip` are its two steps.
* The scan.  `map_eventFindings` is the induction over the events, which go one by
  one from those that are left to those in front.
* The document.  `validate_eq_history` is the result for a document with events.
-/

namespace GoldenFixtures.Replay

open Yaml (Value)

/-! ## What an event says -/

theorem text?_eq_some_iff {entries : Entries} {key text : String} :
    text? entries key = some text ↔
      Value.lookup entries key = some (.string text) ∧ text ≠ "" := by
  unfold text?
  split
  · rename_i found hlookup
    rw [hlookup]
    by_cases hempty : found = ""
    · simp only [hempty, if_true]
      grind
    · simp only [hempty, if_false]
      grind
  · rename_i hother
    constructor
    · intro h
      exact nomatch h
    · rintro ⟨hlookup, _⟩
      exact absurd hlookup (hother text)

/-- The id of an event, if the value is a mapping with a valid one. -/
def eventId? (value : Value) : Option String :=
  value.asMapping?.bind fun entries => text? entries "event_id"

/-- The time of an event, if the value is a mapping with a valid one. -/
def eventTime? (value : Value) : Option Int :=
  match value.asMapping?.bind fun entries => Value.lookup entries "ts_ms" with
  | some (.integer time) => some time.value
  | _ => none

/-! ## The history -/

/-- The least place of an event that has an id. -/
def firstPlace? (earlier : List Value) (id : String) : Option Nat :=
  earlier.findIdx? fun value => eventId? value == some id

/-- The time of the last event that has a valid one. -/
def lastTime? (earlier : List Value) : Option Int :=
  earlier.reverse.findSome? eventTime?

/-- The ids that no event has, in their order and as often as they are listed. -/
def unseen (earlier : List Value) (ids : List String) : List String :=
  ids.filter fun id => earlier.all fun value => eventId? value != some id

/-- An event by its place in the list. -/
def placeText (index : Nat) : String := "events[" ++ toString index ++ "]"

/-- How issues call the event behind `earlier`. -/
def labelBehind (earlier : List Value) (value : Value) : String :=
  match eventId? value with
  | some id => "event '" ++ id ++ "'"
  | none => placeText earlier.length

/-- The issue on dependencies that were never recorded, if there are any. -/
def dependencyIssue? (label : String) (missing : List String) : Option Issue :=
  if missing = [] then none
  else some ⟨.order, label ++ " depends on events not seen earlier: " ++ ", ".intercalate missing⟩

/-- The issue on a time behind the one that was observed right before it. -/
def timeIssue? (label : String) (time : Int) (before : Option Int) : Option Issue :=
  match before with
  | none => none
  | some previous =>
    if time < previous then
      some ⟨.order, label ++ " has ts_ms " ++ toString time ++ " earlier than previous ts_ms "
        ++ toString previous ++ "; timestamps must be non-decreasing"⟩
    else none

@[simp] theorem dependencyIssue?_eq_none_iff {label : String} {missing : List String} :
    dependencyIssue? label missing = none ↔ missing = [] := by
  simp [dependencyIssue?]

@[simp] theorem timeIssue?_eq_none_iff {label : String} {time : Int} {before : Option Int} :
    timeIssue? label time before = none ↔
      ∀ previous, before = some previous → previous ≤ time := by
  cases before <;> simp [timeIssue?]

/-- The issue on the id: there is none, or an event in front has it. -/
def idIssues (earlier : List Value) (value : Value) : List Issue :=
  match eventId? value with
  | none => [⟨.schema, placeText earlier.length ++ " must define a non-empty string 'event_id'"⟩]
  | some id =>
    match firstPlace? earlier id with
    | none => []
    | some first =>
      [⟨.schema, "duplicate event_id '" ++ id ++ "' at " ++ placeText earlier.length
        ++ " (first defined at " ++ placeText first ++ ")"⟩]

/-- The issue on the time: there is none, or it is no integer. -/
def integerIssues (label : String) (entries : Entries) : List Issue :=
  match Value.lookup entries "ts_ms" with
  | none => [⟨.schema, label ++ " must define an integer 'ts_ms'"⟩]
  | some (.integer _) => []
  | some value => [⟨.schema, label ++ " has non-integer 'ts_ms' (" ++ value.typeName ++ ")"⟩]

/-- The issue on dependencies that are no list of strings. -/
def malformedIssue (label found : String) : Issue :=
  ⟨.schema, label ++ " has malformed 'depends_on': expected a list of strings, found " ++ found⟩

/-- The issue on the dependencies: they are no list of strings, or some of them are
the ids of no event in front. -/
def dependencyIssues (earlier : List Value) (label : String) (entries : Entries) : List Issue :=
  match Value.lookup entries "depends_on" with
  | none | some .null => []
  | some (.sequence items) =>
    match items.find? fun item => item.asString?.isNone with
    | some item => [malformedIssue label (item.typeName ++ " item")]
    | none => (dependencyIssue? label (unseen earlier (items.filterMap Value.asString?))).toList
  | some value => [malformedIssue label value.typeName]

/-- The issue on a time that lies before the last valid one. -/
def orderIssues (earlier : List Value) (label : String) (value : Value) : List Issue :=
  match eventTime? value with
  | none => []
  | some time => (timeIssue? label time (lastTime? earlier)).toList

/-- The issues on an event, from the events in front of it alone. -/
def issuesBehind (earlier : List Value) (value : Value) : List Issue :=
  match value.asMapping? with
  | none =>
    [⟨.schema, placeText earlier.length ++ " must be a mapping, found " ++ value.typeName⟩]
  | some entries =>
    idIssues earlier value
      ++ integerIssues (labelBehind earlier value) entries
      ++ dependencyIssues earlier (labelBehind earlier value) entries
      ++ orderIssues earlier (labelBehind earlier value) value

/-- The issues on all events, each from the events in front of it. -/
def historyIssues (events : List Value) : List Issue :=
  events.zipIdx.flatMap fun event => issuesBehind (events.take event.2) event.1

/-! ## The invariant -/

namespace Seen

/-- A record answers for its own id unless that was recorded before. -/
theorem indexOf?_record (seen : Seen) (id other : String) (index : Nat) :
    (seen.record id index).indexOf? other =
      (seen.indexOf? other).or (if other = id then some index else none) := by
  unfold record contains indexOf?
  split
  · rename_i hknown
    split
    · rename_i heq
      subst heq
      obtain ⟨first, hfirst⟩ := Option.isSome_iff_exists.mp hknown
      rw [hfirst, Option.some_or]
    · rw [Option.or_none]
  · rw [List.lookup_append]
    by_cases heq : other = id
    · simp [heq]
    · have hbeq : (other == id) = false := beq_eq_false_iff_ne.mpr heq
      simp [heq, hbeq, List.lookup_cons]

end Seen

@[simp] theorem firstPlace?_append_singleton (earlier : List Value) (value : Value) (id : String) :
    firstPlace? (earlier ++ [value]) id =
      (firstPlace? earlier id).or
        (if eventId? value = some id then some earlier.length else none) := by
  unfold firstPlace?
  rw [List.findIdx?_append]
  by_cases hid : eventId? value = some id
  · simp [List.findIdx?_cons, hid]
  · simp [List.findIdx?_cons, hid]

@[simp] theorem lastTime?_append_singleton (earlier : List Value) (value : Value) :
    lastTime? (earlier ++ [value]) = (eventTime? value).or (lastTime? earlier) := by
  unfold lastTime?
  rw [List.reverse_append, List.reverse_singleton, List.singleton_append, List.findSome?_cons]
  cases eventTime? value with
  | none => rfl
  | some time => rfl

/-- The state knows of the events in front what the history tells. -/
structure Progress.Knows (progress : Progress) (earlier : List Value) : Prop where
  places : ∀ id, progress.seen.indexOf? id = firstPlace? earlier id
  time : progress.clock.previous = lastTime? earlier

namespace Progress.Knows

variable {progress : Progress} {earlier : List Value} {value : Value} {entries : Entries}

theorem start : Progress.Knows {} [] :=
  ⟨fun _ => rfl, rfl⟩

theorem eventId?_eq (hmapping : value.asMapping? = some entries) :
    eventId? value = (Event.ofEntries entries).id := by
  unfold eventId?
  rw [hmapping]
  rfl

theorem eventTime?_eq (hmapping : value.asMapping? = some entries) :
    eventTime? value = (Event.ofEntries entries).time.value? := by
  unfold eventTime? Event.ofEntries Time.ofEntries
  rw [hmapping, Option.bind_some]
  cases hlookup : Value.lookup entries "ts_ms" with
  | none => rfl
  | some found => cases found <;> rfl

/-- A value that is no mapping tells nothing. -/
theorem skip (h : progress.Knows earlier) (hmapping : value.asMapping? = none) :
    progress.Knows (earlier ++ [value]) := by
  have hid : eventId? value = none := by
    unfold eventId?
    rw [hmapping, Option.bind_none]
  have htime : eventTime? value = none := by
    unfold eventTime?
    rw [hmapping, Option.bind_none]
  constructor
  · intro id
    rw [firstPlace?_append_singleton, hid, if_neg (by simp), Option.or_none]
    exact h.places id
  · rw [lastTime?_append_singleton, htime, Option.none_or]
    exact h.time

/-- One more event in front: its id is remembered unless it is known, and its
time takes the place of the last one. -/
theorem after (h : progress.Knows earlier) (hmapping : value.asMapping? = some entries) :
    (progress.after (Event.ofEntries entries) earlier.length).Knows (earlier ++ [value]) := by
  constructor
  · intro id
    rw [firstPlace?_append_singleton, eventId?_eq hmapping, ← h.places]
    unfold Progress.after
    cases hid : (Event.ofEntries entries).id with
    | none => simp
    | some own =>
      simp only [Seen.indexOf?_record, Option.some.injEq]
      simp only [eq_comm]
  · rw [lastTime?_append_singleton, eventTime?_eq hmapping, ← h.time]
    unfold Progress.after
    cases (Event.ofEntries entries).time.value? with
    | none => rfl
    | some time => rfl

end Progress.Knows

/-! ## The scan -/

namespace Progress.Knows

variable {progress : Progress} {earlier : List Value} {value : Value} {entries : Entries}

theorem label_eq (hmapping : value.asMapping? = some entries) :
    (Event.ofEntries entries).label earlier.length = labelBehind earlier value := by
  have hid := eventId?_eq hmapping
  unfold Event.label labelBehind
  cases hcase : (Event.ofEntries entries).id with
  | none =>
    rw [hid, hcase]
    rfl
  | some id => rw [hid, hcase]

theorem map_idFinding? (h : progress.Knows earlier)
    (hmapping : value.asMapping? = some entries) :
    ((Event.ofEntries entries).idFinding? earlier.length progress.seen).toList.map
      Finding.toIssue = idIssues earlier value := by
  unfold Event.idFinding? idIssues
  rw [eventId?_eq hmapping]
  cases (Event.ofEntries entries).id with
  | none => rfl
  | some id =>
    simp only [h.places]
    cases firstPlace? earlier id <;> rfl

theorem map_timeFinding? (label : String) :
    ((Event.ofEntries entries).time.finding? label).toList.map Finding.toIssue =
      integerIssues label entries := by
  unfold Event.ofEntries Time.ofEntries integerIssues
  cases hlookup : Value.lookup entries "ts_ms" with
  | none => rfl
  | some found => cases found <;> rfl

/-- The ids that the state does not contain are those that no event has. -/
theorem filter_not_contains (h : progress.Knows earlier) (ids : List String) :
    (ids.filter fun id => !progress.seen.contains id) = unseen earlier ids := by
  unfold unseen
  apply List.filter_congr
  intro id _
  unfold Seen.contains
  rw [h.places, firstPlace?, List.findIdx?_isSome, List.not_any_eq_all_not]
  rfl

/-- Either all items are strings, or the first that is none is the one that is
found. -/
theorem strings_eq (items : List Value) :
    strings items =
      match items.find? fun item => item.asString?.isNone with
      | some item => .error (item.typeName ++ " item")
      | none => .ok (items.filterMap Value.asString?) := by
  induction items with
  | nil => rfl
  | cons item items ih =>
    unfold strings
    cases hitem : item.asString? with
    | none => simp [hitem]
    | some text =>
      simp only [ih, List.find?_cons, hitem, Option.isNone_some, List.filterMap_cons]
      cases items.find? fun item => item.asString?.isNone <;> rfl

/-- Dependencies that the state does not contain are told as those that no event
has. -/
theorem map_seenFinding? (h : progress.Knows earlier) (label : String) (ids : List String) :
    (progress.seen.finding? label ids).toList.map Finding.toIssue =
      (dependencyIssue? label (unseen earlier ids)).toList := by
  unfold Seen.finding?
  rw [h.filter_not_contains]
  cases unseen earlier ids <;> rfl

theorem map_dependencyFinding? (h : progress.Knows earlier)
    (hmapping : value.asMapping? = some entries) :
    ((Event.ofEntries entries).dependencyFinding? earlier.length progress.seen).toList.map
      Finding.toIssue = dependencyIssues earlier (labelBehind earlier value) entries := by
  unfold Event.dependencyFinding? dependencyIssues
  rw [label_eq hmapping]
  simp only [Event.ofEntries, Replay.dependencies]
  cases hlookup : Value.lookup entries "depends_on" with
  | none => exact h.map_seenFinding? _ []
  | some found =>
    cases found with
    | null => exact h.map_seenFinding? _ []
    | sequence items =>
      simp only [strings_eq]
      cases items.find? fun item => item.asString?.isNone with
      | some item => rfl
      | none => exact h.map_seenFinding? _ _
    | _ => rfl

theorem map_clockFinding? (h : progress.Knows earlier)
    (hmapping : value.asMapping? = some entries) :
    ((Event.ofEntries entries).clockFinding? earlier.length progress.clock).toList.map
      Finding.toIssue = orderIssues earlier (labelBehind earlier value) value := by
  unfold Event.clockFinding? orderIssues Clock.finding? timeIssue?
  rw [label_eq hmapping, eventTime?_eq hmapping, h.time]
  cases (Event.ofEntries entries).time.value? with
  | none => rfl
  | some time =>
    cases lastTime? earlier with
    | none => rfl
    | some previous =>
      simp only [Option.bind_some]
      split <;> rfl

/-- What the scan tells of one event is what the history tells. -/
theorem map_findings (h : progress.Knows earlier) (hmapping : value.asMapping? = some entries) :
    ((Event.ofEntries entries).findings earlier.length progress).map Finding.toIssue =
      issuesBehind earlier value := by
  unfold Event.findings issuesBehind
  simp only [List.map_append, hmapping, h.map_idFinding? hmapping, map_timeFinding?,
    label_eq hmapping, h.map_dependencyFinding? hmapping, h.map_clockFinding? hmapping]

end Progress.Knows

/-- The scan of the remaining events tells what the history tells of each. -/
theorem map_eventFindings {progress : Progress} {earlier : List Value}
    (h : progress.Knows earlier) (later : List Value) :
    (eventFindings progress earlier.length later).map Finding.toIssue =
      (later.zipIdx earlier.length).flatMap fun event =>
        issuesBehind ((earlier ++ later).take event.2) event.1 := by
  induction later generalizing progress earlier with
  | nil => rfl
  | cons value later ih =>
    have hsplit : earlier ++ value :: later = (earlier ++ [value]) ++ later := by simp
    have hlength : (earlier ++ [value]).length = earlier.length + 1 := by simp
    have hfront : (earlier ++ value :: later).take earlier.length = earlier := by simp
    rw [List.zipIdx_cons, List.flatMap_cons, hfront, hsplit, ← hlength]
    cases hmapping : value.asMapping? with
    | none =>
      rw [← ih (h.skip hmapping), hlength]
      simp only [eventFindings, issuesBehind, hmapping, List.map_cons, List.singleton_append]
      rfl
    | some entries =>
      rw [← ih (h.after hmapping), hlength, ← h.map_findings hmapping, ← List.map_append]
      simp only [eventFindings, hmapping]

/-- The issues on the events of a document are those of the history. -/
theorem map_eventFindings_start (events : List Value) :
    (eventFindings {} 0 events).map Finding.toIssue = historyIssues events :=
  map_eventFindings Progress.Knows.start events

/-! ## The document -/

/-- The issue on the mode: it is neither unset nor that of a replay. -/
def modeIssues (entries : Entries) : List Issue :=
  match Value.lookup entries "mode" with
  | none | some .null => []
  | some (.string mode) =>
    if mode = "replay" then [] else [⟨.schema, "unsupported mode '" ++ mode ++ "'"⟩]
  | some value => [⟨.schema, "unsupported mode " ++ value.typeName⟩]

/-- The issue on a field that has to be a non-empty string. -/
def fieldIssues (entries : Entries) (key : String) : List Issue :=
  let missing : Issue := ⟨.schema, "document must define a non-empty string '" ++ key ++ "'"⟩
  match Value.lookup entries key with
  | some (.string text) => if text = "" then [missing] else []
  | _ => [missing]

theorem map_modeFinding? (entries : Entries) :
    (Mode.ofEntries entries).finding?.toList.map Finding.toIssue = modeIssues entries := by
  unfold Mode.ofEntries Mode.finding? modeIssues
  cases hlookup : Value.lookup entries "mode" with
  | none => rfl
  | some found =>
    cases found with
    | string mode =>
      simp only
      split <;> rfl
    | _ => rfl

theorem map_textFinding? (entries : Entries) (key : String) :
    (textFinding? entries key).toList.map Finding.toIssue = fieldIssues entries key := by
  unfold textFinding? text? fieldIssues
  cases hlookup : Value.lookup entries key with
  | none => rfl
  | some found =>
    cases found with
    | string text =>
      simp only
      by_cases hempty : text = ""
      · simp only [hempty, if_true]
        rfl
      · simp only [hempty, if_false]
        rfl
    | _ => rfl

theorem map_headFindings (entries : Entries) :
    (headFindings entries).map Finding.toIssue =
      modeIssues entries ++ fieldIssues entries "scenario" ++ fieldIssues entries "source" := by
  unfold headFindings
  rw [List.map_append, List.map_append, map_modeFinding?, map_textFinding?, map_textFinding?]

/-- A document with a list under `events` is no manifest. -/
theorem isManifest_eq_false {entries : Entries} {events : List Value}
    (hevents : (Value.lookup entries "events").bind Value.asSequence? = some events) :
    isManifest entries = false := by
  unfold isManifest
  cases hlookup : Value.lookup entries "events" with
  | none => simp [hlookup] at hevents
  | some found => rfl

theorem events?_eq_some_iff {entries : Entries} {events : List Value} :
    events? entries = some events ↔
      (Value.lookup entries "events").bind Value.asSequence? = some events ∧ events ≠ [] := by
  unfold events?
  rw [Option.filter_eq_some_iff]
  simp

/-- The issues of a document with events are those of the history, in order and word for
word: those on its own fields, and then those on each event from the events in front of
it. -/
theorem validate_eq_history {document : Value} {entries : Entries} {events : List Value}
    (hroot : document.asMapping? = some entries)
    (hevents : (Value.lookup entries "events").bind Value.asSequence? = some events)
    (hne : events ≠ []) :
    validate document =
      .checked (modeIssues entries ++ fieldIssues entries "scenario"
        ++ fieldIssues entries "source" ++ historyIssues events) := by
  have hsome : events? entries = some events := events?_eq_some_iff.mpr ⟨hevents, hne⟩
  unfold validate findings?
  rw [hroot]
  simp only [isManifest_eq_false hevents, hsome, Bool.false_eq_true, if_false, List.map_append,
    map_headFindings, map_eventFindings_start]

/-- Events with every fault that there is, values of all types in the wrong places,
and some that are sound. -/
def faultyEvents : List Value :=
  [.mapping [(.string "event_id", .string "a"),
      (.string "ts_ms", .integer ⟨10, by decide, by decide⟩),
      (.string "depends_on", .sequence [.string "b", .string "a", .string "b"])],
    .null,
    .tagged "t" (.mapping [(.string "event_id", .string ""), (.string "ts_ms", .string "5"),
      (.string "depends_on", .integer ⟨7, by decide, by decide⟩)]),
    .mapping [(.string "event_id", .string "a"),
      (.string "ts_ms", .integer ⟨5, by decide, by decide⟩),
      (.string "depends_on", .sequence [.tagged "t" (.string "a"), .bool true])],
    .sequence [],
    .mapping [(.string "event_id", .string "b"), (.string "ts_ms", .real .notANumber),
      (.string "depends_on", .null)],
    .mapping [(.string "event_id", .string "a"),
      (.string "ts_ms", .integer ⟨-3, by decide, by decide⟩),
      (.string "depends_on", .sequence [.string "a", .string "c", .string "b"])],
    .tagged "t" (.string "a"),
    .mapping [(.string "event_id", .string "c"), (.string "depends_on", .mapping [])]]

/-- The issues on two documents with these events, one without its own fields. -/
theorem validate_of_faultyEvents :
    validate (.tagged "replay" (.mapping
        [(.string "mode", .tagged "t" (.string "replay")), (.string "scenario", .string ""),
          (.string "events", .tagged "t" (.sequence faultyEvents))])) =
      .checked
        [⟨.schema, "unsupported mode tagged value"⟩,
          ⟨.schema, "document must define a non-empty string 'scenario'"⟩,
          ⟨.schema, "document must define a non-empty string 'source'"⟩,
          ⟨.order, "event 'a' depends on events not seen earlier: b, a, b"⟩,
          ⟨.schema, "events[1] must be a mapping, found null"⟩,
          ⟨.schema, "events[2] must define a non-empty string 'event_id'"⟩,
          ⟨.schema, "events[2] has non-integer 'ts_ms' (string)"⟩,
          ⟨.schema, "events[2] has malformed 'depends_on': expected a list of strings, found "
            ++ "integer"⟩,
          ⟨.schema, "duplicate event_id 'a' at events[3] (first defined at events[0])"⟩,
          ⟨.schema, "event 'a' has malformed 'depends_on': expected a list of strings, found "
            ++ "boolean item"⟩,
          ⟨.order, "event 'a' has ts_ms 5 earlier than previous ts_ms 10;"
            ++ " timestamps must be non-decreasing"⟩,
          ⟨.schema, "events[4] must be a mapping, found list"⟩,
          ⟨.schema, "event 'b' has non-integer 'ts_ms' (float)"⟩,
          ⟨.schema, "duplicate event_id 'a' at events[6] (first defined at events[0])"⟩,
          ⟨.order, "event 'a' depends on events not seen earlier: c"⟩,
          ⟨.order, "event 'a' has ts_ms -3 earlier than previous ts_ms 5;"
            ++ " timestamps must be non-decreasing"⟩,
          ⟨.schema, "events[7] must be a mapping, found tagged value"⟩,
          ⟨.schema, "event 'c' must define an integer 'ts_ms'"⟩,
          ⟨.schema, "event 'c' has malformed 'depends_on': expected a list of strings, found "
            ++ "mapping"⟩] ∧
      validate (.mapping
        [(.string "mode", .string "live"), (.string "scenario", .string "fuzz"),
          (.string "source", .string "recorder"),
          (.string "events", .sequence [.bool true])]) =
        .checked
          [⟨.schema, "unsupported mode 'live'"⟩,
            ⟨.schema, "events[0] must be a mapping, found boolean"⟩] :=
  ⟨Eq.trans (validate_eq_history rfl rfl (List.cons_ne_nil _ _)) (by rfl),
    Eq.trans (validate_eq_history rfl rfl (List.cons_ne_nil _ _)) (by rfl)⟩

end GoldenFixtures.Replay
