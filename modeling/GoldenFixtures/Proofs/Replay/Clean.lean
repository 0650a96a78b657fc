import Mathlib.Data.List.Forall2
import Mathlib.Data.List.Induction
import GoldenFixtures.Proofs.Replay.History

/-!
# Clean documents

`IsClean` says what a document without issues is, without any reference to how
it is checked: its own fields are sound, every event is a mapping with an id, a
time and dependencies, and the events stand in an `IsReplayOrder`, which speaks
of all pairs of events and of all dependencies at once.

The scan remembers a single time and compares it with the next one.  The step
from there to all pairs is `isReplayOrder_append_singleton`: an event may be put
behind an order exactly if it is sound against all events of the order.
-/

namespace GoldenFixtures.Replay

open Yaml (Value)

/-! ## What a clean document is -/

/-- The entry under a key is absent or null. -/
def IsUnset (entries : Entries) (key : String) : Prop :=
  Value.lookup entries key = none ∨ Value.lookup entries key = some .null

/-- The entry under a key is a string without a tag, and not the empty one. -/
def HasText (entries : Entries) (key text : String) : Prop :=
  Value.lookup entries key = some (.string text) ∧ text ≠ ""

/-- The entry under a key is an integer without a tag. -/
def HasInteger (entries : Entries) (key : String) (value : Int) : Prop :=
  ∃ integer, Value.lookup entries key = some (.integer integer) ∧ integer.value = value

/-- The entry under `depends_on` names these ids: it is unset and there are
none, or it is a list without a tag whose items all read as strings. -/
def DependsOn (entries : Entries) (ids : List String) : Prop :=
  IsUnset entries "depends_on" ∧ ids = [] ∨
    ∃ items, Value.lookup entries "depends_on" = some (.sequence items) ∧
      items.map Value.asString? = ids.map some

/-- What a sound event says. -/
structure Occurrence where
  id : String
  time : Int
  dependencies : List String
  deriving DecidableEq, Repr

/-- A value reads as a mapping that describes a sound event. -/
def Describes (value : Value) (event : Occurrence) : Prop :=
  ∃ entries, value.asMapping? = some entries ∧
    HasText entries "event_id" event.id ∧
    HasInteger entries "ts_ms" event.time ∧
    DependsOn entries event.dependencies

/-- The events stand in a topological order of their dependencies that is
sorted by time. -/
structure IsReplayOrder (events : List Occurrence) : Prop where
  ids_distinct : events.Pairwise fun a b => a.id ≠ b.id
  times_sorted : events.Pairwise fun a b => a.time ≤ b.time
  dependencies_earlier : ∀ (i : Nat) (event : Occurrence), events[i]? = some event →
    ∀ id ∈ event.dependencies, ∃ (j : Nat) (source : Occurrence),
      j < i ∧ events[j]? = some source ∧ source.id = id

/-- The document's own fields are sound, and its events are sound and in
order. -/
def IsClean (document : Value) : Prop :=
  ∃ entries list values events,
    document.asMapping? = some entries ∧
    (IsUnset entries "mode" ∨ Value.lookup entries "mode" = some (.string "replay")) ∧
    (∃ scenario, HasText entries "scenario" scenario) ∧
    (∃ source, HasText entries "source" source) ∧
    Value.lookup entries "events" = some list ∧
    list.asSequence? = some values ∧
    values ≠ [] ∧
    List.Forall₂ Describes values events ∧
    IsReplayOrder events

/-! ## The fields -/

theorem modeIssues_eq_nil_iff {entries : Entries} :
    modeIssues entries = [] ↔
      IsUnset entries "mode" ∨ Value.lookup entries "mode" = some (.string "replay") := by
  unfold modeIssues IsUnset
  cases hlookup : Value.lookup entries "mode" with
  | none => simp
  | some found => cases found <;> simp

theorem fieldIssues_eq_nil_iff {entries : Entries} {key : String} :
    fieldIssues entries key = [] ↔ ∃ text, HasText entries key text := by
  unfold fieldIssues HasText
  cases hlookup : Value.lookup entries key with
  | none => simp
  | some found => cases found <;> simp

theorem integerIssues_eq_nil_iff {entries : Entries} {label : String} :
    integerIssues label entries = [] ↔ ∃ time, HasInteger entries "ts_ms" time := by
  unfold integerIssues HasInteger
  cases hlookup : Value.lookup entries "ts_ms" with
  | none => simp
  | some found => cases found <;> simp

theorem map_asString?_of_forall {items : List Value}
    (hitems : ∀ item ∈ items, item.asString?.isSome) :
    items.map Value.asString? = (items.filterMap Value.asString?).map some := by
  induction items with
  | nil => rfl
  | cons item items ih =>
    obtain ⟨text, htext⟩ := Option.isSome_iff_exists.mp (hitems item (by simp))
    have hrest := ih fun other hother => hitems other (by simp [hother])
    simp [htext, hrest]

theorem filterMap_asString?_of_map {items : List Value} {ids : List String}
    (hitems : items.map Value.asString? = ids.map some) :
    items.filterMap Value.asString? = ids := by
  have hmap : items.filterMap Value.asString? = (items.map Value.asString?).filterMap id := by
    rw [List.filterMap_map, Function.id_comp]
  rw [hmap, hitems, List.filterMap_map]
  simp

/-- The dependencies raise no issue exactly if they are ids that were seen; an item that is
no string stands in the way of any list of ids. -/
theorem dependencyIssues_eq_nil_iff {earlier : List Value} {label : String}
    {entries : Entries} :
    dependencyIssues earlier label entries = [] ↔
      ∃ ids, DependsOn entries ids ∧ unseen earlier ids = [] := by
  unfold dependencyIssues DependsOn IsUnset
  cases hlookup : Value.lookup entries "depends_on" with
  | none => simp [unseen]
  | some found =>
    cases found with
    | null => simp [unseen]
    | sequence items =>
      simp only
      cases hfind : items.find? fun item => item.asString?.isNone with
      | some item =>
        have hnone : item.asString? = none := by simpa using List.find?_some hfind
        have hmem : item ∈ items := List.mem_of_find?_eq_some hfind
        simp only [reduceCtorEq, or_self, false_and, false_or, Option.some.injEq,
          Value.sequence.injEq, exists_eq_left', false_iff, not_exists, not_and]
        intro ids hids
        have hnone' : none ∈ ids.map some := by
          rw [← hids, ← hnone]
          exact List.mem_map_of_mem hmem
        simp at hnone'
      | none =>
        have hsome : ∀ item ∈ items, item.asString?.isSome := by
          intro item hitem
          have hstring := List.find?_eq_none.mp hfind item hitem
          exact Option.isSome_iff_ne_none.mpr (by simpa using hstring)
        simp only [reduceCtorEq, or_self, false_and, false_or, Option.some.injEq,
          Value.sequence.injEq, exists_eq_left', Option.toList_eq_nil_iff,
          dependencyIssue?_eq_none_iff]
        constructor
        · intro h
          exact ⟨_, map_asString?_of_forall hsome, h⟩
        · rintro ⟨ids, hids, hunseen⟩
          rw [filterMap_asString?_of_map hids, hunseen]
    | _ => simp

/-! ## One event behind others -/

theorem eventId?_of_describes {value : Value} {event : Occurrence}
    (h : Describes value event) : eventId? value = some event.id := by
  obtain ⟨entries, hmapping, htext, _, _⟩ := h
  unfold eventId?
  rw [hmapping, Option.bind_some]
  exact text?_eq_some_iff.mpr htext

theorem eventTime?_of_describes {value : Value} {event : Occurrence}
    (h : Describes value event) : eventTime? value = some event.time := by
  obtain ⟨entries, hmapping, _, ⟨integer, hlookup, htime⟩, _⟩ := h
  unfold eventTime?
  rw [hmapping, Option.bind_some, hlookup]
  exact congrArg some htime

theorem idIssues_eq_nil_iff {earlier : List Value} {value : Value} :
    idIssues earlier value = [] ↔
      ∃ id, eventId? value = some id ∧ firstPlace? earlier id = none := by
  unfold idIssues
  cases eventId? value with
  | none => simp
  | some id =>
    cases hfirst : firstPlace? earlier id with
    | none => simp [hfirst]
    | some first => simp [hfirst]

theorem orderIssues_eq_nil_iff {earlier : List Value} {label : String} {value : Value}
    {time : Int} (htime : eventTime? value = some time) :
    orderIssues earlier label value = [] ↔
      ∀ previous, lastTime? earlier = some previous → previous ≤ time := by
  unfold orderIssues
  rw [htime]
  simp

/-- Nothing is found on a value exactly if it describes an event that is sound
against what the history tells. -/
theorem issuesBehind_eq_nil_iff {earlier : List Value} {value : Value} :
    issuesBehind earlier value = [] ↔
      ∃ event, Describes value event ∧
        firstPlace? earlier event.id = none ∧
        unseen earlier event.dependencies = [] ∧
        ∀ previous, lastTime? earlier = some previous → previous ≤ event.time := by
  constructor
  · intro h
    unfold issuesBehind at h
    cases hmapping : value.asMapping? with
    | none => simp [hmapping] at h
    | some entries =>
      simp only [hmapping, List.append_eq_nil_iff] at h
      obtain ⟨⟨⟨hid, htime⟩, hdependencies⟩, horder⟩ := h
      obtain ⟨id, hown, hfirst⟩ := idIssues_eq_nil_iff.mp hid
      obtain ⟨time, hhasTime⟩ := integerIssues_eq_nil_iff.mp htime
      obtain ⟨ids, hids, hunseen⟩ := dependencyIssues_eq_nil_iff.mp hdependencies
      have htext : HasText entries "event_id" id := by
        unfold eventId? at hown
        rw [hmapping, Option.bind_some] at hown
        exact text?_eq_some_iff.mp hown
      have hdescribes : Describes value ⟨id, time, ids⟩ :=
        ⟨entries, hmapping, htext, hhasTime, hids⟩
      exact ⟨⟨id, time, ids⟩, hdescribes, hfirst, hunseen,
        (orderIssues_eq_nil_iff (eventTime?_of_describes hdescribes)).mp horder⟩
  · rintro ⟨event, hdescribes, hfirst, hunseen, horder⟩
    have hown := eventId?_of_describes hdescribes
    have htime := eventTime?_of_describes hdescribes
    obtain ⟨entries, hmapping, _, hinteger, hdependencies⟩ := hdescribes
    unfold issuesBehind
    simp only [hmapping, List.append_eq_nil_iff]
    exact ⟨⟨⟨idIssues_eq_nil_iff.mpr ⟨_, hown, hfirst⟩,
      integerIssues_eq_nil_iff.mpr ⟨_, hinteger⟩⟩,
      dependencyIssues_eq_nil_iff.mpr ⟨_, hdependencies, hunseen⟩⟩,
      (orderIssues_eq_nil_iff htime).mpr horder⟩

/-! ## All events -/

section

variable {earlier : List Value} {events : List Occurrence}

theorem exists_eventId?_iff (h : List.Forall₂ Describes earlier events) (id : String) :
    (∃ value ∈ earlier, eventId? value = some id) ↔ ∃ event ∈ events, event.id = id := by
  induction h with
  | nil => simp
  | cons hhead _ ih =>
    rw [List.exists_mem_cons_iff, List.exists_mem_cons_iff, ih, eventId?_of_describes hhead,
      Option.some.injEq]

theorem firstPlace?_eq_none_iff (h : List.Forall₂ Describes earlier events) (id : String) :
    firstPlace? earlier id = none ↔ ∀ event ∈ events, event.id ≠ id := by
  have hexists := not_congr (exists_eventId?_iff h id)
  unfold firstPlace?
  rw [List.findIdx?_eq_none_iff]
  simpa using hexists

theorem unseen_eq_nil_iff (h : List.Forall₂ Describes earlier events) (ids : List String) :
    unseen earlier ids = [] ↔ ∀ id ∈ ids, ∃ event ∈ events, event.id = id := by
  unfold unseen
  rw [List.filter_eq_nil_iff]
  refine forall₂_congr fun id _ => ?_
  rw [← exists_eventId?_iff h id]
  simp

theorem lastTime?_eq (h : List.Forall₂ Describes earlier events) :
    lastTime? earlier = events.getLast?.map Occurrence.time := by
  have hreverse : List.Forall₂ Describes earlier.reverse events.reverse :=
    List.forall₂_reverse_iff.mpr h
  unfold lastTime?
  rw [← List.head?_reverse]
  generalize earlier.reverse = backwards at hreverse ⊢
  generalize events.reverse = eventsBackwards at hreverse ⊢
  cases hreverse with
  | nil => rfl
  | cons hhead _ => rw [List.findSome?_cons, eventTime?_of_describes hhead]; rfl

/-- In a sorted order, what is not before the last event is before none. -/
theorem forall_time_le_iff (hsorted : events.Pairwise fun a b => a.time ≤ b.time) (time : Int) :
    (∀ previous, events.getLast?.map Occurrence.time = some previous → previous ≤ time) ↔
      ∀ event ∈ events, event.time ≤ time := by
  induction events using List.reverseRecOn with
  | nil => simp
  | append_singleton events last _ =>
    have hbefore : ∀ event ∈ events, event.time ≤ last.time := by
      intro event hevent
      exact (List.pairwise_append.mp hsorted).2.2 event hevent last (by simp)
    simp only [List.getLast?_append, List.getLast?_singleton, Option.some_or, Option.map_some,
      Option.some.injEq, forall_eq', List.mem_append, List.mem_singleton]
    constructor
    · rintro hlast event (hevent | rfl)
      · exact Int.le_trans (hbefore event hevent) hlast
      · exact hlast
    · intro hall
      exact hall last (Or.inr rfl)

/-- The events in front of a place are the same with one more event behind. -/
theorem exists_earlier_append_singleton_iff {event : Occurrence} {i : Nat}
    (hi : i ≤ events.length) (id : String) :
    (∃ (j : Nat) (source : Occurrence), j < i ∧ (events ++ [event])[j]? = some source ∧
        source.id = id) ↔
      ∃ (j : Nat) (source : Occurrence), j < i ∧ events[j]? = some source ∧ source.id = id := by
  refine exists_congr fun j => exists_congr fun source => and_congr_right fun hj => ?_
  rw [List.getElem?_append_left (Nat.lt_of_lt_of_le hj hi)]

theorem exists_earlier_length_iff (id : String) :
    (∃ (j : Nat) (source : Occurrence), j < events.length ∧ events[j]? = some source ∧
        source.id = id) ↔ ∃ source ∈ events, source.id = id := by
  constructor
  · rintro ⟨j, source, _, hsource, hid⟩
    exact ⟨source, List.mem_of_getElem? hsource, hid⟩
  · rintro ⟨source, hsource, hid⟩
    obtain ⟨j, hj, hget⟩ := List.mem_iff_getElem.mp hsource
    exact ⟨j, source, hj, by rw [List.getElem?_eq_getElem hj, hget], hid⟩

/-- An event may be put behind an order exactly if its id is new, its time is
before none and its dependencies are among the events of the order. -/
theorem isReplayOrder_append_singleton {event : Occurrence} :
    IsReplayOrder (events ++ [event]) ↔
      IsReplayOrder events ∧
        (∀ other ∈ events, other.id ≠ event.id) ∧
        (∀ other ∈ events, other.time ≤ event.time) ∧
        ∀ id ∈ event.dependencies, ∃ other ∈ events, other.id = id := by
  have hlast : (events ++ [event])[events.length]? = some event := by simp
  constructor
  · rintro ⟨hids, htimes, hearlier⟩
    rw [List.pairwise_append] at hids htimes
    refine ⟨⟨hids.1, htimes.1, ?_⟩, ?_, ?_, ?_⟩
    · intro i inner hinner id hid
      have hi : i < events.length := (List.getElem?_eq_some_iff.mp hinner).1
      rw [← List.getElem?_append_left hi] at hinner
      exact (exists_earlier_append_singleton_iff (Nat.le_of_lt hi) id).mp
        (hearlier i inner hinner id hid)
    · intro other hother
      exact hids.2.2 other hother event (by simp)
    · intro other hother
      exact htimes.2.2 other hother event (by simp)
    · intro id hid
      exact (exists_earlier_length_iff id).mp
        ((exists_earlier_append_singleton_iff (Nat.le_refl _) id).mp
          (hearlier events.length event hlast id hid))
  · rintro ⟨⟨hids, htimes, hearlier⟩, hnew, hlater, hdependencies⟩
    refine ⟨?_, ?_, ?_⟩
    · rw [List.pairwise_append]
      exact ⟨hids, List.pairwise_singleton _ _, by simpa using hnew⟩
    · rw [List.pairwise_append]
      exact ⟨htimes, List.pairwise_singleton _ _, by simpa using hlater⟩
    · intro i inner hinner id hid
      have hbound : i < (events ++ [event]).length := (List.getElem?_eq_some_iff.mp hinner).1
      rw [List.length_append, List.length_singleton] at hbound
      rw [exists_earlier_append_singleton_iff (by omega) id]
      by_cases hi : i < events.length
      · rw [List.getElem?_append_left hi] at hinner
        exact hearlier i inner hinner id hid
      · obtain rfl : i = events.length := by omega
        obtain rfl : event = inner := Option.some.inj (hlast.symm.trans hinner)
        exact (exists_earlier_length_iff id).mpr (hdependencies id hid)

/-- Behind events that are in order, nothing is found on a value exactly if it
describes an event that may be put behind them. -/
theorem issuesBehind_eq_nil_iff_of_order {value : Value}
    (h : List.Forall₂ Describes earlier events) (horder : IsReplayOrder events) :
    issuesBehind earlier value = [] ↔
      ∃ event, Describes value event ∧ IsReplayOrder (events ++ [event]) := by
  rw [issuesBehind_eq_nil_iff]
  refine exists_congr fun event => and_congr_right fun _ => ?_
  rw [isReplayOrder_append_singleton, firstPlace?_eq_none_iff h, unseen_eq_nil_iff h,
    lastTime?_eq h, forall_time_le_iff horder.times_sorted]
  tauto

end

theorem isReplayOrder_nil : IsReplayOrder [] :=
  ⟨List.Pairwise.nil, List.Pairwise.nil, fun _ _ h => by simp at h⟩

theorem historyIssues_append_singleton (values : List Value) (value : Value) :
    historyIssues (values ++ [value]) =
      historyIssues values ++ issuesBehind values value := by
  have hfront : ∀ event ∈ values.zipIdx,
      issuesBehind ((values ++ [value]).take event.2) event.1 =
        issuesBehind (values.take event.2) event.1 := by
    intro event hevent
    have hplace := (List.mem_zipIdx' hevent).1
    rw [List.take_append_of_le_length (Nat.le_of_lt hplace)]
  unfold historyIssues
  rw [List.zipIdx_append, List.flatMap_append, List.flatMap_congr hfront]
  simp

theorem forall₂_append_singleton_left {values : List Value} {value : Value}
    {events : List Occurrence} :
    List.Forall₂ Describes (values ++ [value]) events ↔
      ∃ front event, events = front ++ [event] ∧
        List.Forall₂ Describes values front ∧ Describes value event := by
  rw [← List.forall₂_reverse_iff, List.reverse_append, List.reverse_singleton,
    List.singleton_append, List.forall₂_cons_left_iff]
  constructor
  · rintro ⟨event, back, hevent, hback, hreverse⟩
    refine ⟨back.reverse, event, ?_, ?_, hevent⟩
    · rw [← List.reverse_reverse events, hreverse, List.reverse_cons]
    · rw [← List.forall₂_reverse_iff, List.reverse_reverse]
      exact hback
  · rintro ⟨front, event, rfl, hfront, hevent⟩
    exact ⟨event, front.reverse, hevent, List.forall₂_reverse_iff.mpr hfront, by simp⟩

/-- Nothing is found on the events exactly if they are sound and in order. -/
theorem historyIssues_eq_nil_iff {values : List Value} :
    historyIssues values = [] ↔
      ∃ events, List.Forall₂ Describes values events ∧ IsReplayOrder events := by
  induction values using List.reverseRecOn with
  | nil =>
    constructor
    · intro _
      exact ⟨[], List.Forall₂.nil, isReplayOrder_nil⟩
    · intro _
      rfl
  | append_singleton values value ih =>
    rw [historyIssues_append_singleton, List.append_eq_nil_iff, ih]
    constructor
    · rintro ⟨⟨events, hevents, horder⟩, hlast⟩
      obtain ⟨event, hevent, horder'⟩ :=
        (issuesBehind_eq_nil_iff_of_order hevents horder).mp hlast
      exact ⟨events ++ [event],
        forall₂_append_singleton_left.mpr ⟨events, event, rfl, hevents, hevent⟩, horder'⟩
    · rintro ⟨all, hall, horder⟩
      obtain ⟨events, event, rfl, hevents, hevent⟩ := forall₂_append_singleton_left.mp hall
      have hfront : IsReplayOrder events := (isReplayOrder_append_singleton.mp horder).1
      exact ⟨⟨events, hevents, hfront⟩,
        (issuesBehind_eq_nil_iff_of_order hevents hfront).mpr ⟨event, hevent, horder⟩⟩

/-! ## Documents -/

theorem validate_eq_checked_nil {document : Value} :
    validate document = .checked [] ↔ findings? document = some [] := by
  unfold validate
  cases findings? document with
  | none => simp
  | some findings => simp

/-- A document without issues has events. -/
theorem exists_events_of_checked_nil {document : Value} (h : validate document = .checked []) :
    ∃ entries values, document.asMapping? = some entries ∧
      (Value.lookup entries "events").bind Value.asSequence? = some values ∧ values ≠ [] := by
  have hfindings := validate_eq_checked_nil.mp h
  unfold findings? at hfindings
  cases hroot : document.asMapping? with
  | none => simp [hroot] at hfindings
  | some entries =>
    simp only [hroot] at hfindings
    split at hfindings
    · exact nomatch hfindings
    · cases hevents : events? entries with
      | none => simp [hevents] at hfindings
      | some values =>
        obtain ⟨hsequence, hne⟩ := events?_eq_some_iff.mp hevents
        exact ⟨entries, values, rfl, hsequence, hne⟩

/-- Checking a document gives no issue exactly if it is clean. -/
theorem validate_eq_checked_nil_iff_isClean (document : Value) :
    validate document = .checked [] ↔ IsClean document := by
  constructor
  · intro h
    obtain ⟨entries, values, hroot, hsequence, hne⟩ := exists_events_of_checked_nil h
    rw [validate_eq_history hroot hsequence hne] at h
    simp only [Outcome.checked.injEq, List.append_eq_nil_iff] at h
    obtain ⟨⟨⟨hmode, hscenario⟩, hsource⟩, hhistory⟩ := h
    obtain ⟨list, hlist, hvalues⟩ := Option.bind_eq_some_iff.mp hsequence
    obtain ⟨events, hdescribes, horder⟩ := historyIssues_eq_nil_iff.mp hhistory
    exact ⟨entries, list, values, events, hroot, modeIssues_eq_nil_iff.mp hmode,
      fieldIssues_eq_nil_iff.mp hscenario, fieldIssues_eq_nil_iff.mp hsource, hlist,
      hvalues, hne, hdescribes, horder⟩
  · rintro ⟨entries, list, values, events, hroot, hmode, hscenario, hsource, hlist, hvalues,
      hne, hdescribes, horder⟩
    have hsequence : (Value.lookup entries "events").bind Value.asSequence? = some values := by
      rw [hlist, Option.bind_some, hvalues]
    rw [validate_eq_history hroot hsequence hne, modeIssues_eq_nil_iff.mpr hmode,
      fieldIssues_eq_nil_iff.mpr hscenario, fieldIssues_eq_nil_iff.mpr hsource,
      historyIssues_eq_nil_iff.mpr ⟨events, hdescribes, horder⟩]
    rfl

end GoldenFixtures.Replay
