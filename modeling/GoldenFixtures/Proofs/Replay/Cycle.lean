import Mathlib
import GoldenFixtures.Command.VerifyEventOrder
import GoldenFixtures.Proofs.Replay.Candidates
import GoldenFixtures.Proofs.Replay.Clean
import GoldenFixtures.Proofs.Replay.Verify

/-!
# Events that depend on each other in a circle

The check of a document walks over its events once and never looks at the graph of
their dependencies.  It still finds every circle in that graph, of any length and
wherever its events lie: one of them lies at the least place, so the event that it
depends on lies at the same place or behind it (`IsCycle.exists_le`), and that was not
seen when the first one was checked (`exists_unseen_of_needs`).

Only the ids have to be distinct.  If an id is given twice, an event may depend on the
one in front, and the circle is none.
-/

namespace GoldenFixtures.Replay

open Yaml (Value)

/-! ## Circles -/

/-- The id of the event at a place, if it has a valid one. -/
def idAt? (events : List Value) (place : Nat) : Option String :=
  events[place]?.bind eventId?

/-- The event at a place has a list of ids that it depends on, and the id of the event
at another place is in it. -/
def NeedsAt (events : List Value) (place other : Nat) : Prop :=
  ∃ value entries ids id, events[place]? = some value ∧ value.asMapping? = some entries ∧
    DependsOn entries ids ∧ idAt? events other = some id ∧ id ∈ ids

/-- Of the events at so many places each depends on the next one, and the last one on
the first. -/
structure IsCycle (events : List Value) (count : Nat) (places : Nat → Nat) : Prop where
  count_pos : 0 < count
  needs : ∀ i < count, NeedsAt events (places i) (places ((i + 1) % count))

namespace IsCycle

variable {events : List Value} {count : Nat} {places : Nat → Nat}

/-- Each event of a circle has an id, for the one in front of it depends on that. -/
theorem exists_idAt (h : IsCycle events count places) {i : Nat} (hi : i < count) :
    ∃ id, idAt? events (places i) = some id := by
  have hprevious : ∃ j < count, (j + 1) % count = i := by
    cases i with
    | zero =>
      refine ⟨count - 1, by omega, ?_⟩
      rw [Nat.sub_add_cancel h.count_pos, Nat.mod_self]
    | succ i => exact ⟨i, by omega, Nat.mod_eq_of_lt hi⟩
  obtain ⟨j, hj, hnext⟩ := hprevious
  obtain ⟨_, _, _, id, _, _, _, hid, _⟩ := h.needs j hj
  rw [hnext] at hid
  exact ⟨id, hid⟩

/-- Some event of a circle does not lie behind the one that it depends on. -/
theorem exists_le (h : IsCycle events count places) :
    ∃ i < count, places i ≤ places ((i + 1) % count) := by
  obtain ⟨i, hi, hleast⟩ := Finset.exists_min_image (Finset.range count) places
    ⟨0, Finset.mem_range.mpr h.count_pos⟩
  refine ⟨i, Finset.mem_range.mp hi, hleast _ ?_⟩
  exact Finset.mem_range.mpr (Nat.mod_lt _ h.count_pos)

end IsCycle

/-! ## Dependencies on later events -/

section

variable {events : List Value} {entries : Entries} {earlier : List Value} {label : String}
  {ids : List String}

theorem dependencyIssues_of_unseen (h : DependsOn entries ids)
    (hunseen : unseen earlier ids ≠ []) :
    dependencyIssues earlier label entries =
      [⟨.order, label ++ " depends on events not seen earlier: "
        ++ ", ".intercalate (unseen earlier ids)⟩] := by
  rcases h with ⟨-, rfl⟩ | ⟨items, hlookup, hitems⟩
  · exact absurd rfl hunseen
  · have hstrings : (items.find? fun item => item.asString?.isNone) = none := by
      rw [List.find?_eq_none]
      intro item hitem
      have hmem : item.asString? ∈ ids.map some := by
        rw [← hitems]
        exact List.mem_map_of_mem hitem
      obtain ⟨id, _, hid⟩ := List.mem_map.mp hmem
      rw [← hid]
      exact Bool.false_ne_true
    unfold dependencyIssues dependencyIssue?
    simp only [hlookup, hstrings, filterMap_asString?_of_map hitems, if_neg hunseen,
      Option.toList_some]

/-- The issues on an event behind those in front of it are among all issues. -/
theorem mem_historyIssues {place : Nat} {value : Value} {issue : Issue}
    (hvalue : events[place]? = some value)
    (h : issue ∈ issuesBehind (events.take place) value) :
    issue ∈ historyIssues events :=
  List.mem_flatMap.mpr ⟨(value, place), List.mk_mem_zipIdx_iff_getElem?.mpr hvalue, h⟩

/-- Of two events with distinct ids, none has the id of the other. -/
theorem idAt?_ne_of_lt (hids : (events.filterMap eventId?).Nodup) {place other : Nat}
    {id : String} (hlt : place < other) (hplace : idAt? events place = some id) :
    idAt? events other ≠ some id := by
  intro hother
  obtain ⟨value, hvalue, hid⟩ := Option.bind_eq_some_iff.mp hplace
  obtain ⟨later, hlater, hsame⟩ := Option.bind_eq_some_iff.mp hother
  obtain ⟨hbound, rfl⟩ := List.getElem?_eq_some_iff.mp hvalue
  obtain ⟨hbound', rfl⟩ := List.getElem?_eq_some_iff.mp hlater
  have hpairs := List.pairwise_filterMap.mp hids
  exact List.pairwise_iff_getElem.mp hpairs place other hbound hbound' hlt id hid id hsame rfl

/-- An event that depends on one which does not lie in front of it has the issue that it
depends on what was not seen. -/
theorem exists_unseen_of_needs (hids : (events.filterMap eventId?).Nodup) {place other : Nat}
    {id : String} (hid : idAt? events place = some id) (h : NeedsAt events place other)
    (hle : place ≤ other) :
    ∃ next missing, idAt? events other = some next ∧ next ∈ missing ∧
      ⟨.order, "event '" ++ id ++ "'" ++ " depends on events not seen earlier: " ++
        ", ".intercalate missing⟩ ∈ historyIssues events := by
  obtain ⟨value, entries, ids, next, hvalue, hmapping, hdepends, hnext, hmem⟩ := h
  have hunseen : next ∈ unseen (events.take place) ids := by
    rw [unseen, List.mem_filter, List.all_eq_true]
    refine ⟨hmem, fun earlier hearlier => ?_⟩
    rw [bne_iff_ne]
    intro hsame
    obtain ⟨i, hi, hget⟩ := List.mem_take_iff_getElem.mp hearlier
    have hfront : idAt? events i = some next := by
      unfold idAt?
      rw [List.getElem?_eq_getElem (by omega), Option.bind_some, hget]
      exact hsame
    exact idAt?_ne_of_lt hids (by omega) hfront hnext
  have hlabel : labelBehind (events.take place) value = "event '" ++ id ++ "'" := by
    unfold idAt? at hid
    rw [hvalue, Option.bind_some] at hid
    unfold labelBehind
    rw [hid]
  refine ⟨next, _, hnext, hunseen, mem_historyIssues hvalue ?_⟩
  unfold issuesBehind
  rw [hmapping, ← hlabel]
  simp only [dependencyIssues_of_unseen hdepends (List.ne_nil_of_mem hunseen), List.mem_append,
    List.mem_singleton, true_or, or_true]

end

/-! ## Exit codes -/

/-- An issue about the order of events decides the exit code, for none is worse. -/
theorem Summary.exitCode_eq_three {summary : Summary} {result : Result} {issue : Issue}
    (hresult : result ∈ summary) (hissue : issue ∈ result.issues)
    (horder : issue.severity = .order) : Summary.exitCode summary = 3 := by
  have hle : Summary.exitCode summary ≤ 3 := by
    rw [Summary.exitCode_le_iff, Summary.forall_mem_ranks_iff]
    intro other _ issue _
    cases issue.severity <;> decide
  have hge : 3 ≤ Summary.exitCode summary := by
    have hranks := Summary.forall_mem_ranks_iff.mp
      (Summary.exitCode_le_iff.mp (Nat.le_refl (Summary.exitCode summary)))
    have hrank := hranks result hresult issue hissue
    rw [horder] at hrank
    exact hrank
  exact Nat.le_antisymm hle hge

/-- Some path of a run is, or is the directory of, a file with the document. -/
def Reaches (tree : FileTree) (paths : List Path) (document : Value) : Prop :=
  ∃ path ∈ paths, ∃ file ∈ candidates tree path, load tree file = .ok document

theorem Reaches.exists_mem_verify {tree : FileTree} {paths : List Path} {document : Value}
    (h : Reaches tree paths document) : ∃ file, ⟨file, validate document⟩ ∈ verify tree paths := by
  obtain ⟨path, hpath, file, hfile, hload⟩ := h
  have hresult : verifyFile tree file = ⟨file, validate document⟩ := by
    unfold verifyFile
    rw [hload]
  exact ⟨file, List.mem_flatMap.mpr ⟨path, hpath, List.mem_map.mpr ⟨file, hfile, hresult⟩⟩⟩

/-- **Circles are found.**  Let the ids of the events of a document be distinct, be there
malformed events between them or not.  If some of its events depend on each other in a
circle, then one of these is found to depend on the next one without having seen it,
and every run that comes to the document ends with the exit code for a wrong order. -/
theorem order_issue_of_isCycle {document : Value} {entries : Entries} {events : List Value}
    {count : Nat} {places : Nat → Nat} (hroot : document.asMapping? = some entries)
    (hevents : (Value.lookup entries "events").bind Value.asSequence? = some events)
    (hids : (events.filterMap eventId?).Nodup) (hcycle : IsCycle events count places) :
    (∃ issues, validate document = .checked issues ∧
      ∃ i < count, ∃ id next missing, idAt? events (places i) = some id ∧
        idAt? events (places ((i + 1) % count)) = some next ∧ next ∈ missing ∧
        ⟨.order, "event '" ++ id ++ "'" ++ " depends on events not seen earlier: " ++
          ", ".intercalate missing⟩ ∈ issues) ∧
      (∀ tree paths, Reaches tree paths document →
        Summary.exitCode (verify tree paths) = 3) ∧
      ∀ context settings paths, Command.Settings.read context.environment = .ok settings →
        Reaches context.tree paths document →
        (Command.VerifyEventOrder.run context paths).code = 3 := by
  obtain ⟨i, hi, hle⟩ := hcycle.exists_le
  obtain ⟨id, hid⟩ := hcycle.exists_idAt hi
  obtain ⟨next, missing, hnext, hmissing, hlast⟩ :=
    exists_unseen_of_needs hids hid (hcycle.needs i hi) hle
  have hne : events ≠ [] := by
    rintro rfl
    exact nomatch hid
  have hvalidate := validate_eq_history hroot hevents hne
  have hissue := List.mem_append_right (modeIssues entries ++ fieldIssues entries "scenario"
    ++ fieldIssues entries "source") hlast
  have hcode : ∀ tree paths, Reaches tree paths document →
      Summary.exitCode (verify tree paths) = 3 := by
    intro tree paths hreaches
    obtain ⟨file, hresult⟩ := hreaches.exists_mem_verify
    rw [hvalidate] at hresult
    exact Summary.exitCode_eq_three hresult hissue rfl
  refine ⟨⟨_, hvalidate, i, hi, id, next, missing, hid, hnext, hmissing, hissue⟩, hcode, ?_⟩
  intro context settings paths hsettings hreaches
  unfold Command.VerifyEventOrder.run Command.withSettings
  rw [hsettings]
  exact hcode context.tree paths hreaches

/-- Two events that depend on each other, and between them what is no event. -/
def circularEvents : List Value :=
  [.mapping [(.string "event_id", .string "a"), (.string "depends_on", .sequence [.string "b"])],
    .null,
    .mapping [(.string "event_id", .string "b"), (.string "depends_on", .sequence [.string "a"])]]

/-- The document of these events. -/
def circularDocument : Value := .mapping [(.string "events", .sequence circularEvents)]

/-- The text of the document. -/
def circularText : String :=
  "events: [\x7bevent_id: a, depends_on: [b]\x7d, ~, \x7bevent_id: b, depends_on: [a]\x7d]"

/-- A file with the text, and nothing else. -/
def circularContext : Command.Context where
  tree := { entries := [(["a.yaml"], .file (Text.encode circularText.toList))] }
  environment := fun _ => none
  stdin := []

theorem locate_circularContext : circularContext.tree.locate "a.yaml" =
    .ok (["a.yaml"], .file (Text.encode circularText.toList)) := rfl

theorem read_circularText : Value.read? circularText.toList = some circularDocument := by
  cbv

theorem reaches_circularContext :
    Reaches circularContext.tree ["a.yaml"] circularDocument := by
  have hcandidates : candidates circularContext.tree "a.yaml" = ["a.yaml"] :=
    candidates_of_isDirectory_eq_false rfl
  have hload : load circularContext.tree "a.yaml" = .ok circularDocument := by
    rw [load_of_text locate_circularContext, parse, read_circularText]
  refine ⟨"a.yaml", List.mem_singleton.mpr rfl, "a.yaml", ?_, hload⟩
  rw [hcandidates]
  exact List.mem_singleton.mpr rfl

/-- The event that is not there is no event of the circle. -/
theorem isCycle_circularEvents : IsCycle circularEvents 2 fun i => 2 * i where
  count_pos := by decide
  needs := by
    intro i hi
    interval_cases i
    · exact ⟨_, _, ["b"], "b", rfl, rfl, Or.inr ⟨_, rfl, rfl⟩, rfl, List.mem_singleton.mpr rfl⟩
    · exact ⟨_, _, ["a"], "a", rfl, rfl, Or.inr ⟨_, rfl, rfl⟩, rfl, List.mem_singleton.mpr rfl⟩

/-- The run over the file ends with the exit code for a wrong order. -/
theorem order_issue_of_circularEvents :
    (∃ issues, validate circularDocument = .checked issues ∧
      ∃ i < 2, ∃ id next missing, idAt? circularEvents (2 * i) = some id ∧
        idAt? circularEvents (2 * ((i + 1) % 2)) = some next ∧ next ∈ missing ∧
        ⟨.order, "event '" ++ id ++ "'" ++ " depends on events not seen earlier: " ++
          ", ".intercalate missing⟩ ∈ issues) ∧
      (Command.VerifyEventOrder.run circularContext ["a.yaml"]).code = 3 := by
  have hids : (circularEvents.filterMap eventId?).Nodup := by decide
  have hroot : circularDocument.asMapping? =
      some [(.string "events", .sequence circularEvents)] := rfl
  obtain ⟨hissue, -, hcode⟩ := order_issue_of_isCycle hroot rfl hids isCycle_circularEvents
  exact ⟨hissue, hcode circularContext ⟨"warn", .text⟩ _ rfl reaches_circularContext⟩

end GoldenFixtures.Replay
