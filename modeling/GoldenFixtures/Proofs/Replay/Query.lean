import Mathlib.Data.List.Chain
import GoldenFixtures.Replay.Query
import GoldenFixtures.Proofs.Replay.History

/-!
# Queries answered from their history

The order checks keep a table of ids and one time.  What they answer to a query
is told here from the queries in front of it alone (`told`): from the ids that
these recorded and the times that they observed, all of them.

There are three groups.

* The invariant.  `Progress.Remembers` ties the table and the time to the
  queries; `Progress.Remembers.answer` is its step.
* The run.  `Progress.Remembers.answers_eq` is the induction over the queries.
* The times.  The time to compare with falls back after each violation, so what
  is counted are the descents of neighbours (`length_timeIssues`), and there are
  none of these if and only if all pairs are in order (`descents_eq_zero_iff`).
-/

namespace GoldenFixtures.Replay

/-! ## The history -/

/-- The times that queries observe. -/
def timesOf (queries : List Query) : List Int :=
  queries.filterMap fun
    | .observe _ time => some time
    | _ => none

/-- The ids that queries record, each with the place that is given for it. -/
def recordsOf (queries : List Query) : List (String × Nat) :=
  queries.filterMap fun
    | .record id index => some (id, index)
    | _ => none

/-- The ids that queries record. -/
def idsOf (queries : List Query) : List String := (recordsOf queries).map Prod.fst

/-- The place that was given when an id was recorded for the first time. -/
def placeOf? (queries : List Query) (id : String) : Option Nat :=
  ((recordsOf queries).find? fun record => record.1 = id).map Prod.snd

/-- The answer to a query, told from the queries in front of it. -/
def told (earlier : List Query) : Query → Reply
  | .observe label time => .issue (timeIssue? label time (timesOf earlier).getLast?)
  | .record id _ => .flag (id ∉ idsOf earlier)
  | .contains id => .flag (id ∈ idsOf earlier)
  | .indexOf id => .index (placeOf? earlier id)
  | .check label dependencies =>
    .issue (dependencyIssue? label (dependencies.filter fun id => id ∉ idsOf earlier))

theorem timesOf_append (queries others : List Query) :
    timesOf (queries ++ others) = timesOf queries ++ timesOf others :=
  List.filterMap_append

theorem recordsOf_append (queries others : List Query) :
    recordsOf (queries ++ others) = recordsOf queries ++ recordsOf others :=
  List.filterMap_append

theorem isSome_placeOf? (queries : List Query) (id : String) :
    (placeOf? queries id).isSome = decide (id ∈ idsOf queries) := by
  unfold placeOf? idsOf
  rw [Bool.eq_iff_iff, Option.isSome_map, List.find?_isSome, decide_eq_true_eq, List.mem_map]
  simp only [decide_eq_true_eq]

/-- One more query: what it records counts for an id that was not recorded. -/
theorem placeOf?_append_singleton (queries : List Query) (query : Query) (id : String) :
    placeOf? (queries ++ [query]) id = (placeOf? queries id).or (placeOf? [query] id) := by
  unfold placeOf?
  rw [recordsOf_append, List.find?_append, Option.map_or]

/-! ## The invariant -/

/-- What is known tells of the queries in front where each id was first recorded
and which time was observed last. -/
structure Progress.Remembers (progress : Progress) (earlier : List Query) : Prop where
  places : ∀ id, progress.seen.indexOf? id = placeOf? earlier id
  time : progress.clock.previous = (timesOf earlier).getLast?

namespace Progress.Remembers

variable {progress : Progress} {earlier : List Query}

theorem start : Progress.Remembers {} [] :=
  ⟨fun _ => rfl, rfl⟩

theorem contains_eq (h : progress.Remembers earlier) (id : String) :
    progress.seen.contains id = decide (id ∈ idsOf earlier) := by
  unfold Seen.contains
  rw [h.places, isSome_placeOf?]

/-- The answer to a query is the one that the history tells. -/
theorem reply_eq (h : progress.Remembers earlier) (query : Query) :
    (progress.answer query).1 = told earlier query := by
  cases query with
  | observe label time =>
    simp only [Progress.answer, told, Clock.finding?, timeIssue?, h.time]
    cases (timesOf earlier).getLast? with
    | none => rfl
    | some previous =>
      simp only
      split <;> rfl
  | record id index => simp only [Progress.answer, told, h.contains_eq, decide_not]
  | contains id => simp only [Progress.answer, told, h.contains_eq]
  | indexOf id => simp only [Progress.answer, told, h.places]
  | check label dependencies =>
    simp only [Progress.answer, told, Seen.finding?, dependencyIssue?, h.contains_eq, decide_not]
    cases dependencies.filter fun id => !decide (id ∈ idsOf earlier) with
    | nil => rfl
    | cons id missing => rfl

/-- A query that neither records nor observes changes nothing that is told. -/
theorem keep (h : progress.Remembers earlier) {query : Query} (hrecords : recordsOf [query] = [])
    (htimes : timesOf [query] = []) : progress.Remembers (earlier ++ [query]) := by
  constructor
  · intro id
    rw [placeOf?_append_singleton, h.places, placeOf?, placeOf?, hrecords]
    simp
  · rw [timesOf_append, htimes, List.append_nil, h.time]

/-- One query more in the history. -/
theorem answer (h : progress.Remembers earlier) (query : Query) :
    (progress.answer query).2.Remembers (earlier ++ [query]) := by
  cases query with
  | observe label time =>
    constructor
    · intro id
      rw [placeOf?_append_singleton, ← h.places]
      exact (Option.or_none).symm
    · rw [timesOf_append]
      exact List.getLast?_concat.symm
  | record id index =>
    constructor
    · intro other
      rw [placeOf?_append_singleton, ← h.places]
      simp only [Progress.answer, Seen.indexOf?_record]
      congr 1
      by_cases heq : other = id
      · simp [placeOf?, recordsOf, heq]
      · simp [placeOf?, recordsOf, heq, Ne.symm heq]
    · have hnone : timesOf [Query.record id index] = [] := rfl
      rw [timesOf_append, hnone, List.append_nil]
      exact h.time
  | contains id => exact h.keep rfl rfl
  | indexOf id => exact h.keep rfl rfl
  | check label dependencies => exact h.keep rfl rfl

/-! ## The run -/

/-- The remaining queries are answered as the history tells. -/
theorem answers_eq (h : progress.Remembers earlier) (later : List Query) :
    progress.answers later = (later.zipIdx earlier.length).map fun query =>
      told ((earlier ++ later).take query.2) query.1 := by
  induction later generalizing progress earlier with
  | nil => rfl
  | cons query later ih =>
    have hsplit : earlier ++ query :: later = (earlier ++ [query]) ++ later := by simp
    have hlength : (earlier ++ [query]).length = earlier.length + 1 := by simp
    have hfront : (earlier ++ query :: later).take earlier.length = earlier := by simp
    rw [Progress.answers, h.reply_eq, ih (h.answer query), List.zipIdx_cons, List.map_cons,
      hfront, hsplit, hlength]

end Progress.Remembers

/-! ## The times -/

/-- The issue on a time, if the query observes one. -/
def timeIssueIn? : Query × Reply → Option Issue
  | (.observe _ _, .issue issue?) => issue?
  | _ => none

/-- The issues on times among the answers to queries. -/
def timeIssues (progress : Progress) (queries : List Query) : List Issue :=
  (queries.zip (progress.answers queries)).filterMap timeIssueIn?

/-- The number of times that are less than the one right before. -/
def descents (times : List Int) : Nat :=
  (times.zip times.tail).countP fun pair => pair.2 < pair.1

@[simp] theorem descents_singleton (time : Int) : descents [time] = 0 := rfl

theorem descents_cons_cons (first second : Int) (times : List Int) :
    descents (first :: second :: times) =
      descents (second :: times) + if second < first then 1 else 0 := by
  unfold descents
  rw [List.tail_cons, List.zip_cons_cons, List.countP_cons]
  simp

/-- There is no descent if and only if all pairs are in order. -/
theorem descents_eq_zero_iff (times : List Int) :
    descents times = 0 ↔ times.Pairwise (· ≤ ·) := by
  rw [← List.isChain_iff_pairwise]
  cases times with
  | nil => simp [descents]
  | cons first times =>
    induction times generalizing first with
    | nil => simp
    | cons second times ih =>
      rw [descents_cons_cons, Nat.add_eq_zero_iff, ih, List.isChain_cons_cons, and_comm]
      simp

/-- The issue on a first time, and those on the times behind it. -/
theorem timeIssues_observe (progress : Progress) (label : String) (time : Int)
    (queries : List Query) :
    timeIssues progress (.observe label time :: queries) =
      ((progress.clock.finding? label time).map Finding.toIssue).toList
        ++ timeIssues { progress with clock := progress.clock.observe time } queries := by
  unfold timeIssues
  simp only [Progress.answers, Progress.answer, List.zip_cons_cons, List.filterMap_cons,
    timeIssueIn?]
  cases (progress.clock.finding? label time).map Finding.toIssue with
  | none => rfl
  | some issue => rfl

theorem length_finding? (clock : Clock) (label : String) (time : Int) (times : List Int) :
    ((clock.finding? label time).map Finding.toIssue).toList.length + descents (time :: times) =
      descents (clock.previous.toList ++ time :: times) := by
  unfold Clock.finding?
  cases clock.previous with
  | none => simp
  | some previous =>
    rw [Option.toList_some, List.singleton_append, descents_cons_cons, Nat.add_comm]
    by_cases hless : time < previous
    · simp [hless]
    · simp [hless]

/-- As many issues are raised as there are descents, with the time that was
observed last in front of the others. -/
theorem length_timeIssues (progress : Progress) (queries : List Query) :
    (timeIssues progress queries).length =
      descents (progress.clock.previous.toList ++ timesOf queries) := by
  induction queries generalizing progress with
  | nil => cases progress.clock.previous <;> rfl
  | cons query queries ih =>
    cases query with
    | observe label time =>
      have htimes : timesOf (.observe label time :: queries) = time :: timesOf queries := rfl
      rw [timeIssues_observe, List.length_append, ih, htimes]
      exact length_finding? progress.clock label time (timesOf queries)
    | record id index => exact ih { progress with seen := progress.seen.record id index }
    | contains id => exact ih progress
    | indexOf id => exact ih progress
    | check label dependencies => exact ih progress

/-- Whatever is asked and in whatever order, each answer is the one that the
queries in front of it tell.  No issue is raised on the times if and only if all
pairs of them are in order, and there are as many issues as there are times less
than the one right before. -/
theorem answers_eq_told (queries : List Query) :
    Progress.answers {} queries =
        queries.zipIdx.map (fun query => told (queries.take query.2) query.1) ∧
      (timeIssues {} queries = [] ↔ (timesOf queries).Pairwise (· ≤ ·)) ∧
      (timeIssues {} queries).length = descents (timesOf queries) := by
  have hlength : (timeIssues {} queries).length = descents (timesOf queries) :=
    length_timeIssues {} queries
  refine ⟨Progress.Remembers.start.answers_eq queries, ?_, hlength⟩
  rw [← List.length_eq_zero_iff, hlength, descents_eq_zero_iff]

end GoldenFixtures.Replay
