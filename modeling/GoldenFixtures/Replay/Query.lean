import GoldenFixtures.Replay.Document

/-!
# Queries to the order checks

The ids and the last time may be asked for and added to one by one, in any
order.  `Progress.answer` answers one query and `Progress.answers` a run of
them, each with what is known after those in front of it.
-/

namespace GoldenFixtures.Replay

/-- What is asked of the order checks. -/
inductive Query where
  /-- A time is observed. -/
  | observe (label : String) (time : Int)
  /-- An id is recorded at its place.  Was it recorded for the first time? -/
  | record (id : String) (index : Nat)
  /-- Was an id recorded? -/
  | contains (id : String)
  /-- Where was an id recorded? -/
  | indexOf (id : String)
  /-- Were all dependencies recorded? -/
  | check (label : String) (dependencies : List String)
  deriving DecidableEq, Repr

/-- The answer to a query. -/
inductive Reply where
  | issue (issue? : Option Issue)
  | flag (flag : Bool)
  | index (index? : Option Nat)
  deriving DecidableEq, Repr

namespace Progress

/-- Answers a query, and what is known after it. -/
def answer (progress : Progress) : Query → Reply × Progress
  | .observe label time =>
    (.issue ((progress.clock.finding? label time).map Finding.toIssue),
      { progress with clock := progress.clock.observe time })
  | .record id index =>
    (.flag (!progress.seen.contains id), { progress with seen := progress.seen.record id index })
  | .contains id => (.flag (progress.seen.contains id), progress)
  | .indexOf id => (.index (progress.seen.indexOf? id), progress)
  | .check label dependencies =>
    (.issue ((progress.seen.finding? label dependencies).map Finding.toIssue), progress)

/-- Answers queries in order. -/
def answers (progress : Progress) : List Query → List Reply
  | [] => []
  | query :: queries => (progress.answer query).1 :: (progress.answer query).2.answers queries

end Progress

end GoldenFixtures.Replay
