import GoldenFixtures.Replay.Issue

/-!
# Order checks

`Clock` remembers the last time that was observed and `Seen` the events that
were recorded.  Both are fed in document order.  Neither stops at a violation:
the next time is compared with the last one, whether that one was in order or
not.
-/

namespace GoldenFixtures.Replay

/-- The last time observed, if any. -/
structure Clock where
  previous : Option Int := none
  deriving DecidableEq, Repr

namespace Clock

/-- The finding on a time that is earlier than the last one. -/
def finding? (clock : Clock) (label : String) (time : Int) : Option Finding :=
  match clock.previous with
  | none => none
  | some previous =>
    if time < previous then some (.timeDecreases label time previous) else none

/-- The clock after a time was observed. -/
def observe (_ : Clock) (time : Int) : Clock := ⟨some time⟩

end Clock

/-- The ids recorded so far, each with the place of its first record. -/
structure Seen where
  entries : List (String × Nat) := []
  deriving DecidableEq, Repr

namespace Seen

/-- The place where an id was first recorded. -/
def indexOf? (seen : Seen) (id : String) : Option Nat := seen.entries.lookup id

/-- The id was recorded. -/
def contains (seen : Seen) (id : String) : Bool := (seen.indexOf? id).isSome

/-- Records an id at its place; the first record of an id stays. -/
def record (seen : Seen) (id : String) (index : Nat) : Seen :=
  if seen.contains id then seen else ⟨seen.entries ++ [(id, index)]⟩

/-- The finding on dependencies that were not recorded, in the order in which
they are listed. -/
def finding? (seen : Seen) (label : String) (dependencies : List String) : Option Finding :=
  match dependencies.filter fun id => !seen.contains id with
  | [] => none
  | missing => some (.unseenDependencies label missing)

end Seen

end GoldenFixtures.Replay
