import GoldenFixtures.Command.Settings

/-!
# The log

A tool logs what it does as a sequence of `Record`s.  They go to its error output, by
way of a `Library` that is not part of the tools: it decides by a filter which records
are printed, and how a line looks, which has the time of day in it.  The filter is that
of a variable of its own or, if there is none that can be read, the level of the settings.
`Library.print` is what comes of a sequence of records.
-/

namespace GoldenFixtures.Command.Log

/-- How much a record matters. -/
inductive Level where
  | info
  | debug
  deriving DecidableEq, Repr

/-- What stands under a key of a record. -/
inductive Field where
  | text (text : String)
  | number (number : Nat)
  | flag (flag : Bool)
  deriving DecidableEq, Repr

/-- What is logged at one point of a program; the target is the module that logs it. -/
structure Record where
  level : Level
  target : String
  message : String
  fields : List (String × Field)
  deriving DecidableEq, Repr

/-- What prints records in one run of a program. -/
structure Library (Filter : Type) where
  /-- The filter that a text describes, if it does without a mistake. -/
  filter? : String → Option Filter
  /-- The filter that a text describes, and what is printed about the mistakes in it. -/
  filter : String → Filter × String
  /-- What is printed for a record, with so many records in front of it.  It is empty if
  the filter leaves the record out. -/
  line : Filter → LogFormat → (place : Nat) → Record → String

/-- The variable of the filter. -/
def filterVariable : String := "RUST_LOG"

namespace Library

variable {Filter : Type}

/-- The filter of a run, and what is printed about mistakes in it. -/
def start (library : Library Filter) (environment : Environment) (settings : Settings) :
    Filter × String :=
  match (environment filterVariable).bind library.filter? with
  | some filter => (filter, "")
  | none => library.filter settings.logLevel

/-- What is printed for records with so many others in front of them. -/
def lines (library : Library Filter) (filter : Filter) (format : LogFormat) :
    (place : Nat) → List Record → String
  | _, [] => ""
  | place, record :: records =>
    library.line filter format place record ++ lines library filter format (place + 1) records

/-- What is printed for the records of a run. -/
def print (library : Library Filter) (environment : Environment) (settings : Settings)
    (records : List Record) : String :=
  let (filter, mistakes) := library.start environment settings
  mistakes ++ library.lines filter settings.logFormat 0 records

end Library

end GoldenFixtures.Command.Log
