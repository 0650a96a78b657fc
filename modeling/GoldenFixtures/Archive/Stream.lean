import GoldenFixtures.Archive.Record
import GoldenFixtures.FileTree.Error
import GoldenFixtures.Text.Lines
import GoldenFixtures.Text.Utf8

/-!
# Streams of archive records

A stream holds one record on each line that is not blank.  `sanitize` writes
one line for each of them and stops at the first line that cannot be sanitized;
what was written before stays written.
-/

namespace GoldenFixtures.Archive

/-- Why a stream was not read to its end.  Lines are counted from one, blank
ones too. -/
inductive Error where
  | atLine (line : Nat) (problem : Problem)
  | unreadable (error : FileError)
  deriving DecidableEq, Repr

/-- The wording of an error. -/
def Error.message : Error → String
  | atLine line problem => "line " ++ toString line ++ ": " ++ problem.message
  | unreadable error => "i/o error: " ++ error.message

/-- What became of a stream: the records that were written, and what stopped
it if it was not read to its end. -/
structure Run where
  records : List Record
  error? : Option Error
  deriving DecidableEq, Repr

namespace Run

/-- The text that was written. -/
def output (run : Run) : String :=
  String.join (run.records.map fun record => record.toValue.toCompact ++ "\n")

/-- What is told of a run: the number of records that were written, or what
stopped it. -/
def result (run : Run) : Except Error Nat :=
  match run.error? with
  | none => .ok run.records.length
  | some error => .error error

/-- A record that was written before the rest of a stream. -/
def before (record : Option Record) (run : Run) : Run :=
  match record with
  | none => run
  | some record => { run with records := record :: run.records }

end Run

/-- Sanitizes the lines of a stream from the one with a number on. -/
def sanitizeLines (roster : Roster) (number : Nat) : List (List UInt8) → Run
  | [] => ⟨[], none⟩
  | line :: lines =>
    match Text.decode? line with
    | none => ⟨[], some (.unreadable .notText)⟩
    | some text =>
      match roster.sanitizeLine text with
      | (.error problem, _) => ⟨[], some (.atLine number problem)⟩
      | (.ok record, roster) => (sanitizeLines roster (number + 1) lines).before record

/-- Sanitizes a stream. -/
def sanitize (bytes : List UInt8) : Run := sanitizeLines {} 1 (Text.byteLines bytes)

end GoldenFixtures.Archive
