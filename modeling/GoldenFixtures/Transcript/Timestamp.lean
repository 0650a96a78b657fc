import GoldenFixtures.Time.Pattern

/-!
# Timestamps

A timestamp may be written in several ways; `patterns` lists them in the order
in which they are tried.  A time without an offset is UTC.  `Timestamp.normalize`
gives every timestamp the one form `YYYY-MM-DDTHH:MM:SS.mmmZ`.
-/

namespace GoldenFixtures.Transcript

open Time

namespace Timestamp

/-- A date and a time with fixed widths and an offset. -/
def fixedWidth : Pattern :=
  [.digits 4 .year, .oneOf ['-'], .digits 2 .month, .oneOf ['-'], .digits 2 .day,
    .oneOf ['T', 't', ' '], .digits 2 .hour, .oneOf [':'], .digits 2 .minute, .oneOf [':'],
    .digits 2 .second, .fraction, .zone]

/-- A date alone. -/
def dateOnly : Pattern :=
  [.number .year, .oneOf ['-'], .number .month, .oneOf ['-'], .number .day]

/-- A date and the hours and minutes, with what `between` reads in the middle. -/
def minutes (between : Item) : Pattern :=
  dateOnly ++ [between, .number .hour, .oneOf [':'], .number .minute]

/-- A date and the time down to a fraction of a second. -/
def seconds (between : Item) : Pattern :=
  minutes between ++ [.oneOf [':'], .number .second, .fraction]

/-- The ways to write a timestamp, in the order in which they are tried. -/
def patterns : List Pattern :=
  [fixedWidth,
    seconds (.oneOf ['T']) ++ [.offset],
    seconds .blanks ++ [.offset],
    seconds (.oneOf ['T']),
    seconds .blanks,
    minutes (.oneOf ['T']),
    minutes .blanks,
    dateOnly]

/-- The instant that a timestamp names. -/
def instant? (text : String) : Option Instant :=
  patterns.findSome? fun pattern => pattern.instant? text.toList

/-- A year: four digits, with a sign if it needs more of them or is negative. -/
def yearChars (year : Int) : List Char :=
  if year < 0 then '-' :: Digits.padded 4 year.natAbs
  else if year > 9999 then '+' :: Digits.padded 4 year.natAbs
  else Digits.padded 4 year.natAbs

/-- The one form of a timestamp. -/
def render (moment : MilliInstant) : List Char :=
  let date := Date.ofDays (moment.second / secondsPerDay)
  let second := (moment.second % secondsPerDay).toNat
  yearChars date.year ++ '-' :: Digits.padded 2 date.month ++ '-' :: Digits.padded 2 date.day
    ++ 'T' :: Digits.padded 2 (second / 3600) ++ ':' :: Digits.padded 2 (second / 60 % 60)
    ++ ':' :: Digits.padded 2 (second % 60) ++ '.' :: Digits.padded 3 moment.millisecond ++ ['Z']

/-- Why a timestamp has no normal form. -/
inductive Failure where
  /-- It is written in none of the ways. -/
  | unreadable
  /-- It rounds to an instant behind the last year. -/
  | pastLastYear
  deriving DecidableEq, Repr

/-- The normal form of a timestamp. -/
def normalize (text : String) : Except Failure String :=
  match instant? text with
  | none => .error .unreadable
  | some instant =>
    match instant.roundToMillisecond with
    | none => .error .pastLastYear
    | some rounded => .ok (String.ofList (render rounded))

end Timestamp

end GoldenFixtures.Transcript
