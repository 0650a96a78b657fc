import GoldenFixtures.Proofs.Time.Rounding
import GoldenFixtures.Proofs.Transcript.Timestamp

/-!
# What the normal form of a timestamp says

The normal form of a timestamp names the instant of the timestamp, rounded to
milliseconds (`normalize_roundsTo`).  It has the 24 characters
`YYYY-MM-DDTHH:MM:SS.mmmZ`, and stays as it is, exactly if its year has four digits
(`isStamp_and_normalize_iff`).  A timestamp that can be read has a normal form,
unless it lies within half a millisecond of the end of the last year
(`normalize_eq_pastLastYear_iff`).
-/

namespace GoldenFixtures.Transcript

open Digits (NoDigit padded)
open Time

namespace Timestamp

/-! ## The instant that is written -/

/-- The one form of a timestamp, with a year of either sign. -/
def written : Pattern :=
  [.number .year, .oneOf ['-'], .digits 2 .month, .oneOf ['-'], .digits 2 .day, .oneOf ['T'],
    .digits 2 .hour, .oneOf [':'], .digits 2 .minute, .oneOf [':'], .digits 2 .second, .fraction,
    .oneOf ['Z']]

/-- The instant that a text in the one form names. -/
def writtenInstant? (text : String) : Option Instant := written.instant? text.toList

section

variable {text other stamp last : String} {instant later : Instant} {moment : MilliInstant}
  {number next : Int}

theorem read_written_render (hvalid : moment.IsValid) :
    Pattern.read written {} (render moment) = some moment.fields := by
  have hdash : ∀ rest, NoDigit ('-' :: rest) := Digits.noDigit_cons (by decide)
  have hzone : NoDigit ['Z'] := Digits.noDigit_cons (by decide) []
  have hmilli : moment.millisecond < Nat.pow 10 3 := hvalid.millisecond_lt
  rw [render_eq, clockChars]
  simp [written, Pattern.read, Item.read, number?_yearChars _ (hdash _),
    exactDigits?_padded moment.month_lt, exactDigits?_padded moment.day_lt,
    exactDigits?_padded moment.hour_lt, exactDigits?_padded moment.minute_lt,
    exactDigits?_padded moment.secondOfMinute_lt, allDigits?_padded 3 _ hzone,
    nanoseconds_ofNatPadded hmilli, Fields.set, MilliInstant.fields]

theorem writtenInstant?_render (hvalid : moment.IsValid) :
    writtenInstant? (String.ofList (render moment)) =
      some (.ofMilliseconds moment.milliseconds) := by
  rw [writtenInstant?, String.toList_ofList, Pattern.instant?, read_written_render hvalid,
    Option.bind_some, MilliInstant.toInstant?_fields hvalid,
    Instant.ofMilliseconds_milliseconds hvalid.millisecond_lt]

/-! ## Rounding -/

/-- A normal form names a number of milliseconds that its timestamp is rounded to. -/
theorem exists_roundsTo (h : instant? text = some instant) (hstamp : normalize text = .ok stamp) :
    ∃ number, writtenInstant? stamp = some (.ofMilliseconds number) ∧
      instant.RoundsTo number := by
  have hrange := inRange_of_instant? h
  obtain ⟨found, moment, hfound, hmoment, rfl⟩ := normalize_eq_ok_iff.mp hstamp
  obtain rfl := Option.some.inj (h.symm.trans hfound)
  have hvalid := Instant.isValid_of_roundToMillisecond hrange hmoment
  exact ⟨moment.milliseconds, writtenInstant?_render hvalid,
    Instant.roundsTo_of_roundToMillisecond hrange hmoment⟩

theorem exists_normalize_of_ne (h : instant? text = some instant)
    (hrange : normalize text ≠ .error .pastLastYear) : ∃ stamp, normalize text = .ok stamp := by
  unfold normalize at hrange ⊢
  simp only [h] at hrange ⊢
  cases hround : instant.roundToMillisecond with
  | none => exact absurd (by rw [hround]) hrange
  | some moment => exact ⟨_, rfl⟩

/-- **Rounding.**  A timestamp that can be read, and is not rounded to an instant
behind the last year, has a normal form, which names the nearest millisecond.  Of two
timestamps the later one has no earlier normal form. -/
theorem normalize_roundsTo :
    (∀ text instant, instant? text = some instant → normalize text ≠ .error .pastLastYear →
      ∃ stamp number, normalize text = .ok stamp ∧
        writtenInstant? stamp = some (.ofMilliseconds number) ∧ instant.RoundsTo number) ∧
    ∀ text other instant later stamp last number next, instant? text = some instant →
      instant? other = some later → instant ≤ later →
      normalize text = .ok stamp → normalize other = .ok last →
      writtenInstant? stamp = some (.ofMilliseconds number) →
      writtenInstant? last = some (.ofMilliseconds next) → number ≤ next := by
  constructor
  · intro text instant h hrange
    obtain ⟨stamp, hstamp⟩ := exists_normalize_of_ne h hrange
    obtain ⟨number, hnumber, hrounds⟩ := exists_roundsTo h hstamp
    exact ⟨stamp, number, hstamp, hnumber, hrounds⟩
  · intro text other instant later stamp last number next h hother hle hstamp hlast hnumber hnext
    obtain ⟨found, hfound, hrounds⟩ := exists_roundsTo h hstamp
    obtain ⟨foundNext, hfoundNext, hroundsNext⟩ := exists_roundsTo hother hlast
    obtain rfl := Instant.ofMilliseconds_injective (Option.some.inj (hnumber.symm.trans hfound))
    obtain rfl := Instant.ofMilliseconds_injective (Option.some.inj (hnext.symm.trans hfoundNext))
    exact hrounds.mono hroundsNext hle

/-- A timestamp before 1970, one in a leap second, and one that lies in the second
behind it. -/
theorem normalize_roundsTo_leapSecond :
    (instant? "1969-12-31T23:59:59.9995Z" = some ⟨-1, 999500000⟩ ∧
      normalize "1969-12-31T23:59:59.9995Z" ≠ .error .pastLastYear ∧
      ∃ stamp number, normalize "1969-12-31T23:59:59.9995Z" = .ok stamp ∧
        writtenInstant? stamp = some (.ofMilliseconds number) ∧
        Instant.RoundsTo ⟨-1, 999500000⟩ number) ∧
    instant? "2016-12-31T23:59:60.25Z" = some ⟨1483228799, 1250000000⟩ ∧
    instant? "2017-01-01 01:00:00.0014 +01:00" = some ⟨1483228800, 1400000⟩ ∧
    normalize "2016-12-31T23:59:60.25Z" = .ok "2017-01-01T00:00:00.000Z" ∧
    normalize "2017-01-01 01:00:00.0014 +01:00" = .ok "2017-01-01T00:00:00.001Z" ∧
    (1483228800000 : Int) ≤ 1483228800001 := by
  obtain ⟨hnearest, hmono⟩ := normalize_roundsTo
  have hbefore : instant? "1969-12-31T23:59:59.9995Z" = some ⟨-1, 999500000⟩ := by decide +kernel
  have hrange : normalize "1969-12-31T23:59:59.9995Z" ≠ .error .pastLastYear := by decide +kernel
  have hleap : instant? "2016-12-31T23:59:60.25Z" = some ⟨1483228799, 1250000000⟩ := by
    decide +kernel
  have hnext : instant? "2017-01-01 01:00:00.0014 +01:00" = some ⟨1483228800, 1400000⟩ := by
    decide +kernel
  have hstamp : normalize "2016-12-31T23:59:60.25Z" = .ok "2017-01-01T00:00:00.000Z" := by
    decide +kernel
  have hlast : normalize "2017-01-01 01:00:00.0014 +01:00" = .ok "2017-01-01T00:00:00.001Z" := by
    decide +kernel
  have hnumber : writtenInstant? "2017-01-01T00:00:00.000Z" =
      some (.ofMilliseconds 1483228800000) := by decide +kernel
  have hlastNumber : writtenInstant? "2017-01-01T00:00:00.001Z" =
      some (.ofMilliseconds 1483228800001) := by decide +kernel
  exact ⟨⟨hbefore, hrange, hnearest _ _ hbefore hrange⟩, hleap, hnext, hstamp, hlast,
    hmono _ _ _ _ _ _ _ _ hleap hnext (Or.inl (by decide)) hstamp hlast hnumber hlastNumber⟩

/-! ## The end of the last year -/

/-- **The last second.**  A timestamp fails to be rounded exactly if it can be read and
lies in the last second of the last year, or in its leap second, from half a
millisecond before the next second on.  The start of the second is always in range. -/
theorem normalize_eq_pastLastYear_iff (text : String) :
    (normalize text = .error .pastLastYear ↔
      ∃ instant, instant? text = some instant ∧ instant.second = lastSecond ∧
        999500 ≤ instant.nanosecond / 1000) ∧
    ∀ instant, instant? text = some instant →
      instant.shift? (-instant.nanosecond) = some ⟨instant.second, 0⟩ := by
  refine ⟨?_, fun instant h => Instant.shift?_to_start (inRange_of_instant? h)⟩
  unfold normalize
  cases h : instant? text with
  | none => simp
  | some instant =>
    have hnone := Instant.roundToMillisecond_eq_none_iff (inRange_of_instant? h)
    simp only [Option.some.injEq, exists_eq_left', ← hnone]
    cases instant.roundToMillisecond with
    | none => simp
    | some moment => simp

/-- The leap second at the end of the last year. -/
theorem normalize_eq_pastLastYear_lastSecond :
    normalize "+262142-12-31T23:59:60" = .error .pastLastYear ∧
      instant? "+262142-12-31T23:59:60" = some ⟨lastSecond, 1000000000⟩ ∧
      (Instant.mk lastSecond 1000000000).shift? (-(1000000000 : Nat)) = some ⟨lastSecond, 0⟩ := by
  obtain ⟨hfails, hstart⟩ := normalize_eq_pastLastYear_iff "+262142-12-31T23:59:60"
  have h : instant? "+262142-12-31T23:59:60" = some ⟨lastSecond, 1000000000⟩ := by decide +kernel
  exact ⟨hfails.mpr ⟨_, h, rfl, by decide⟩, h, hstart _ h⟩

/-! ## The 24 characters -/

/-- A text of 24 characters, `YYYY-MM-DDTHH:MM:SS.mmmZ`, that says a date which exists
and a time of the day. -/
structure IsStamp (text : String) : Prop where
  length : text.length = 24
  moment : ∃ (date : Date) (hour minute second millisecond : Nat),
    date.isValid = true ∧ 0 ≤ date.year ∧ date.year ≤ 9999 ∧
      hour ≤ 23 ∧ minute ≤ 59 ∧ second ≤ 59 ∧ millisecond ≤ 999 ∧
      text.toList = padded 4 date.year.toNat ++ '-' :: (padded 2 date.month ++ '-' ::
        (padded 2 date.day ++ 'T' :: (padded 2 hour ++ ':' :: (padded 2 minute ++ ':' ::
          (padded 2 second ++ '.' :: (padded 3 millisecond ++ ['Z']))))))

theorem yearChars_of_plain {year : Int} (hfrom : 0 ≤ year) (hto : year ≤ 9999) :
    yearChars year = padded 4 year.toNat := by
  rw [yearChars, if_neg (by omega), if_neg (by omega)]
  congr 1
  omega

theorem length_yearChars_of_sign {year : Int} (h : year < 0 ∨ 9999 < year) :
    4 < (yearChars year).length := by
  have hfour := Digits.le_length_padded 4 year.natAbs
  unfold yearChars
  rcases h with h | h
  · rw [if_pos h, List.length_cons]
    omega
  · rw [if_neg (by omega), if_pos h, List.length_cons]
    omega

theorem length_render (hvalid : moment.IsValid) :
    (render moment).length = (yearChars moment.date.year).length + 20 := by
  have hmilli : moment.millisecond < Nat.pow 10 3 := hvalid.millisecond_lt
  rw [render_eq, clockChars]
  simp [Digits.length_padded moment.month_lt, Digits.length_padded moment.day_lt,
    Digits.length_padded moment.hour_lt, Digits.length_padded moment.minute_lt,
    Digits.length_padded moment.secondOfMinute_lt, Digits.length_padded hmilli]

theorem isStamp_render (hvalid : moment.IsValid) (hfrom : 0 ≤ moment.date.year)
    (hto : moment.date.year ≤ 9999) : IsStamp (String.ofList (render moment)) := by
  have hfour : moment.date.year.toNat < Nat.pow 10 4 := by
    have hpow : Nat.pow 10 4 = 10000 := rfl
    omega
  have hday := moment.secondOfDay_lt
  have hmilli := hvalid.millisecond_lt
  constructor
  · rw [String.length_ofList, length_render hvalid, yearChars_of_plain hfrom hto,
      Digits.length_padded hfour (by decide)]
  · refine ⟨moment.date, moment.secondOfDay / 3600, moment.secondOfDay / 60 % 60,
      moment.secondOfDay % 60, moment.millisecond, Date.isValid_ofDays _, hfrom, hto, by omega,
      by omega, by omega, by omega, ?_⟩
    rw [String.toList_ofList, render_eq, clockChars, yearChars_of_plain hfrom hto]

/-- **Four digits.**  The normal form of a timestamp has 24 characters, and stays as it
is, exactly if the year of the rounded timestamp in UTC has four digits.  With any other
year it has more characters and cannot be read. -/
theorem isStamp_and_normalize_iff (h : normalize text = .ok stamp) :
    ∃ instant moment, instant? text = some instant ∧
      instant.roundToMillisecond = some moment ∧
      (IsStamp stamp ∧ normalize stamp = .ok stamp ↔
        0 ≤ moment.date.year ∧ moment.date.year ≤ 9999) ∧
      (¬ (0 ≤ moment.date.year ∧ moment.date.year ≤ 9999) →
        24 < stamp.length ∧ normalize stamp = .error .unreadable) := by
  obtain ⟨instant, moment, hinstant, hmoment, rfl⟩ := normalize_eq_ok_iff.mp h
  have hvalid := Instant.isValid_of_roundToMillisecond (inRange_of_instant? hinstant) hmoment
  have hother : ¬ (0 ≤ moment.date.year ∧ moment.date.year ≤ 9999) →
      24 < (String.ofList (render moment)).length ∧
        normalize (String.ofList (render moment)) = .error .unreadable := by
    intro hyear
    have hsign : moment.date.year < 0 ∨ 9999 < moment.date.year := by omega
    have hlength := length_yearChars_of_sign hsign
    rw [String.length_ofList, length_render hvalid]
    exact ⟨by omega, normalize_render_of_sign hsign⟩
  refine ⟨instant, moment, hinstant, hmoment, ?_, hother⟩
  constructor
  · intro hstamp
    by_contra hyear
    have hlength := hstamp.1.length
    have hmore := (hother hyear).1
    omega
  · intro hyear
    exact ⟨isStamp_render hvalid hyear.1 hyear.2, normalize_render hvalid hyear.1 hyear.2⟩

theorem isStamp_and_normalize_iff_endOfYear :
    normalize "2023-12-31T23:59:59.9995Z" = .ok "2024-01-01T00:00:00.000Z" ∧
      ∃ instant moment, instant? "2023-12-31T23:59:59.9995Z" = some instant ∧
        instant.roundToMillisecond = some moment ∧
        (IsStamp "2024-01-01T00:00:00.000Z" ∧
            normalize "2024-01-01T00:00:00.000Z" = .ok "2024-01-01T00:00:00.000Z" ↔
          0 ≤ moment.date.year ∧ moment.date.year ≤ 9999) := by
  have h : normalize "2023-12-31T23:59:59.9995Z" = .ok "2024-01-01T00:00:00.000Z" := by
    decide +kernel
  obtain ⟨instant, moment, hinstant, hmoment, hiff, -⟩ := isStamp_and_normalize_iff h
  exact ⟨h, instant, moment, hinstant, hmoment, hiff⟩

/-- The end of the year 9999 is rounded to a timestamp that is longer and cannot be
read. -/
theorem normalize_endOfYear9999 :
    normalize "9999-12-31T23:59:59.9996Z" = .ok "+10000-01-01T00:00:00.000Z" ∧
      ¬ IsStamp "+10000-01-01T00:00:00.000Z" ∧
      normalize "+10000-01-01T00:00:00.000Z" = .error .unreadable :=
  ⟨by decide +kernel, fun hstamp => absurd hstamp.length (by decide), by decide +kernel⟩

end

end Timestamp

end GoldenFixtures.Transcript
