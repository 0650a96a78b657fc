import GoldenFixtures.Transcript.Timestamp
import GoldenFixtures.Proofs.Time.Instant
import GoldenFixtures.Proofs.Time.Pattern

/-!
# Timestamps normalized again

A timestamp in its one form is read as the moment that it was written for, as
long as its year has four digits.  With a sign in front of the year it is not
read at all: the pattern that takes its `Z` takes no sign, and the patterns that
take a sign do not take its `Z`.
-/

namespace GoldenFixtures.Transcript

open Digits (NoDigit padded)
open Time

namespace Timestamp

/-! ## The written form -/

/-- The time of day in the one form of a timestamp, behind the `T`. -/
def clockChars (moment : MilliInstant) : List Char :=
  padded 2 (moment.secondOfDay / 3600) ++ ':' :: (padded 2 (moment.secondOfDay / 60 % 60) ++ ':'
    :: (padded 2 (moment.secondOfDay % 60) ++ '.' :: (padded 3 moment.millisecond ++ ['Z'])))

theorem render_eq (moment : MilliInstant) :
    render moment = yearChars moment.date.year ++ '-' :: (padded 2 moment.date.month ++ '-'
      :: (padded 2 moment.date.day ++ 'T' :: clockChars moment)) := by
  simp [render, clockChars, MilliInstant.date, MilliInstant.secondOfDay]

/-- The year that a timestamp starts with. -/
def year? (text : String) : Option Int := (number? .year text.toList).map Prod.fst

theorem number?_yearChars (year : Int) {rest : List Char} (h : NoDigit rest) :
    number? .year (yearChars year ++ rest) = some (year, rest) := by
  unfold yearChars
  split
  · rw [List.cons_append, number?_year_minus _ h]
    congr 2
    omega
  split
  · rw [List.cons_append, number?_year_plus _ h]
    congr 2
    omega
  · have hfour : Nat.pow 10 4 = 10000 := rfl
    rw [number?_year_padded (by omega)]
    congr 2
    omega

/-- The one form of a timestamp starts with its year. -/
theorem year?_render (moment : MilliInstant) :
    year? (String.ofList (render moment)) = some moment.date.year := by
  have hdash : ∀ rest, NoDigit ('-' :: rest) := Digits.noDigit_cons (by decide)
  rw [year?, String.toList_ofList, render_eq, number?_yearChars _ (hdash _)]
  rfl

/-! ## Years of four digits -/

theorem read_fixedWidth_render {moment : MilliInstant} (hvalid : moment.IsValid)
    (hfrom : 0 ≤ moment.date.year) (hto : moment.date.year ≤ 9999) :
    Pattern.read fixedWidth {} (render moment) = some moment.fields := by
  have hfour : moment.date.year.natAbs < Nat.pow 10 4 := by
    have hpow : Nat.pow 10 4 = 10000 := rfl
    omega
  have hmilli : moment.millisecond < Nat.pow 10 3 := hvalid.millisecond_lt
  have hzone : NoDigit ['Z'] := Digits.noDigit_cons (by decide) []
  have hyear : yearChars moment.date.year = padded 4 moment.date.year.natAbs := by
    rw [yearChars, if_neg (by omega), if_neg (by omega)]
  rw [render_eq, hyear, clockChars]
  simp [fixedWidth, Pattern.read, Item.read, exactDigits?_padded hfour,
    exactDigits?_padded moment.month_lt, exactDigits?_padded moment.day_lt,
    exactDigits?_padded moment.hour_lt, exactDigits?_padded moment.minute_lt,
    exactDigits?_padded moment.secondOfMinute_lt,
    allDigits?_padded 3 _ hzone, nanoseconds_ofNatPadded hmilli, Fields.set,
    MilliInstant.fields, abs_of_nonneg hfrom]

/-! ## Years with a sign -/

theorem dateOnly_takes_render (moment : MilliInstant) :
    Pattern.Takes dateOnly (render moment) ('T' :: clockChars moment) := by
  have hdash : ∀ rest, NoDigit ('-' :: rest) := Digits.noDigit_cons (by decide)
  rw [render_eq]
  apply Pattern.takes_cons (Item.takes_number (number?_yearChars _ (hdash _)))
  apply Pattern.takes_cons (Item.takes_oneOf (by simp) _)
  apply Pattern.takes_cons (Item.takes_number (number?_padded (by decide) moment.month_lt _))
  apply Pattern.takes_cons (Item.takes_oneOf (by simp) _)
  apply Pattern.takes_cons (Item.takes_number (number?_padded (by decide) moment.day_lt _))
  exact Pattern.takes_nil _

/-- The seconds and the zone of the one form, with the colon in front. -/
def secondChars (moment : MilliInstant) : List Char :=
  ':' :: (padded 2 (moment.secondOfDay % 60) ++ '.' :: (padded 3 moment.millisecond ++ ['Z']))

theorem minutes_takes_render (moment : MilliInstant) :
    Pattern.Takes (minutes (.oneOf ['T'])) (render moment) (secondChars moment) := by
  apply (dateOnly_takes_render moment).append
  apply Pattern.takes_cons (Item.takes_oneOf (by simp) _)
  apply Pattern.takes_cons (Item.takes_number (number?_padded (by decide) moment.hour_lt _))
  apply Pattern.takes_cons (Item.takes_oneOf (by simp) _)
  apply Pattern.takes_cons (Item.takes_number (number?_padded (by decide) moment.minute_lt _))
  exact Pattern.takes_nil _

theorem seconds_takes_render (moment : MilliInstant) :
    Pattern.Takes (seconds (.oneOf ['T'])) (render moment) ['Z'] := by
  apply (minutes_takes_render moment).append
  apply Pattern.takes_cons (Item.takes_oneOf (by simp) _)
  apply Pattern.takes_cons
    (Item.takes_number (number?_padded (by decide) moment.secondOfMinute_lt _))
  apply Pattern.takes_cons (Item.takes_fraction 3 _ (Digits.noDigit_cons (by decide) []))
  exact Pattern.takes_nil _

/-- Where white space may stand between the date and the hours, no `T` may. -/
theorem refuses_render_of_blanks (moment : MilliInstant) (items : Pattern) :
    Pattern.Refuses (dateOnly ++ .blanks :: .number .hour :: items) (render moment) := by
  apply (dateOnly_takes_render moment).refuses_append
  intro fields
  have hletter : ∀ rest, number? .hour ('T' :: rest) = none :=
    number?_of_noDigit (by decide) (by decide) (by decide)
  have hblanks : ∀ rest, Text.trimStart ('T' :: rest) = 'T' :: rest :=
    trimStart_cons_of_not (by decide)
  simp [Pattern.read, Item.read, hblanks, hletter]

/-- A year with a sign does not have a fixed width. -/
theorem fixedWidth_refuses_render {moment : MilliInstant}
    (hyear : moment.date.year < 0 ∨ 9999 < moment.date.year) :
    Pattern.Refuses fixedWidth (render moment) := by
  have hsign : ∃ sign digits, (sign = '-' ∨ sign = '+') ∧
      yearChars moment.date.year = sign :: digits := by
    unfold yearChars
    rcases hyear with hyear | hyear
    · rw [if_pos hyear]
      exact ⟨'-', _, Or.inl rfl, rfl⟩
    · rw [if_neg (by omega), if_pos hyear]
      exact ⟨'+', _, Or.inr rfl, rfl⟩
  obtain ⟨sign, digits, hsign, hchars⟩ := hsign
  rw [render_eq, hchars, List.cons_append]
  apply Pattern.refuses_cons
  intro fields
  have hnone : Digit.ofChar? sign = none := by rcases hsign with rfl | rfl <;> decide
  rw [Item.read, exactDigits?_of_noDigit (Digits.noDigit_cons hnone _) (by decide)]
  rfl

/-- A timestamp whose year has a sign is written in none of the ways. -/
theorem instant?_render_of_sign {moment : MilliInstant}
    (hyear : moment.date.year < 0 ∨ 9999 < moment.date.year) :
    instant? (String.ofList (render moment)) = none := by
  have hoffset : Pattern.Refuses [.offset] ['Z'] := Pattern.refuses_cons (fun _ => rfl) []
  rw [instant?, String.toList_ofList, List.findSome?_eq_none_iff]
  unfold patterns
  simp only [List.forall_mem_cons]
  refine ⟨(fixedWidth_refuses_render hyear).instant?,
    ((seconds_takes_render moment).refuses_append hoffset).instant?,
    (refuses_render_of_blanks moment _).instant?, (seconds_takes_render moment).refuses.instant?,
    (refuses_render_of_blanks moment _).instant?, (minutes_takes_render moment).refuses.instant?,
    (refuses_render_of_blanks moment _).instant?, (dateOnly_takes_render moment).refuses.instant?,
    by simp⟩

/-! ## Normalizing -/

theorem normalize_eq_ok_iff {text stamp : String} :
    normalize text = .ok stamp ↔
      ∃ instant moment, instant? text = some instant ∧ instant.roundToMillisecond = some moment ∧
        stamp = String.ofList (render moment) := by
  unfold normalize
  cases instant? text with
  | none => simp
  | some instant =>
    cases hmoment : instant.roundToMillisecond with
    | none => simp [hmoment]
    | some moment => simp [hmoment, eq_comm]

/-- A timestamp that is read names an instant in range. -/
theorem inRange_of_instant? {text : String} {instant : Instant}
    (h : instant? text = some instant) : Instant.inRange instant.second = true := by
  obtain ⟨pattern, -, hpattern⟩ := List.exists_of_findSome?_eq_some h
  rw [Pattern.instant?, Option.bind_eq_some_iff] at hpattern
  obtain ⟨fields, -, hfields⟩ := hpattern
  exact Fields.inRange_of_toInstant? hfields

/-- Every normal form of a timestamp is the written form of a moment. -/
theorem eq_render_of_normalize {text stamp : String} (h : normalize text = .ok stamp) :
    ∃ moment : MilliInstant, moment.IsValid ∧ stamp = String.ofList (render moment) := by
  obtain ⟨instant, moment, hinstant, hmoment, rfl⟩ := normalize_eq_ok_iff.mp h
  have hrange := inRange_of_instant? hinstant
  exact ⟨moment, Instant.isValid_of_roundToMillisecond hrange hmoment, rfl⟩

/-- With a year of four digits, the one form of a timestamp names its moment. -/
theorem instant?_render {moment : MilliInstant} (hvalid : moment.IsValid)
    (hfrom : 0 ≤ moment.date.year) (hto : moment.date.year ≤ 9999) :
    instant? (String.ofList (render moment)) =
      some ⟨moment.second, moment.millisecond * 1000000⟩ := by
  have hfixed : fixedWidth.instant? (render moment) =
      some ⟨moment.second, moment.millisecond * 1000000⟩ := by
    rw [Pattern.instant?, read_fixedWidth_render hvalid hfrom hto, Option.bind_some,
      MilliInstant.toInstant?_fields hvalid]
  rw [instant?, String.toList_ofList, patterns, List.findSome?_cons, hfixed]

/-- With a year of four digits, the one form of a timestamp stays as it is. -/
theorem normalize_render {moment : MilliInstant} (hvalid : moment.IsValid)
    (hfrom : 0 ≤ moment.date.year) (hto : moment.date.year ≤ 9999) :
    normalize (String.ofList (render moment)) = .ok (String.ofList (render moment)) := by
  rw [normalize_eq_ok_iff]
  exact ⟨_, moment, instant?_render hvalid hfrom hto,
    Instant.roundToMillisecond_of_milliseconds hvalid, rfl⟩

/-- With any other year, it is not read. -/
theorem normalize_render_of_sign {moment : MilliInstant}
    (hyear : moment.date.year < 0 ∨ 9999 < moment.date.year) :
    normalize (String.ofList (render moment)) = .error .unreadable := by
  rw [normalize, instant?_render_of_sign hyear]

/-- A normal form stays as it is if its year has four digits, and is not read
otherwise. -/
theorem normalize_of_normalize {text stamp : String} (h : normalize text = .ok stamp) :
    ∃ year : Int, year? stamp = some year ∧
      normalize stamp =
        if 0 ≤ year ∧ year ≤ 9999 then .ok stamp else .error .unreadable := by
  obtain ⟨moment, hvalid, rfl⟩ := eq_render_of_normalize h
  refine ⟨moment.date.year, year?_render moment, ?_⟩
  split
  · rename_i hyear
    exact normalize_render hvalid hyear.1 hyear.2
  · exact normalize_render_of_sign (by omega)

end Timestamp

end GoldenFixtures.Transcript
