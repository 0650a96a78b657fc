import Mathlib.Data.List.Pairwise
import GoldenFixtures.Proofs.Time.Offset
import GoldenFixtures.Transcript.Timestamp

/-!
# The ways to write a timestamp

The patterns of timestamps overlap, but where several of them accept a text they name
the same instant, so it does not matter in which order they are tried
(`instant_of_any_pattern`).  The patterns that read an offset accept only texts that end
with one, and the others accept none of these, so no offset is dropped.
-/

namespace GoldenFixtures.Transcript

open Time

namespace Timestamp

/-- The pattern reads no offset. -/
def IsLocal (pattern : Pattern) : Prop := Item.zone ∉ pattern ∧ Item.offset ∉ pattern

instance (pattern : Pattern) : Decidable (IsLocal pattern) := instDecidableAnd

/-! ## Patterns without an offset -/

/-- What may stand behind the date where no offset is read. -/
def timesOfDay : List Pattern :=
  [[],
    [.oneOf ['T'], .number .hour, .oneOf [':'], .number .minute],
    [.blanks, .number .hour, .oneOf [':'], .number .minute],
    [.oneOf ['T'], .number .hour, .oneOf [':'], .number .minute, .oneOf [':'], .number .second,
      .fraction],
    [.blanks, .number .hour, .oneOf [':'], .number .minute, .oneOf [':'], .number .second,
      .fraction]]

theorem exists_timeOfDay {pattern : Pattern} (h : pattern ∈ patterns) (hlocal : IsLocal pattern) :
    ∃ time ∈ timesOfDay, pattern = dateOnly ++ time := by
  revert pattern
  decide

section

variable {between : List Char} (hbetween : ∀ c ∈ between, c = ':' ∨ Text.isBlank c = true)
  {minutes : List Digit} (hminutes : minutes.length = 2)

include hbetween hminutes

/-- The middle and the minutes of an offset do not start with a `T`. -/
theorem refuses_letter_of_offset (items : Pattern) :
    Pattern.Refuses (.oneOf ['T'] :: items) (between ++ Digits.toChars minutes) := by
  apply Pattern.refuses_cons
  intro fields
  have hletter : ∀ (c : Char) (rest : List Char), c ≠ 'T' →
      (Item.oneOf ['T']).read fields (c :: rest) = none := by
    intro c rest hc
    simp [Item.read, hc]
  cases between with
  | cons c between =>
    apply hletter
    rintro rfl
    rcases hbetween 'T' (by simp) with hcolon | hblank
    · exact absurd hcolon (by decide)
    · exact absurd hblank (by decide)
  | nil =>
    cases minutes with
    | nil => cases hminutes
    | cons d digits =>
      have hdigit : ∀ d : Digit, d.toChar ≠ 'T' := by decide
      exact hletter _ _ (hdigit d)

/-- They are not hours with a colon behind them either. -/
theorem refuses_hour_of_offset (items : Pattern) :
    Pattern.Refuses (.blanks :: .number .hour :: .oneOf [':'] :: items)
      (between ++ Digits.toChars minutes) := by
  intro fields
  simp only [Pattern.read, Item.read]
  induction between with
  | nil =>
    have htake := takeDigits_toChars_append minutes []
    rw [hminutes, List.append_nil] at htake
    obtain ⟨tens, ones, rfl⟩ := List.length_eq_two.mp hminutes
    have htrim : Text.trimStart (Digits.toChars [tens, ones]) = Digits.toChars [tens, ones] :=
      trimStart_cons_of_not (isBlank_toChar tens) _
    simp only [List.nil_append, htrim, number?, someDigits?, htake, reduceCtorEq, if_false,
      Option.map_some]
  | cons c between ih =>
    by_cases hblank : Text.isBlank c = true
    · have hskip : Text.trimStart (c :: between ++ Digits.toChars minutes) =
          Text.trimStart (between ++ Digits.toChars minutes) := by
        rw [List.cons_append, Text.trimStart, List.dropWhile_cons_of_pos hblank, Text.trimStart]
      rw [hskip]
      exact ih fun d hd => hbetween d (List.mem_cons_of_mem _ hd)
    · obtain rfl : c = ':' := (hbetween c (by simp)).resolve_right hblank
      rw [List.cons_append, trimStart_cons_of_not (by decide),
        number?_of_noDigit (by decide) (by decide) (by decide)]
      rfl

/-- So they are no time of day. -/
theorem refuses_time_of_offset {time : Pattern} (h : time ∈ timesOfDay) :
    Pattern.Refuses time (between ++ Digits.toChars minutes) := by
  simp only [timesOfDay, List.mem_cons, List.not_mem_nil, or_false] at h
  rcases h with rfl | rfl | rfl | rfl | rfl
  · intro fields
    cases minutes with
    | nil => cases hminutes
    | cons d digits => simp [Pattern.read]
  · exact refuses_letter_of_offset hbetween hminutes _
  · exact refuses_hour_of_offset hbetween hminutes _
  · exact refuses_letter_of_offset hbetween hminutes _
  · exact refuses_hour_of_offset hbetween hminutes _

end

/-- A date with a time of day has a last dash, and the day behind it. -/
theorem exists_day_of_read {time : Pattern} {fields read : Fields} {text : List Char}
    (h : Pattern.read (dateOnly ++ time) fields text = some read) :
    ∃ front rest between, text = front ++ '-' :: rest ∧
      Pattern.read (.number .day :: time) between rest = some read := by
  have hsplit : dateOnly ++ time = [.number .year, .oneOf ['-'], .number .month] ++
      .oneOf ['-'] :: .number .day :: time := rfl
  rw [hsplit] at h
  obtain ⟨front, rest, between, rfl, hrest, -⟩ := Pattern.exists_of_read_append h
  obtain ⟨later, behind, hdash, hday⟩ := Pattern.read_cons_eq_some_iff.mp hrest
  cases rest with
  | nil => cases hdash
  | cons c rest =>
    simp only [Item.read, List.mem_singleton, Option.ite_none_right_eq_some, Option.some.injEq,
      Prod.mk.injEq] at hdash
    obtain ⟨rfl, -, rfl⟩ := hdash
    exact ⟨front, rest, later, rfl, hday⟩

/-- The last element with a property stands at one place only. -/
theorem eq_of_append_cons {α : Type} {p : α → Prop} {front other behind behindOther : List α}
    {x y : α} (h : front ++ x :: behind = other ++ y :: behindOther) (hx : p x) (hy : p y)
    (hbehind : ∀ z ∈ behind, ¬ p z) (hother : ∀ z ∈ behindOther, ¬ p z) :
    behind = behindOther := by
  rcases List.append_eq_append_iff.mp h with ⟨between, -, h⟩ | ⟨between, -, h⟩
  · cases between with
    | nil => exact (List.cons.inj h).2
    | cons z between =>
      rw [List.cons_append, List.cons.injEq] at h
      exact absurd hy (hbehind y (by simp [h.2]))
  · cases between with
    | nil => exact (List.cons.inj h).2.symm
    | cons z between =>
      rw [List.cons_append, List.cons.injEq] at h
      exact absurd hx (hother x (by simp [h.2]))

/-- A text with an offset at its end is not accepted where no offset is read.  No item of
such a pattern reads a `Z`; and a numeric offset starts at the last sign, which is the dash
in front of the day. -/
theorem refuses_of_hasOffset {pattern : Pattern} (h : pattern ∈ patterns)
    (hlocal : IsLocal pattern) {text : List Char} (hoffset : HasOffset text) :
    pattern.Refuses text := by
  obtain ⟨time, htime, rfl⟩ := exists_timeOfDay h hlocal
  intro fields
  by_contra hread
  obtain ⟨read, hread⟩ := Option.ne_none_iff_exists'.mp hread
  obtain ⟨front, offset, hoffset, rfl⟩ := hoffset
  cases hoffset with
  | letter c hc =>
    have hnone : ∀ time ∈ timesOfDay, ∀ item ∈ dateOnly ++ time,
        item.allows 'Z' = false ∧ item.allows 'z' = false := by decide
    obtain ⟨item, hmem, hallows⟩ := Pattern.allows_of_read hread c (by simp)
    obtain ⟨hcapital, hsmall⟩ := hnone time htime item hmem
    rcases hc with rfl | rfl
    · rw [hcapital] at hallows
      cases hallows
    · rw [hsmall] at hallows
      cases hallows
  | numeric sign hsign hours minutes hhours hminutes between hbetween =>
    obtain ⟨date, rest, dated, htext, hday⟩ := exists_day_of_read hread
    have hsigns : ∀ time ∈ timesOfDay, ∀ item ∈ Item.number .day :: time,
        signs.all (!item.allows ·) = true := by decide
    have hdigits : ∀ d : Digit, d.toChar ∉ signs := by decide
    have hrest : ∀ c ∈ rest, c ∉ signs := by
      intro c hc hmem
      obtain ⟨item, hitem, hallows⟩ := Pattern.allows_of_read hday c hc
      have hnot := List.all_eq_true.mp (hsigns time htime item hitem) c hmem
      rw [hallows] at hnot
      cases hnot
    have hbehind : ∀ c ∈ Digits.toChars hours ++ (between ++ Digits.toChars minutes),
        c ∉ signs := by
      intro c hc
      simp only [List.mem_append, Digits.toChars, List.mem_map] at hc
      rcases hc with ⟨d, -, rfl⟩ | hc | ⟨d, -, rfl⟩
      · exact hdigits d
      · intro hmem
        rcases hbetween c hc with rfl | hblank
        · exact absurd hmem (by decide)
        · rw [isBlank_of_mem_signs hmem] at hblank
          cases hblank
      · exact hdigits d
    have heq := eq_of_append_cons htext hsign (by decide : '-' ∈ signs) hbehind hrest
    subst heq
    obtain ⟨later, left, hnumber, htimeRead⟩ := Pattern.read_cons_eq_some_iff.mp hday
    have htake := takeDigits_toChars_append hours (between ++ Digits.toChars minutes)
    rw [hhours] at htake
    obtain ⟨tens, ones, rfl⟩ := List.length_eq_two.mp hhours
    have htrim : Text.trimStart (Digits.toChars [tens, ones] ++
        (between ++ Digits.toChars minutes)) =
        Digits.toChars [tens, ones] ++ (between ++ Digits.toChars minutes) :=
      trimStart_cons_of_not (isBlank_toChar tens) _
    simp only [Item.read, number?, htrim, someDigits?, htake, reduceCtorEq, if_false,
      Option.map_some, Option.some.injEq, Prod.mk.injEq] at hnumber
    obtain ⟨-, rfl⟩ := hnumber
    rw [refuses_time_of_offset hbetween hminutes htime] at htimeRead
    cases htimeRead

/-- The patterns that read an offset accept only texts that end with one. -/
theorem hasOffset_of_read {pattern : Pattern} (h : pattern ∈ patterns)
    (hzoned : ¬ IsLocal pattern) {fields read : Fields} {text : List Char}
    (hread : Pattern.read pattern fields text = some read) : HasOffset text := by
  simp only [patterns, List.mem_cons, List.not_mem_nil, or_false] at h
  rcases h with rfl | rfl | rfl | rfl | rfl | rfl | rfl | rfl
  · have hread : Pattern.read (fixedWidth.dropLast ++ [.zone]) fields text = some read := hread
    exact Pattern.hasOffset_of_read (Or.inl rfl) hread
  · exact Pattern.hasOffset_of_read (Or.inr rfl) hread
  · exact Pattern.hasOffset_of_read (Or.inr rfl) hread
  all_goals exact absurd (by decide) hzoned

/-! ## Agreement -/

/-- A date of fixed widths agrees with one of any widths. -/
theorem date_agrees {items others : Pattern} (h : Pattern.Agrees items others) :
    Pattern.Agrees
      (.digits 4 .year :: .oneOf ['-'] :: .digits 2 .month :: .oneOf ['-'] :: .digits 2 .day
        :: items)
      (dateOnly ++ others) := by
  apply Pattern.agrees_cons (Item.digits_agrees_number .year)
  apply Pattern.agrees_cons (Item.agrees_refl _)
  apply Pattern.agrees_cons (Item.digits_agrees_number .month)
  apply Pattern.agrees_cons (Item.agrees_refl _)
  exact Pattern.agrees_cons (Item.digits_agrees_number .day) h

/-- Minutes, seconds and an offset of fixed widths agree with those of any widths. -/
theorem clock_agrees :
    Pattern.Agrees
      [.oneOf [':'], .digits 2 .minute, .oneOf [':'], .digits 2 .second, .fraction, .zone]
      [.oneOf [':'], .number .minute, .oneOf [':'], .number .second, .fraction, .offset] := by
  apply Pattern.agrees_cons (Item.agrees_refl _)
  apply Pattern.agrees_cons (Item.digits_agrees_number .minute)
  apply Pattern.agrees_cons (Item.agrees_refl _)
  apply Pattern.agrees_cons (Item.digits_agrees_number .second)
  apply Pattern.agrees_cons (Item.agrees_refl _)
  exact Pattern.agrees_cons Item.zone_agrees_offset (Pattern.agrees_refl [])

/-- The patterns that read an offset. -/
def zonedPatterns : List Pattern :=
  [fixedWidth, seconds (.oneOf ['T']) ++ [.offset], seconds .blanks ++ [.offset]]

theorem pairwise_zonedPatterns : zonedPatterns.Pairwise Pattern.Agrees := by
  have hletter : Pattern.Agrees fixedWidth (seconds (.oneOf ['T']) ++ [.offset]) := by
    apply date_agrees
    apply Pattern.agrees_cons (Item.oneOf_agrees_oneOf _ _)
    exact Pattern.agrees_cons (Item.digits_agrees_number .hour) clock_agrees
  have hblanks : Pattern.Agrees fixedWidth (seconds .blanks ++ [.offset]) := by
    apply date_agrees
    exact Pattern.agrees_separator_blanks _ (by simp [Digit.ofChar?]) (by decide) clock_agrees
  have hapart : Pattern.Agrees (seconds (.oneOf ['T']) ++ [.offset])
      (seconds .blanks ++ [.offset]) :=
    Pattern.Agrees.append_left
      (Pattern.agrees_letter_blanks (by decide) (by decide) (by decide) _ _) dateOnly
  simp [zonedPatterns, hletter, hblanks, hapart]

/-- The times of day agree with each other.  The letter and the space keep two of them apart;
with seconds or without, the one needs a colon where the other ends. -/
theorem pairwise_timesOfDay : timesOfDay.Pairwise Pattern.Agrees := by
  have hapart : ∀ items others : Pattern,
      Pattern.Agrees (.oneOf ['T'] :: items) (.blanks :: .number .hour :: others) :=
    Pattern.agrees_letter_blanks (by decide) (by decide) (by decide)
  have hletter : ∀ items : Pattern, Pattern.Agrees [] (.oneOf ['T'] :: items) := fun items =>
    Pattern.agrees_nil_of_refuses (Pattern.refuses_nil_oneOf _ items)
  have hblanks : ∀ items : Pattern, Pattern.Agrees [] (.blanks :: .number .hour :: items) :=
    fun items => Pattern.agrees_nil_of_refuses (Pattern.refuses_nil_blanks (by decide) items)
  have hlonger : ∀ front items : Pattern,
      Pattern.Agrees (front ++ []) (front ++ .oneOf [':'] :: items) := fun front items =>
    (Pattern.agrees_nil_of_refuses (Pattern.refuses_nil_oneOf _ items)).append_left front
  simp only [timesOfDay, List.pairwise_cons, List.forall_mem_cons, List.not_mem_nil,
    false_implies, implies_true, and_true, List.Pairwise.nil]
  exact ⟨⟨hletter _, hblanks _, hletter _, hblanks _⟩,
    ⟨hapart _ _, hlonger [.oneOf ['T'], .number .hour, .oneOf [':'], .number .minute] _,
      hapart _ _⟩,
    ⟨(hapart _ _).symm, hlonger [.blanks, .number .hour, .oneOf [':'], .number .minute] _⟩,
    hapart _ _⟩

theorem mem_zonedPatterns {pattern : Pattern} (h : pattern ∈ patterns)
    (hzoned : ¬ IsLocal pattern) : pattern ∈ zonedPatterns := by
  revert pattern
  decide

/-- Any two patterns agree: where only one of them reads an offset, no text is accepted
by both. -/
theorem agrees_of_mem_patterns {pattern other : Pattern} (h : pattern ∈ patterns)
    (hother : other ∈ patterns) : Pattern.Agrees pattern other := by
  by_cases hlocal : IsLocal pattern
  · by_cases hotherLocal : IsLocal other
    · obtain ⟨time, htime, rfl⟩ := exists_timeOfDay h hlocal
      obtain ⟨timeOther, htimeOther, rfl⟩ := exists_timeOfDay hother hotherLocal
      exact (pairwise_timesOfDay.forall_of_forall (fun _ _ => Pattern.agrees_refl _) htime
        htimeOther).append_left dateOnly
    · intro fields text read readOther hread hreadOther
      rw [refuses_of_hasOffset h hlocal (hasOffset_of_read hother hotherLocal hreadOther)] at hread
      cases hread
  · by_cases hotherLocal : IsLocal other
    · intro fields text read readOther hread hreadOther
      rw [refuses_of_hasOffset hother hotherLocal (hasOffset_of_read h hlocal hread)]
        at hreadOther
      cases hreadOther
    · exact pairwise_zonedPatterns.forall_of_forall (fun _ _ => Pattern.agrees_refl _)
        (mem_zonedPatterns h hlocal) (mem_zonedPatterns hother hotherLocal)

/-- A pattern that accepts a text names its instant, whichever pattern it is. -/
theorem instant?_eq_of_mem_patterns {pattern : Pattern} (h : pattern ∈ patterns) {text : String}
    {instant : Instant} (hinstant : pattern.instant? text.toList = some instant) :
    instant? text = some instant := by
  cases hfirst : instant? text with
  | none =>
    rw [instant?, List.findSome?_eq_none_iff] at hfirst
    rw [hfirst pattern h] at hinstant
    cases hinstant
  | some first =>
    obtain ⟨other, hother, hread⟩ := List.exists_of_findSome?_eq_some hfirst
    rw [(agrees_of_mem_patterns h hother).instant?_eq hinstant hread]

/-- **One instant.**  All patterns that accept a text name the same instant, in whatever
order they are tried; and a pattern that reads no offset accepts no text with one at its
end. -/
theorem instant_of_any_pattern :
    (∀ text, ∀ pattern ∈ patterns, ∀ other ∈ patterns, ∀ instant later,
      pattern.instant? text = some instant → other.instant? text = some later →
        instant = later) ∧
    (∀ order : List Pattern, order.Perm patterns → ∀ text : String,
      (order.findSome? fun pattern => pattern.instant? text.toList) = instant? text) ∧
    ∀ text, HasOffset text → ∀ pattern ∈ patterns, IsLocal pattern →
      pattern.instant? text = none := by
  refine ⟨?_, ?_, ?_⟩
  · intro text pattern h other hother instant later hinstant hlater
    exact (agrees_of_mem_patterns h hother).instant?_eq hinstant hlater
  · intro order horder text
    cases hfirst : order.findSome? fun pattern => pattern.instant? text.toList with
    | none =>
      rw [List.findSome?_eq_none_iff] at hfirst
      rw [eq_comm, instant?, List.findSome?_eq_none_iff]
      intro pattern hpattern
      exact hfirst pattern (horder.mem_iff.mpr hpattern)
    | some instant =>
      obtain ⟨pattern, hpattern, hinstant⟩ := List.exists_of_findSome?_eq_some hfirst
      exact (instant?_eq_of_mem_patterns (horder.mem_iff.mp hpattern) hinstant).symm
  · intro text hoffset pattern h hlocal
    exact (refuses_of_hasOffset h hlocal hoffset).instant?

/-- A text with an offset that two patterns accept. -/
theorem instant_of_any_pattern_ahead :
    fixedWidth ∈ patterns ∧ seconds .blanks ++ [.offset] ∈ patterns ∧
      fixedWidth.instant? "2024-03-01 14:30:00.5+02:00".toList =
        some ⟨1709296200, 500000000⟩ ∧
      Pattern.instant? (seconds .blanks ++ [.offset]) "2024-03-01 14:30:00.5+02:00".toList =
        some ⟨1709296200, 500000000⟩ ∧
      (patterns.reverse.findSome? fun pattern =>
          pattern.instant? "2024-03-01 14:30:00.5+02:00".toList) =
        instant? "2024-03-01 14:30:00.5+02:00" ∧
      HasOffset "2024-03-01 14:30:00.5+02:00".toList ∧
      (seconds .blanks).instant? "2024-03-01 14:30:00.5+02:00".toList = none := by
  obtain ⟨hsame, horder, hlocal⟩ := instant_of_any_pattern
  have hoffset : HasOffset "2024-03-01 14:30:00.5+02:00".toList :=
    ⟨"2024-03-01 14:30:00.5".toList, "+02:00".toList,
      .numeric '+' (by decide) [0, 2] [0, 0] rfl rfl [':'] (by simp), by decide⟩
  have hfixed : fixedWidth.instant? "2024-03-01 14:30:00.5+02:00".toList =
      some ⟨1709296200, 500000000⟩ := by decide +kernel
  obtain ⟨later, hlater⟩ : ∃ later, Pattern.instant? (seconds .blanks ++ [.offset])
      "2024-03-01 14:30:00.5+02:00".toList = some later :=
    ⟨⟨1709296200, 500000000⟩, by decide +kernel⟩
  have heq := hsame _ _ (by decide) _ (by decide) _ _ hfixed hlater
  exact ⟨by decide, by decide, hfixed, by rw [hlater, heq], horder _ (List.reverse_perm _) _,
    hoffset, hlocal _ hoffset _ (by decide) (by decide)⟩

end Timestamp

end GoldenFixtures.Transcript
