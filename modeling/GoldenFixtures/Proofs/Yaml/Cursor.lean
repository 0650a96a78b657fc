import Mathlib.Data.List.Induction
import Mathlib.Data.List.TakeWhile
import GoldenFixtures.Yaml.Cursor

/-!
# Cursors that pass text

`Cursor.Passes` says that a cursor stands behind some text from where another one stood.
It keeps what the scan asks of a place: its bytes, whether its line is still the same one,
and whether it stands at the start of a line.
-/

namespace GoldenFixtures

theorem Text.byteCount_append (text more : List Char) :
    byteCount (text ++ more) = byteCount text + byteCount more := by
  have hfold : ∀ (n : Nat), more.foldl (fun n c => n + c.utf8Size) n = n + byteCount more := by
    unfold byteCount
    induction more with
    | nil => exact fun n => rfl
    | cons c more ih =>
      intro n
      rw [List.foldl_cons, List.foldl_cons, ih, ih (0 + c.utf8Size), Nat.zero_add, Nat.add_assoc]
  rw [byteCount, List.foldl_append, hfold]
  rfl

namespace Yaml

/-! ## White space -/

theorem isBreak_of_isBlank {c : Char} (h : isBlank c = true) : isBreak c = false := by
  rw [isBlank, Bool.or_eq_true, beq_iff_eq, beq_iff_eq] at h
  rcases h with rfl | rfl <;> rfl

theorem isWhite_of_isBreak {c : Char} (h : isBreak c = true) : isWhite c = true := by
  rw [isWhite, h, Bool.or_true]

/-- A run of white space has line ends exactly if one of its characters is one. -/
theorem lineBreaks_eq_nil_iff {white : List Char} :
    lineBreaks white = [] ↔ ∀ c ∈ white, isBreak c = false := by
  induction white using lineBreaks.induct with
  | case1 => simp [lineBreaks]
  | case2 rest ih =>
    have hbreak : isBreak '\r' = true := rfl
    simp [lineBreaks, hbreak]
  | case3 c rest hline hseparator ih =>
    have hbreak : isBreak c = true := by
      rw [Bool.or_eq_true, beq_iff_eq, beq_iff_eq] at hseparator
      rcases hseparator with rfl | rfl <;> rfl
    rw [lineBreaks.eq_3 _ _ hline, if_pos hseparator]
    simp [hbreak]
  | case4 c rest hline hseparator hbreak ih =>
    rw [lineBreaks.eq_3 _ _ hline, if_neg hseparator, if_pos hbreak]
    simp [hbreak]
  | case5 c rest hline hseparator hbreak ih =>
    rw [lineBreaks.eq_3 _ _ hline, if_neg hseparator, if_neg hbreak, ih, List.forall_mem_cons]
    simp [hbreak]

@[simp] theorem fold_nil : fold [] = [] := rfl

/-- The last line of white space is empty exactly if there is no blank at its end. -/
theorem lastLine_append_eq_nil_iff (white : List Char) (c : Char) :
    lastLine (white ++ [c]) = [] ↔ isBlank c = false := by
  rw [lastLine, List.reverse_append, List.reverse_singleton, List.singleton_append]
  cases hc : isBlank c <;> simp [hc]

/-! ## Passing text -/

/-- A cursor stands behind some text from another one. -/
structure Cursor.Passes (used : List Char) (cursor after : Cursor) : Prop where
  rest : cursor.rest = used ++ after.rest
  index : after.index = cursor.index + Text.byteCount used
  line_le : cursor.line ≤ after.line
  line_eq_iff : after.line = cursor.line ↔ ∀ c ∈ used, isBreak c = false
  column_eq_zero_iff :
    after.column = 0 ↔
      match used.getLast? with
      | none => cursor.column = 0
      | some c => isBreak c = true

namespace Cursor.Passes

theorem refl (cursor : Cursor) : Passes [] cursor cursor :=
  ⟨rfl, rfl, Nat.le_refl _, by simp, Iff.rfl⟩

theorem trans {used more : List Char} {cursor middle after : Cursor}
    (h : Passes used cursor middle) (hmore : Passes more middle after) :
    Passes (used ++ more) cursor after where
  rest := by rw [h.rest, hmore.rest, List.append_assoc]
  index := by rw [hmore.index, h.index, Text.byteCount_append, Nat.add_assoc]
  line_le := Nat.le_trans h.line_le hmore.line_le
  line_eq_iff := by
    have hle := h.line_le
    have hmoreLe := hmore.line_le
    rw [List.forall_mem_append, ← h.line_eq_iff, ← hmore.line_eq_iff]
    omega
  column_eq_zero_iff := by
    rw [hmore.column_eq_zero_iff]
    cases more using List.reverseRecOn with
    | nil => simpa using h.column_eq_zero_iff
    | append_singleton more c => simp [← List.append_assoc]

theorem length_eq {used : List Char} {cursor after : Cursor} (h : Passes used cursor after) :
    cursor.rest.length = used.length + after.rest.length := by
  rw [h.rest, List.length_append]

end Cursor.Passes

namespace Cursor

/-- Some cursor stands behind any text that there is. -/
theorem exists_passes {cursor : Cursor} {used left : List Char}
    (hrest : cursor.rest = used ++ left) : ∃ after, Passes used cursor after := by
  refine ⟨⟨left, cursor.index + Text.byteCount used,
    if ∀ c ∈ used, isBreak c = false then cursor.line else cursor.line + 1,
    match used.getLast? with
    | none => cursor.column
    | some c => if isBreak c = true then 0 else 1⟩, hrest, rfl, ?_, ?_, ?_⟩
  · simp only
    split <;> omega
  · by_cases h : ∀ c ∈ used, isBreak c = false
    · simpa only [if_pos h, true_iff] using h
    · simp [h]
  · simp only
    split <;> simp

theorem passes_skip {cursor : Cursor} {used left : List Char} (hrest : cursor.rest = used ++ left)
    (hbreak : ∀ c ∈ used, isBreak c = false) : Passes used cursor (cursor.skip used.length) where
  rest := by simp [skip, hrest]
  index := by simp [skip, hrest]
  line_le := Nat.le_refl _
  line_eq_iff := by simpa [skip] using hbreak
  column_eq_zero_iff := by
    cases used using List.reverseRecOn with
    | nil => simp [skip]
    | append_singleton used c => simpa [skip] using hbreak c (by simp)

theorem rest_skip {cursor : Cursor} {used left : List Char} (hrest : cursor.rest = used ++ left) :
    (cursor.skip used.length).rest = left := by
  simp [skip, hrest]

/-- A line end is passed: a carriage return with a line feed, or one character. -/
theorem exists_passes_skipBreak {cursor : Cursor} {c : Char} {left : List Char}
    (hrest : cursor.rest = c :: left) (hbreak : isBreak c = true) :
    ∃ more, Passes (c :: more) cursor cursor.skipBreak ∧ ∀ d ∈ more, isBreak d = true := by
  unfold skipBreak
  split
  · rename_i rest hreturn
    rw [hreturn] at hrest
    obtain ⟨rfl, rfl⟩ := List.cons.inj hrest
    have hbreaks : isBreak '\r' = true := rfl
    exact ⟨['\n'], ⟨hreturn, rfl, Nat.le_succ _, by simp [hbreaks], by simp; rfl⟩, by simp; rfl⟩
  · rename_i d rest _ hcons
    rw [hcons] at hrest
    obtain ⟨rfl, rfl⟩ := List.cons.inj hrest
    rw [if_pos hbreak]
    exact ⟨[], ⟨hcons, by simp [Text.byteCount], Nat.le_succ _, by simp [hbreak],
      by simp [hbreak]⟩, by simp⟩
  · rename_i hnil
    rw [hnil] at hrest
    cases hrest

theorem isWhite_of_mem_white {cursor : Cursor} {c : Char} (h : c ∈ cursor.white) :
    isWhite c = true :=
  List.mem_takeWhile_imp h

theorem passes_skipWhite (cursor : Cursor) : Passes cursor.white cursor cursor.skipWhite where
  rest := by
    have hdrop : cursor.rest.drop cursor.white.length = cursor.rest.dropWhile isWhite := by
      conv => lhs; arg 2; rw [← List.takeWhile_append_dropWhile (p := isWhite) (l := cursor.rest)]
      exact List.drop_left
    change cursor.rest = cursor.white ++ cursor.rest.drop cursor.white.length
    rw [hdrop, white, List.takeWhile_append_dropWhile]
  index := rfl
  line_le := Nat.le_add_right _ _
  line_eq_iff := by
    rw [← lineBreaks_eq_nil_iff, ← List.length_eq_zero_iff]
    simp [skipWhite]
  column_eq_zero_iff := by
    have hwhite : ∀ c ∈ cursor.white, isWhite c = true := fun c => isWhite_of_mem_white
    simp only [skipWhite]
    cases h : cursor.white using List.reverseRecOn with
    | nil => simp [lineBreaks]
    | append_singleton white c =>
      rw [h] at hwhite
      have hc : isWhite c = true := hwhite c (by simp)
      rw [List.getLast?_concat]
      split
      · rename_i hbreaks
        have hbreak := lineBreaks_eq_nil_iff.mp (List.length_eq_zero_iff.mp hbreaks) c (by simp)
        simp [hbreak]
      · rw [List.length_eq_zero_iff, lastLine_append_eq_nil_iff]
        refine ⟨fun hblank => ?_, fun hbreak => ?_⟩
        · rwa [isWhite, hblank, Bool.false_or] at hc
        · exact Bool.eq_false_iff.mpr fun hblank => by simp [isBreak_of_isBlank hblank] at hbreak

end Cursor

end Yaml

end GoldenFixtures
