import Mathlib.Data.List.Basic
import GoldenFixtures.Text.Lines
import GoldenFixtures.Text.Utf8

/-!
# Lines and their bytes

A text and its bytes determine each other (`decode?_encode`), and a line feed in
the bytes is a line feed of the text (`mem_encode_newline_iff`).

Bytes are cut at their line feeds: lines with their line feeds in front of a
rest are the lines of the whole (`byteLines_terminated_append`), and wherever
one line is picked out, the bytes are those of the lines in front of it, the
line, and what follows (`exists_of_byteLines_eq`).
-/

namespace GoldenFixtures.Text

/-! ## UTF-8 -/

theorem encode_eq_flatMap (text : List Char) :
    encode text = text.flatMap String.utf8EncodeChar := by
  unfold encode
  rw [String.toUTF8_eq_toByteArray]
  simp [List.utf8Encode]

@[simp] theorem encode_append (text other : List Char) :
    encode (text ++ other) = encode text ++ encode other := by
  simp only [encode_eq_flatMap, List.flatMap_append]

/-- The bytes of a text are read as that text. -/
theorem decode?_encode (text : List Char) : decode? (encode text) = some text := by
  have hvalid : (String.ofList text).toUTF8.IsValidUTF8 := (String.ofList text).isValidUTF8
  have hread : String.fromUTF8? (String.ofList text).toUTF8 = some (String.ofList text) :=
    dif_pos hvalid
  unfold decode? encode
  rw [Array.toArray_toList, hread, Option.map_some, String.toList_ofList]

theorem encode_injective : Function.Injective encode := by
  intro text other h
  have hread := decode?_encode text
  rw [h, decode?_encode] at hread
  exact (Option.some.inj hread).symm

/-- The bytes that are read as a text are those of the text. -/
theorem decode?_eq_some_iff {bytes : List UInt8} {text : List Char} :
    decode? bytes = some text ↔ bytes = encode text := by
  constructor
  · intro h
    unfold decode? at h
    obtain ⟨string, hstring, rfl⟩ := Option.map_eq_some_iff.mp h
    unfold String.fromUTF8? at hstring
    split at hstring
    · cases hstring
      unfold encode
      rw [String.ofList_toList]
      rfl
    · exact nomatch hstring
  · intro h
    rw [h, decode?_encode]

/-- Only the line feed is written with the byte of the line feed, since every byte of a
longer form is at least 128. -/
theorem mem_utf8EncodeChar_newline_iff (c : Char) :
    10 ∈ String.utf8EncodeChar c ↔ c = '\n' := by
  constructor
  · intro h
    have hbyte : ∀ n, (10 : UInt8) = UInt8.ofNat n → n % 256 = 10 := by
      intro n hn
      have htoNat := congrArg UInt8.toNat hn
      rw [UInt8.toNat_ofNat'] at htoNat
      exact htoNat.symm
    have hcode : c.val.toNat = 10 := by
      simp only [String.utf8EncodeChar] at h
      split_ifs at h
      · have hc := hbyte _ (List.mem_singleton.mp h)
        omega
      · simp only [List.mem_cons, List.not_mem_nil, or_false] at h
        rcases h with h | h <;> (have hc := hbyte _ h; omega)
      · simp only [List.mem_cons, List.not_mem_nil, or_false] at h
        rcases h with h | h | h <;> (have hc := hbyte _ h; omega)
      · simp only [List.mem_cons, List.not_mem_nil, or_false] at h
        rcases h with h | h | h | h <;> (have hc := hbyte _ h; omega)
    exact Char.ext (UInt32.toNat_inj.mp hcode)
  · rintro rfl
    decide

theorem mem_encode_newline_iff {text : List Char} : 10 ∈ encode text ↔ '\n' ∈ text := by
  rw [encode_eq_flatMap, List.mem_flatMap]
  constructor
  · rintro ⟨c, hc, hbyte⟩
    rw [← (mem_utf8EncodeChar_newline_iff c).mp hbyte]
    exact hc
  · intro h
    exact ⟨'\n', h, (mem_utf8EncodeChar_newline_iff '\n').mpr rfl⟩

@[simp] theorem encode_newline : encode ['\n'] = [10] := by
  rw [encode_eq_flatMap]
  rfl

/-! ## Lines -/

/-- Lines, each with its line feed. -/
def terminated (lines : List (List UInt8)) : List UInt8 := lines.flatMap fun line => line ++ [10]

@[simp] theorem terminated_nil : terminated [] = [] := rfl

@[simp] theorem terminated_cons (line : List UInt8) (lines : List (List UInt8)) :
    terminated (line :: lines) = line ++ 10 :: terminated lines := by
  simp [terminated]

theorem byteLines_append_newline {line : List UInt8} (h : 10 ∉ line) (rest : List UInt8) :
    byteLines (line ++ 10 :: rest) = line :: byteLines rest := by
  induction line with
  | nil => simp [byteLines]
  | cons b line ih =>
    rw [List.mem_cons, not_or] at h
    rw [List.cons_append, byteLines, if_neg (Ne.symm h.1), ih h.2]

/-- Bytes without a line feed are one line, unless there are none. -/
theorem byteLines_of_notMem {line : List UInt8} (h : 10 ∉ line) (hne : line ≠ []) :
    byteLines line = [line] := by
  induction line with
  | nil => exact absurd rfl hne
  | cons b line ih =>
    rw [List.mem_cons, not_or] at h
    rw [byteLines, if_neg (Ne.symm h.1)]
    cases line with
    | nil => rfl
    | cons c line => rw [ih h.2 (List.cons_ne_nil c line)]

/-- Lines with their line feeds are the first lines of the whole. -/
theorem byteLines_terminated_append {lines : List (List UInt8)} (h : ∀ line ∈ lines, 10 ∉ line)
    (rest : List UInt8) : byteLines (terminated lines ++ rest) = lines ++ byteLines rest := by
  induction lines with
  | nil => rfl
  | cons line lines ih =>
    rw [List.forall_mem_cons] at h
    rw [terminated_cons, List.append_assoc, List.cons_append, byteLines_append_newline h.1,
      ih h.2, List.cons_append]

/-- Bytes are a line that ends with them, or a line with its line feed and
more bytes; or there are none. -/
theorem line_cases (bytes : List UInt8) :
    bytes = [] ∨ (10 ∉ bytes ∧ bytes ≠ [] ∧ byteLines bytes = [bytes]) ∨
      ∃ line rest, bytes = line ++ 10 :: rest ∧ 10 ∉ line ∧
        byteLines bytes = line :: byteLines rest := by
  by_cases hmem : (10 : UInt8) ∈ bytes
  · obtain ⟨line, rest, rfl, hline⟩ := List.eq_append_cons_of_mem hmem
    exact Or.inr (Or.inr ⟨line, rest, rfl, hline, byteLines_append_newline hline rest⟩)
  · by_cases hne : bytes = []
    · exact Or.inl hne
    · exact Or.inr (Or.inl ⟨hmem, hne, byteLines_of_notMem hmem hne⟩)

/-- The bytes around one of their lines: the lines in front of it with their line
feeds, the line, and either nothing or a line feed and the bytes of the lines
behind it. -/
theorem exists_of_byteLines_eq {bytes : List UInt8} {earlier later : List (List UInt8)}
    {line : List UInt8} (h : byteLines bytes = earlier ++ line :: later) :
    ∃ back, bytes = terminated earlier ++ (line ++ back) ∧
      (∀ front ∈ earlier, 10 ∉ front) ∧ 10 ∉ line ∧
      (back = [] ∧ later = [] ∨ ∃ rest, back = 10 :: rest ∧ later = byteLines rest) := by
  induction earlier generalizing bytes with
  | nil =>
    rcases line_cases bytes with rfl | ⟨hmem, _, hone⟩ | ⟨first, rest, rfl, hmem, hmore⟩
    · exact nomatch h
    · rw [hone, List.nil_append, List.cons.injEq] at h
      obtain ⟨rfl, rfl⟩ := h
      exact ⟨[], by simp, by simp, hmem, Or.inl ⟨rfl, rfl⟩⟩
    · rw [hmore, List.nil_append, List.cons.injEq] at h
      obtain ⟨rfl, rfl⟩ := h
      exact ⟨10 :: rest, by simp, by simp, hmem, Or.inr ⟨rest, rfl, rfl⟩⟩
  | cons front earlier ih =>
    rcases line_cases bytes with rfl | ⟨_, _, hone⟩ | ⟨first, rest, rfl, hmem, hmore⟩
    · exact nomatch h
    · rw [hone, List.cons_append, List.cons.injEq] at h
      exact absurd h.2.symm (by simp)
    · rw [hmore, List.cons_append, List.cons.injEq] at h
      obtain ⟨rfl, hrest⟩ := h
      obtain ⟨back, rfl, hfront, hline, hback⟩ := ih hrest
      exact ⟨back, by simp, List.forall_mem_cons.mpr ⟨hmem, hfront⟩, hline, hback⟩

end GoldenFixtures.Text
