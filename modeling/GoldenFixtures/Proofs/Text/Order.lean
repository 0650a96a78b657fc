import Mathlib.Tactic.SplitIfs
import GoldenFixtures.Proofs.Text.Lines

/-!
# Texts in the order of their bytes

Texts compare by their first different character, and their UTF-8 forms by the
first different byte.  The two orders agree (`encode_lt_encode`): the form of a
greater character is longer, and then its first byte is greater, or it is as
long, and then its bytes are the digits of a greater number.
-/

namespace GoldenFixtures.Text

/-- Bytes are in order if the first ones are, or if these are the same and the
others are in order. -/
theorem byte_cons_lt {m n : Nat} {bytes others : List UInt8} (hm : m < 256) (hn : n < 256)
    (hle : m ≤ n) (h : m = n → bytes < others) :
    UInt8.ofNat m :: bytes < UInt8.ofNat n :: others := by
  rw [List.cons_lt_cons_iff, UInt8.lt_iff_toNat_lt, UInt8.toNat_ofNat', UInt8.toNat_ofNat',
    Nat.mod_eq_of_lt hm, Nat.mod_eq_of_lt hn]
  rcases Nat.lt_or_eq_of_le hle with hlt | heq
  · exact Or.inl hlt
  · exact Or.inr ⟨congrArg UInt8.ofNat heq, h heq⟩

/-- The form of a character precedes those of greater characters, whatever
follows.  The forms have one to four bytes.  If that of the greater character is longer, its
first byte is greater; if they are as long, any byte may be the first one that differs. -/
theorem utf8EncodeChar_append_lt {c d : Char} (h : c < d) (bytes others : List UInt8) :
    String.utf8EncodeChar c ++ bytes < String.utf8EncodeChar d ++ others := by
  have hcodes : c.val.toNat < d.val.toNat := h
  have hlast : d.val.toNat < 0x110000 := by
    have hvalid := d.valid
    unfold UInt32.isValidChar Nat.isValidChar at hvalid
    omega
  simp only [String.utf8EncodeChar]
  split_ifs
  · exact byte_cons_lt (by omega) (by omega) (by omega) (by omega)
  · exact byte_cons_lt (by omega) (by omega) (by omega) (by omega)
  · exact byte_cons_lt (by omega) (by omega) (by omega) (by omega)
  · exact byte_cons_lt (by omega) (by omega) (by omega) (by omega)
  · omega
  · refine byte_cons_lt (by omega) (by omega) (by omega) fun _ => ?_
    exact byte_cons_lt (by omega) (by omega) (by omega) (by omega)
  · exact byte_cons_lt (by omega) (by omega) (by omega) (by omega)
  · exact byte_cons_lt (by omega) (by omega) (by omega) (by omega)
  · omega
  · omega
  · refine byte_cons_lt (by omega) (by omega) (by omega) fun _ => ?_
    refine byte_cons_lt (by omega) (by omega) (by omega) fun _ => ?_
    exact byte_cons_lt (by omega) (by omega) (by omega) (by omega)
  · exact byte_cons_lt (by omega) (by omega) (by omega) (by omega)
  · omega
  · omega
  · omega
  · refine byte_cons_lt (by omega) (by omega) (by omega) fun _ => ?_
    refine byte_cons_lt (by omega) (by omega) (by omega) fun _ => ?_
    refine byte_cons_lt (by omega) (by omega) (by omega) fun _ => ?_
    exact byte_cons_lt (by omega) (by omega) (by omega) (by omega)

/-- Texts in order have their bytes in order. -/
theorem encode_lt_encode {text other : List Char} (h : text < other) :
    encode text < encode other := by
  rw [encode_eq_flatMap, encode_eq_flatMap]
  induction h with
  | @nil c text =>
    rw [List.flatMap_nil, List.flatMap_cons]
    obtain ⟨b, bytes, hform⟩ := List.exists_cons_of_ne_nil (String.utf8EncodeChar_ne_nil (c := c))
    rw [hform, List.cons_append]
    exact List.nil_lt_cons b _
  | rel h => exact utf8EncodeChar_append_lt h _ _
  | cons _ ih => exact List.append_left_lt ih

end GoldenFixtures.Text
