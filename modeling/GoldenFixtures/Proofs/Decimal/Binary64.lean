import Mathlib.Algebra.Order.Field.Rat
import Mathlib.Algebra.Order.Field.Power
import Mathlib.Tactic.Linarith
import Mathlib.Tactic.Ring
import GoldenFixtures.Decimal.Binary64

/-!
# Binary numbers as rational numbers

A magnitude stands for a rational number (`Magnitude.toRat`), also with a sign
(`Magnitude.signedRat`).  Its comparison with a ratio is that of the rational numbers
(`Magnitude.atMost_eq_true_iff`).  A ratio that is not near the greatest number of the
format has a nearest number (`Magnitude.exists_ofRatio`), which differs from it by half a
unit of the last place at most (`Magnitude.abs_toRat_sub_le`).
-/

namespace GoldenFixtures.Binary64

/-- The exponent found for a ratio is not much more than that of a power of two
above it. -/
theorem exponentOf_le {num den bits : Nat} (hnum : num ≠ 0) (h : num ≤ Nat.pow 2 bits * den) :
    exponentOf num den ≤ max minExponent (bits - 52) := by
  have hless : num < 2 ^ (bits + (den.log2 + 1)) := by
    calc num ≤ 2 ^ bits * den := h
      _ < 2 ^ bits * 2 ^ (den.log2 + 1) :=
        Nat.mul_lt_mul_of_pos_left Nat.lt_log2_self (Nat.two_pow_pos bits)
      _ = 2 ^ (bits + (den.log2 + 1)) := (Nat.pow_add 2 bits (den.log2 + 1)).symm
  have hlog : num.log2 < bits + (den.log2 + 1) := (Nat.log2_lt hnum).mpr hless
  unfold exponentOf
  simp only
  split <;> omega

/-! ## Rounding -/

/-- A natural number is near to a ratio if it is when both are multiplied out. -/
theorem abs_sub_div_le_half {num den rounded : Nat} (hden : 0 < den)
    (hbelow : 2 * num ≤ (2 * rounded + 1) * den) (habove : 2 * rounded * den ≤ 2 * num + den) :
    |(rounded : ℚ) - num / den| ≤ 1 / 2 := by
  have hpos : (0 : ℚ) < den := Nat.cast_pos.mpr hden
  have hbelow' : 2 * (num : ℚ) ≤ (2 * rounded + 1) * den := mod_cast hbelow
  have habove' : 2 * (rounded : ℚ) * den ≤ 2 * num + den := mod_cast habove
  have hupper : (num : ℚ) / den ≤ rounded + 1 / 2 := by
    rw [div_le_iff₀ hpos]
    linarith
  have hlower : (rounded : ℚ) - 1 / 2 ≤ num / den := by
    rw [le_div_iff₀ hpos]
    linarith
  rw [abs_sub_le_iff]
  constructor
  · linarith
  · linarith

theorem abs_roundToEven_sub_le (num : Nat) {den : Nat} (hden : 0 < den) :
    |(roundToEven num den : ℚ) - num / den| ≤ 1 / 2 := by
  have hsplit := Nat.div_add_mod num den
  have hrest := Nat.mod_lt num hden
  unfold roundToEven
  simp only
  split
  · rename_i hup
    have hhalf : den ≤ 2 * (num % den) := by omega
    apply abs_sub_div_le_half hden
    · linarith
    · linarith
  · rename_i hdown
    have hzero := Nat.zero_le (num % den)
    have hhalf : 2 * (num % den) ≤ den := by omega
    apply abs_sub_div_le_half hden
    · linarith
    · linarith

theorem abs_roundHalfUp_sub_le (num : Nat) {den : Nat} (hden : 0 < den) :
    |(roundHalfUp num den : ℚ) - num / den| ≤ 1 / 2 := by
  have hsplit := Nat.div_add_mod (2 * num + den) (2 * den)
  have hrest := Nat.mod_lt (2 * num + den) (Nat.mul_pos two_pos hden)
  have hzero := Nat.zero_le ((2 * num + den) % (2 * den))
  unfold roundHalfUp
  apply abs_sub_div_le_half hden
  · linarith
  · linarith

theorem scale_snd_pos (num : Nat) {den : Nat} (hden : 0 < den) (exponent : Int) :
    0 < (scale num den exponent).2 := by
  unfold scale
  split
  · exact hden
  · exact Nat.mul_pos hden (Nat.two_pow_pos _)

theorem scale_div (num den : Nat) (exponent : Int) :
    ((scale num den exponent).1 : ℚ) / (scale num den exponent).2 =
      num / den / 2 ^ exponent := by
  rcases Int.eq_nat_or_neg exponent with ⟨n, rfl | rfl⟩
  · have hpos : ¬ (n : Int) < 0 := Int.not_lt.mpr (Int.natCast_nonneg n)
    simp [scale, hpos, div_div]
  · rcases Nat.eq_zero_or_pos n with rfl | hpos
    · simp [scale]
    · simp [scale, hpos, mul_div_right_comm]

namespace Magnitude

/-- The rational number that a magnitude stands for. -/
def toRat (m : Magnitude) : ℚ := m.significand * 2 ^ m.exponent

theorem ratio_snd_pos (m : Magnitude) : 0 < m.ratio.2 := by
  unfold ratio
  split
  · exact Nat.two_pow_pos _
  · exact Nat.one_pos

theorem toRat_eq_div (m : Magnitude) : m.toRat = m.ratio.1 / m.ratio.2 := by
  obtain ⟨significand, exponent⟩ := m
  rcases Int.eq_nat_or_neg exponent with ⟨n, rfl | rfl⟩
  · have hpos : ¬ (n : Int) < 0 := Int.not_lt.mpr (Int.natCast_nonneg n)
    simp [toRat, ratio, hpos]
  · rcases Nat.eq_zero_or_pos n with rfl | hpos
    · simp [toRat, ratio]
    · simp [toRat, ratio, hpos, div_eq_mul_inv]

theorem toRat_nonneg (m : Magnitude) : 0 ≤ m.toRat :=
  mul_nonneg (Nat.cast_nonneg _) (zpow_nonneg zero_le_two _)

theorem toRat_eq_zero_iff (m : Magnitude) : m.toRat = 0 ↔ m.significand = 0 := by
  have hpow : (2 : ℚ) ^ m.exponent ≠ 0 := zpow_ne_zero _ two_ne_zero
  unfold toRat
  rw [mul_eq_zero_iff_right hpow, Nat.cast_eq_zero]

/-- The rational number of a magnitude with a sign. -/
def signedRat (negative : Bool) (m : Magnitude) : ℚ := if negative then -m.toRat else m.toRat

/-- A number is not below zero exactly if it has no sign or is zero. -/
theorem signedRat_nonneg_iff (negative : Bool) (m : Magnitude) :
    0 ≤ signedRat negative m ↔ (negative && m.significand != 0) = false := by
  unfold signedRat
  cases negative with
  | false => simp [m.toRat_nonneg]
  | true =>
    rw [if_pos rfl, Left.nonneg_neg_iff, m.toRat_nonneg.ge_iff_eq', m.toRat_eq_zero_iff]
    simp

theorem signedRat_of_nonneg {negative : Bool} {m : Magnitude} (h : 0 ≤ signedRat negative m) :
    signedRat negative m = m.toRat := by
  cases negative with
  | false => rfl
  | true =>
    have hzero : m.toRat = 0 := le_antisymm (Left.nonneg_neg_iff.mp h) m.toRat_nonneg
    rw [signedRat, if_pos rfl, hzero, neg_zero]

/-- A magnitude is at most a ratio exactly if its number is. -/
theorem atMost_eq_true_iff {m : Magnitude} {num den : Nat} (hden : 0 < den) :
    m.atMost num den = true ↔ m.toRat ≤ (num : ℚ) / den := by
  have hleft : (0 : ℚ) < m.ratio.2 := Nat.cast_pos.mpr m.ratio_snd_pos
  have hright : (0 : ℚ) < den := Nat.cast_pos.mpr hden
  rw [toRat_eq_div, div_le_div_iff₀ hleft hright, atMost, decide_eq_true_eq]
  exact_mod_cast Iff.rfl

/-- A ratio below a power of two in the format's range has a nearest number. -/
theorem exists_ofRatio {num den bits : Nat} (h : num ≤ Nat.pow 2 bits * den)
    (hbits : bits ≤ 1000) : ∃ m, ofRatio num den = some m := by
  by_cases hnum : num = 0
  · exact ⟨zero, if_pos hnum⟩
  · have hexponent := exponentOf_le hnum h
    have hmin : minExponent = -1074 := rfl
    have hmax : maxExponent = 971 := rfl
    unfold ofRatio
    rw [if_neg hnum]
    refine ⟨_, if_pos ?_⟩
    split
    · simp only
      omega
    · simp only
      omega

/-- The thousandfold of a number up to one and a half is far below the greatest number. -/
theorem mul_thousand_le {m : Magnitude} (h : m.atMost 3 2 = true) :
    m.ratio.1 * 1000 ≤ Nat.pow 2 11 * m.ratio.2 := by
  rw [atMost, decide_eq_true_eq] at h
  have hpow : Nat.pow 2 11 = 2048 := rfl
  rw [hpow]
  omega

/-- A number up to one and a half has a nearest number to its thousandfold. -/
theorem exists_scaleBy {m : Magnitude} (h : m.atMost 3 2 = true) :
    ∃ scaled, m.scaleBy 1000 = some scaled :=
  exists_ofRatio (mul_thousand_le h) (by decide)

/-- A number that is found for a ratio is the ratio in units of the last place, rounded;
where it is rounded up to the next power of two, the unit doubles. -/
theorem toRat_of_ofRatio {num den : Nat} {m : Magnitude} (hnum : num ≠ 0)
    (h : ofRatio num den = some m) :
    m.toRat = roundToEven (scale num den (exponentOf num den)).1
      (scale num den (exponentOf num den)).2 * 2 ^ exponentOf num den := by
  unfold ofRatio at h
  rw [if_neg hnum] at h
  obtain ⟨-, hm⟩ := Option.ite_none_right_eq_some.mp h
  rw [← Option.some.inj hm]
  split
  · rename_i hdoubled
    rw [toRat, zpow_add_one₀ two_ne_zero, hdoubled, Nat.cast_mul, Nat.cast_ofNat]
    ring
  · rfl

/-- The number that is found for a ratio differs from it by half a unit of the last place
at most, and that unit is small if the ratio is. -/
theorem abs_toRat_sub_le {num den bits : Nat} {m : Magnitude} (hden : 0 < den)
    (h : ofRatio num den = some m) (hbound : num ≤ Nat.pow 2 bits * den) :
    |m.toRat - num / den| ≤ 2 ^ (max minExponent (bits - 52)) / 2 := by
  by_cases hnum : num = 0
  · rw [ofRatio, if_pos hnum] at h
    cases h
    have hpow : (0 : ℚ) < 2 ^ (max minExponent (bits - 52)) := zpow_pos two_pos _
    simp only [hnum, zero, toRat, Nat.cast_zero, zero_mul, zero_div, sub_zero, abs_zero]
    linarith
  · have hexponent := exponentOf_le hnum hbound
    have hrat := toRat_of_ofRatio hnum h
    have hround := abs_roundToEven_sub_le (scale num den (exponentOf num den)).1
      (scale_snd_pos num hden (exponentOf num den))
    rw [scale_div] at hround
    generalize exponentOf num den = exponent at hexponent hrat hround
    have hpow : (0 : ℚ) < 2 ^ exponent := zpow_pos two_pos _
    have hsplit : m.toRat - num / den =
        (m.toRat / 2 ^ exponent - num / den / 2 ^ exponent) * 2 ^ exponent := by
      rw [sub_mul, div_mul_cancel₀ _ hpow.ne', div_mul_cancel₀ _ hpow.ne']
    have hunits : |m.toRat / 2 ^ exponent - num / den / 2 ^ exponent| ≤ 1 / 2 := by
      rwa [hrat, mul_div_cancel_right₀ _ hpow.ne']
    calc |m.toRat - num / den|
        = |m.toRat / 2 ^ exponent - num / den / 2 ^ exponent| * 2 ^ exponent := by
          rw [hsplit, abs_mul, abs_of_pos hpow]
      _ ≤ 1 / 2 * 2 ^ exponent := mul_le_mul_of_nonneg_right hunits hpow.le
      _ ≤ 1 / 2 * 2 ^ (max minExponent (bits - 52)) :=
          mul_le_mul_of_nonneg_left (zpow_le_zpow_right₀ one_le_two hexponent) (by norm_num)
      _ = 2 ^ (max minExponent (bits - 52)) / 2 := by ring

end Magnitude

end GoldenFixtures.Binary64
