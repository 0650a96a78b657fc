import Mathlib.Algebra.Order.Field.Basic
import GoldenFixtures.Archive.Record
import GoldenFixtures.Proofs.Decimal.Binary64

/-!
# Ratios to three decimals

A ratio is multiplied by a thousand as a binary number and rounded to a natural number.
Both steps round, and `abs_thousandths_sub_le` bounds what they change together: half a
thousandth, and the little that the product is off.  So a ratio that is near to a number
of thousandths is taken for it (`thousandths_eq_of_near`), as the binary number nearest to
a decimal number of three digits is.

`Ratio.toNumber` writes the thousandths exactly, with no digit that can be spared
(`Ratio.toNumber_isShortest`).  `isRoundedTo_of_ratio` is the whole, from the number that is
read to the one that is written.
-/

namespace GoldenFixtures.Archive

open Binary64 (Magnitude)

section

variable {negative : Bool} {magnitude : Magnitude} {found : Ratio}

/-! ## The thousandths -/

/-- A number that is not refused lies between zero and one and a half, and the
thousandths are those of its product with a thousand. -/
theorem exists_of_ratio (h : ratio negative magnitude = .ok found) :
    0 ≤ magnitude.signedRat negative ∧ magnitude.atMost 3 2 = true ∧ found.negative = negative ∧
      ∃ scaled, magnitude.scaleBy 1000 = some scaled ∧ found.thousandths = scaled.round := by
  unfold ratio at h
  split at h
  · exact nomatch h
  · rename_i hrange
    obtain ⟨hsign, hsize⟩ := Bool.or_eq_false_iff.mp (Bool.eq_false_iff.mpr hrange)
    have hatMost : magnitude.atMost 3 2 = true := by simpa using hsize
    split at h
    · rename_i scaled hscaled
      cases h
      exact ⟨(Magnitude.signedRat_nonneg_iff negative magnitude).mpr hsign, hatMost, rfl,
        scaled, hscaled, rfl⟩
    · exact nomatch h

/-- The product of a number up to one and a half with a thousand is off by little. -/
theorem abs_scaleBy_sub_le {scaled : Magnitude} (hatMost : magnitude.atMost 3 2 = true)
    (h : magnitude.scaleBy 1000 = some scaled) :
    |scaled.toRat - 1000 * magnitude.toRat| ≤ 1 / 2 ^ 42 := by
  have hnear :=
    Magnitude.abs_toRat_sub_le magnitude.ratio_snd_pos h (Magnitude.mul_thousand_le hatMost)
  have hproduct : ((magnitude.ratio.1 * 1000 : Nat) : ℚ) / magnitude.ratio.2 =
      1000 * magnitude.toRat := by
    rw [Magnitude.toRat_eq_div, Nat.cast_mul, mul_comm, mul_div_assoc, Nat.cast_ofNat]
  have hunit : (2 : ℚ) ^ max Binary64.minExponent ((11 : Nat) - 52) / 2 = 1 / 2 ^ 42 := by
    norm_num [Binary64.minExponent]
  rwa [hproduct, hunit] at hnear

/-- The thousandths differ from a thousand times the number by half of one, and the
little that the product is off. -/
theorem abs_thousandths_sub_le (h : ratio negative magnitude = .ok found) :
    |(found.thousandths : ℚ) - 1000 * magnitude.toRat| ≤ 1 / 2 + 1 / 2 ^ 42 := by
  obtain ⟨-, hatMost, -, scaled, hscaled, hthousandths⟩ := exists_of_ratio h
  have hround : |(found.thousandths : ℚ) - scaled.toRat| ≤ 1 / 2 := by
    rw [hthousandths, Magnitude.round, Magnitude.toRat_eq_div]
    exact Binary64.abs_roundHalfUp_sub_le _ scaled.ratio_snd_pos
  calc |(found.thousandths : ℚ) - 1000 * magnitude.toRat|
      ≤ |(found.thousandths : ℚ) - scaled.toRat| + |scaled.toRat - 1000 * magnitude.toRat| :=
        abs_sub_le _ _ _
    _ ≤ 1 / 2 + 1 / 2 ^ 42 := add_le_add hround (abs_scaleBy_sub_le hatMost hscaled)

/-- A number near to some thousandths has just as many. -/
theorem thousandths_eq_of_near (h : ratio negative magnitude = .ok found) {count : Nat}
    (hnear : |(count : ℚ) - 1000 * magnitude.toRat| < 1 / 2 - 1 / 2 ^ 42) :
    found.thousandths = count := by
  have hfound := abs_thousandths_sub_le h
  have hless : |(found.thousandths : ℚ) - count| < 1 := by
    have htriangle := abs_sub_le (found.thousandths : ℚ) (1000 * magnitude.toRat) count
    rw [abs_sub_comm (1000 * magnitude.toRat)] at htriangle
    linarith
  have hinteger : |(found.thousandths : Int) - count| < 1 := by exact_mod_cast hless
  have hzero := Int.abs_lt_one_iff.mp hinteger
  omega

end

/-! ## The written number -/

/-- A number without an exponent has three digits behind the point at most, and the last
one is no zero unless it is the only one. -/
structure IsShortest (written : Json.Number) : Prop where
  exponent : written.exponent = none
  length_pos : 0 < written.fraction.length
  length_le : written.fraction.length ≤ 3
  spared : written.fraction.length = 1 ∨ written.fraction.getLast? ≠ some 0

/-- The number as it is written, without its sign. -/
def unsignedRat (written : Json.Number) : ℚ :=
  written.significand / 10 ^ written.fraction.length

/-- The number as it is written. -/
def writtenRat (written : Json.Number) : ℚ :=
  if written.negative then -unsignedRat written else unsignedRat written

namespace Ratio

/-- No digit of the written number can be spared. -/
theorem toNumber_isShortest (ratio : Ratio) : IsShortest ratio.toNumber := by
  unfold toNumber
  simp only
  split
  · exact ⟨rfl, by simp, by simp, Or.inl rfl⟩
  · rename_i hhundredths
    split
    · rename_i hthousandths
      have hlast : ratio.thousandths / 10 % 10 ≠ 0 := by omega
      refine ⟨rfl, by simp, by simp, Or.inr ?_⟩
      simpa [Fin.ext_iff] using hlast
    · rename_i hthousandths
      refine ⟨rfl, by simp, by simp, Or.inr ?_⟩
      simpa [Fin.ext_iff] using hthousandths

/-- Without its sign, the written number is that of the thousandths. -/
theorem unsignedRat_toNumber (ratio : Ratio) :
    unsignedRat ratio.toNumber = ratio.thousandths / 1000 := by
  have hmultiplied : ratio.toNumber.significand * 1000 =
      ratio.thousandths * 10 ^ ratio.toNumber.fraction.length := by
    unfold toNumber Json.Number.significand Digits.toNat
    simp only
    split
    · simp
      omega
    · split
      · simp
        omega
      · simp
        omega
  unfold unsignedRat
  rw [div_eq_div_iff (pow_ne_zero _ (by norm_num)) (by norm_num)]
  exact_mod_cast hmultiplied

end Ratio

/-- A number is written for another one: to the nearest thousandth, and with no digit that
can be spared. -/
structure IsRoundedTo (written : Json.Number) (number : ℚ) : Prop where
  shortest : IsShortest written
  near : |writtenRat written - number| ≤ (1 / 2 + 1 / 2 ^ 42) / 1000

section

variable {negative : Bool} {magnitude : Magnitude} {found : Ratio}

/-- Only a zero is written with a sign. -/
theorem writtenRat_of_ratio (h : ratio negative magnitude = .ok found) :
    writtenRat found.toNumber = found.thousandths / 1000 := by
  obtain ⟨hnonneg, -, hnegative, -⟩ := exists_of_ratio h
  have hsign : found.toNumber.negative = negative := hnegative
  rw [writtenRat, hsign, found.unsignedRat_toNumber]
  cases negative with
  | false => rfl
  | true =>
    have hzero : magnitude.toRat = 0 :=
      le_antisymm (Left.nonneg_neg_iff.mp hnonneg) magnitude.toRat_nonneg
    have hthousandths : found.thousandths = 0 := by
      refine thousandths_eq_of_near h ?_
      rw [hzero]
      norm_num
    simp [hthousandths]

/-- What is written for a ratio is the ratio to three decimals. -/
theorem isRoundedTo_of_ratio (h : ratio negative magnitude = .ok found) :
    IsRoundedTo found.toNumber (magnitude.signedRat negative) := by
  refine ⟨found.toNumber_isShortest, ?_⟩
  have hnear := abs_thousandths_sub_le h
  have hthousand : |(1000 : ℚ)| = 1000 := abs_of_pos (by norm_num)
  have hsplit : (found.thousandths : ℚ) / 1000 - magnitude.toRat =
      (found.thousandths - 1000 * magnitude.toRat) / 1000 := by ring
  rw [writtenRat_of_ratio h, Magnitude.signedRat_of_nonneg (exists_of_ratio h).1, hsplit, abs_div,
    hthousand]
  exact div_le_div_of_nonneg_right hnear (by norm_num)

end

end GoldenFixtures.Archive
