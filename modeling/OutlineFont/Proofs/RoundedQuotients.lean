import OutlineFont.Proofs.ComparedDoubles

/-!
# Quotients and one

A quotient of two doubles is rounded, but a quotient of small integers is not
rounded across one: a fraction other than one differs from it by more than the
denominator can hide.  So whether a quotient lies above zero and not above one is
decided in double precision as in exact arithmetic.
-/

namespace OutlineFont.Double

open Float.Model Float.Model.UnpackedFloat

theorem value?_pack_finite (sign : Sign) {mantissa : Nat} (pos : 0 < mantissa)
    (full : mantissa.log2 = 52) {exponent : Int} (above : -1074 ≤ exponent)
    (below : exponent ≤ 971) :
    value? (.ofModel (.pack (.finite sign mantissa exponent pos))) =
      some ((sign.apply mantissa : Int) * (2 : ℚ) ^ exponent) := by
  have unpacked : (Float.ofModel (.pack (.finite sign mantissa exponent pos))).toModel.unpack =
      .finite sign mantissa exponent pos := unpack_pack_finite sign pos full above below
  rw [value?, unpacked]

theorem le_roundToNearestEven (mantissa : Nat) (accuracy : Accuracy) :
    mantissa ≤ accuracy.roundToNearestEven mantissa := by
  cases accuracy with
  | exact => exact le_rfl
  | inexact order =>
      cases order with
      | lt => exact le_rfl
      | eq => exact Nat.le_add_right mantissa _
      | gt => exact Nat.le_succ mantissa

theorem log2_eq_of_bounds {value bits : Nat} (least : 2 ^ bits ≤ value)
    (most : value < 2 ^ (bits + 1)) : value.log2 = bits :=
  (Nat.log2_eq_iff ((Nat.two_pow_pos bits).trans_le least).ne').mpr ⟨least, most⟩

/-- A mantissa of the bits of a double, or the first one above those, is moved down if need be. -/
theorem exists_full {mantissa : Nat} (least : 2 ^ 52 ≤ mantissa) (most : mantissa ≤ 2 ^ 53) :
    ∃ full zeros : Nat, full.log2 = 52 ∧ zeros ≤ 1 ∧ mantissa = full * 2 ^ zeros := by
  rcases most.lt_or_eq with below | rfl
  · exact ⟨mantissa, 0, log2_eq_of_bounds least below, Nat.zero_le 1, (Nat.mul_one _).symm⟩
  · exact ⟨2 ^ 52, 1, Nat.log2_two_pow, le_rfl, rfl⟩

/-- What has more bits than a double is rounded to its first bits, or to one more. -/
theorem exists_value?_roundWithAccuracy (sign : Sign) {mantissa shift : Nat}
    (least : 2 ^ (52 + shift) ≤ mantissa) (most : mantissa < 2 ^ (52 + shift + 1)) {exponent : Int}
    (above : -1074 ≤ exponent) (below : exponent + shift ≤ 970) (accuracy : Accuracy) :
    ∃ rounded : Nat, mantissa / 2 ^ shift ≤ rounded ∧ rounded ≤ mantissa / 2 ^ shift + 1 ∧
      value? (.ofModel (.pack (roundWithAccuracy .binary64 sign mantissa exponent accuracy))) =
        some ((sign.apply rounded : Int) * (2 : ℚ) ^ (exponent + shift)) := by
  obtain ⟨first, second⟩ := shiftToTargetExponent_spec mantissa exponent accuracy
  rw [log2_eq_of_bounds least most] at first second
  rw [show (max ((52 + shift : Nat) + exponent - 52) (-1074) - exponent).toNat = shift by
    omega] at first
  replace second := second.trans
    (show max exponent (max ((52 + shift : Nat) + exponent - 52) (-1074)) = exponent + shift by
      omega)
  have enough : 2 ^ 52 ≤ mantissa / 2 ^ shift := by
    rwa [Nat.le_div_iff_mul_le (Nat.two_pow_pos _), ← Nat.pow_add]
  have few : mantissa / 2 ^ shift < 2 ^ 53 := by
    rw [Nat.div_lt_iff_lt_mul (Nat.two_pow_pos _), ← Nat.pow_add]
    exact most.trans_eq (congrArg (2 ^ ·) (by omega))
  unfold roundWithAccuracy
  generalize shiftToTargetExponent .binary64 mantissa exponent accuracy = moved at first second
  obtain ⟨kept, _⟩ := moved
  dsimp only at first second
  subst second
  have least' : kept.mantissa ≤ kept.roundedMantissa := le_roundToNearestEven _ _
  have most' : kept.roundedMantissa ≤ kept.mantissa + 1 := roundToNearestEven_le _ _
  rw [first] at least' most'
  obtain ⟨final, zeros, full, one, same⟩ :=
    exists_full (enough.trans least') (most'.trans (Nat.succ_le_of_lt few))
  have pos : 0 < final := Nat.pos_of_ne_zero fun zero => by
    rw [zero, Nat.log2_zero] at full
    contradiction
  refine ⟨kept.roundedMantissa, least', most', ?_⟩
  dsimp only
  rw [same, shiftToTargetExponent_eq full (by omega)]
  dsimp only
  rw [dif_neg pos.ne', value?_pack_finite sign pos full (by omega) (by omega)]
  push_cast [apply_mul]
  rw [zpow_add₀ two_ne_zero _ (zeros : Int), zpow_natCast]
  ring_nf

/-- A quotient of mantissas that fill doubles fills a double or has one more bit. -/
theorem exists_quotient_bits {dividend divisor : Nat} (full : dividend.log2 = 52)
    (full' : divisor.log2 = 52) : ∃ shift ≤ 1, 2 ^ (52 + shift) ≤ dividend * 2 ^ 53 / divisor ∧
      dividend * 2 ^ 53 / divisor < 2 ^ (52 + shift + 1) := by
  have pos : dividend ≠ 0 := fun zero => by rw [zero] at full; contradiction
  have pos' : divisor ≠ 0 := fun zero => by rw [zero] at full'; contradiction
  obtain ⟨low, high⟩ := (Nat.log2_eq_iff pos).mp full
  obtain ⟨low', high'⟩ := (Nat.log2_eq_iff pos').mp full'
  have least : 2 ^ 52 ≤ dividend * 2 ^ 53 / divisor := by
    rw [Nat.le_div_iff_mul_le (Nat.pos_of_ne_zero pos')]
    omega
  have most : dividend * 2 ^ 53 / divisor < 2 ^ 54 := by
    rw [Nat.div_lt_iff_lt_mul (Nat.pos_of_ne_zero pos')]
    omega
  by_cases less : dividend * 2 ^ 53 / divisor < 2 ^ 53
  · exact ⟨0, Nat.zero_le 1, least, less⟩
  · exact ⟨1, le_rfl, Nat.le_of_not_lt less, most⟩

section Quotient

variable {dividend divisor exponent : Int} (fits : Fits dividend exponent)
  (fits' : Fits divisor exponent) (nonzero : dividend ≠ 0) (nonzero' : divisor ≠ 0)

include fits fits' nonzero nonzero'

/-- A quotient is rounded at some number of binary places, which are enough for its denominator. -/
theorem exists_value?_div (small : dividend.natAbs < 2 ^ 52) : ∃ places rounded : Nat,
    divisor.natAbs ≤ 2 ^ places ∧
    dividend.natAbs * 2 ^ places / divisor.natAbs ≤ rounded ∧
    rounded ≤ dividend.natAbs * 2 ^ places / divisor.natAbs + 1 ∧
    value? (dyadic dividend exponent / dyadic divisor exponent) =
      some (((signOf dividend / signOf divisor).apply rounded : Int) / (2 : ℚ) ^ places) := by
  have pos := Int.natAbs_pos.mpr nonzero
  have pos' := Int.natAbs_pos.mpr nonzero'
  obtain ⟨shift, one, least, most⟩ :=
    exists_quotient_bits (log2_filled pos fits.small) (log2_filled pos' fits'.small)
  obtain ⟨accuracy, _, quotient⟩ := exists_div_eq fits fits' nonzero nonzero'
  have low : -1074 ≤ (lacking divisor.natAbs - lacking dividend.natAbs - 53 : Int) := by
    unfold lacking
    omega
  have high : (lacking divisor.natAbs - lacking dividend.natAbs - 53 + shift : Int) ≤ 970 := by
    unfold lacking
    omega
  obtain ⟨rounded, above, below, stands⟩ := exists_value?_roundWithAccuracy
    (signOf dividend / signOf divisor) least most low high accuracy
  obtain ⟨places, moved⟩ : ∃ places : Nat,
      lacking dividend.natAbs + 53 = places + (lacking divisor.natAbs + shift) :=
    ⟨_, (Nat.sub_add_cancel (by unfold lacking; omega)).symm⟩
  have first : filled dividend.natAbs * 2 ^ 53 / filled divisor.natAbs / 2 ^ shift =
      dividend.natAbs * 2 ^ places / divisor.natAbs := by
    unfold filled
    rw [Nat.div_div_eq_div_mul, Nat.mul_assoc, Nat.mul_assoc, ← Nat.pow_add, ← Nat.pow_add, moved,
      Nat.pow_add, ← Nat.mul_assoc, Nat.mul_div_mul_right _ _ (Nat.two_pow_pos _)]
  have enough : divisor.natAbs ≤ 2 ^ places := by
    have bound := log2_lt_of_lt (by decide) small
    have bound' := log2_lt_of_lt (by decide) fits'.small
    have bits : divisor.natAbs < 2 ^ (divisor.natAbs.log2 + 1) := Nat.lt_log2_self
    refine bits.le.trans (Nat.pow_le_pow_right two_pos ?_)
    unfold lacking at moved
    omega
  rw [first] at above below
  refine ⟨places, rounded, enough, above, below, ?_⟩
  rw [quotient, stands, show (lacking divisor.natAbs - lacking dividend.natAbs - 53 + shift : Int) =
    -(places : Int) by omega, zpow_neg, zpow_natCast, div_eq_mul_inv]

end Quotient

theorem value?_div_self {value exponent : Int} (fits : Fits value exponent)
    (nonzero : value ≠ 0) : value? (dyadic value exponent / dyadic value exponent) = some 1 := by
  have pos := filled_pos (Int.natAbs_pos.mpr nonzero)
  obtain ⟨accuracy, exactly, quotient⟩ := exists_div_eq fits fits nonzero nonzero
  have one : filled value.natAbs * 2 ^ 53 / filled value.natAbs = 2 ^ 52 * 2 ^ 1 :=
    Nat.mul_div_cancel_left _ pos
  have sign : signOf value / signOf value = .positive := by
    cases signOf value <;> rfl
  rw [quotient, exactly dvd_rfl, one, sign, roundWithAccuracy_eq .positive (Nat.two_pow_pos 52)
    Nat.log2_two_pow (by omega), value?_pack_finite .positive _ Nat.log2_two_pow (by omega)
    (by omega), sub_self]
  norm_num [Sign.apply]

/-! ### What is decided about quotients -/

theorem apply_signOf (value : Int) : (signOf value).apply value.natAbs = value := by
  unfold signOf
  split_ifs with negative
  · rw [Sign.apply]
    omega
  · rw [Sign.apply]
    omega

theorem apply_div_apply (sign sign' : Sign) (dividend divisor : Int) :
    ((sign.apply dividend : Int) : ℚ) / (sign'.apply divisor : Int) =
      ((sign / sign').apply dividend : Int) / divisor := by
  cases sign with
  | negative =>
      cases sign' with
      | negative => exact (congrArg₂ _ (Int.cast_neg _) (Int.cast_neg _)).trans (neg_div_neg_eq _ _)
      | positive => rfl
  | positive =>
      cases sign' with
      | negative =>
          change ((dividend : Int) : ℚ) / (-divisor : Int) = (-dividend : Int) / divisor
          rw [Int.cast_neg, Int.cast_neg, div_neg, neg_div]
      | positive => rfl

/-- The sign of a quotient and its magnitude. -/
theorem div_eq_apply (dividend divisor : Int) : (dividend : ℚ) / divisor =
    ((signOf dividend / signOf divisor).apply dividend.natAbs : Int) / divisor.natAbs := by
  calc (dividend : ℚ) / divisor
      = ((signOf dividend).apply dividend.natAbs : Int) /
          ((signOf divisor).apply divisor.natAbs : Int) := by rw [apply_signOf, apply_signOf]
    _ = ((signOf dividend / signOf divisor).apply dividend.natAbs : Int) / divisor.natAbs :=
        apply_div_apply _ _ _ _

/-- Different numbers of one sign have different magnitudes. -/
theorem natAbs_ne_of_sign {dividend divisor : Int} (nonzero : divisor ≠ 0)
    (apart : dividend ≠ divisor) (sign : signOf dividend / signOf divisor = .positive) :
    dividend.natAbs ≠ divisor.natAbs := by
  intro equal
  rcases Int.natAbs_eq_natAbs_iff.mp equal with same | rfl
  · exact apart same
  · have opposite (sign : Sign) : -sign / sign = .negative := by
      cases sign <;> rfl
    rw [signOf_neg nonzero, opposite] at sign
    cases sign

section Fraction

variable {numerator denominator places rounded : Nat} (pos : 0 < denominator)
  (enough : denominator ≤ 2 ^ places)
  (above : numerator * 2 ^ places / denominator ≤ rounded)

include pos enough above

theorem rounded_pos (positive : 0 < numerator) : 0 < rounded := by
  refine above.trans_lt' (Nat.div_pos ?_ pos)
  exact enough.trans (Nat.le_mul_of_pos_left _ positive)

/-- A fraction other than one is rounded to a number on the same side of one. -/
theorem rounded_le_iff (below : rounded ≤ numerator * 2 ^ places / denominator + 1)
    (apart : numerator ≠ denominator) : rounded ≤ 2 ^ places ↔ numerator ≤ denominator := by
  rcases apart.lt_or_gt with less | greater
  · have fraction : numerator * 2 ^ places / denominator < 2 ^ places := by
      rw [Nat.div_lt_iff_lt_mul pos, Nat.mul_comm]
      exact Nat.mul_lt_mul_of_pos_left less (Nat.two_pow_pos _)
    exact iff_of_true (below.trans (Nat.succ_le_of_lt fraction)) less.le
  · have fraction : 2 ^ places + 1 ≤ numerator * 2 ^ places / denominator := by
      rw [Nat.le_div_iff_mul_le pos]
      nlinarith
    exact iff_of_false (by omega) (by omega)

end Fraction

/-- A quotient lies above zero and not above one exactly if its rounded value does. -/
theorem exists_value?_quotient {dividend divisor exponent : Int} (fits : Fits dividend exponent)
    (fits' : Fits divisor exponent) (small : dividend.natAbs < 2 ^ 52) (nonzero : divisor ≠ 0) :
    ∃ value, value? (dyadic dividend exponent / dyadic divisor exponent) = some value ∧
      (0 < value ↔ 0 < (dividend : ℚ) / divisor) ∧ (value ≤ 1 ↔ (dividend : ℚ) / divisor ≤ 1) := by
  by_cases zero : dividend = 0
  · subst zero
    refine ⟨0, ?_, ?_, ?_⟩
    · obtain ⟨sign, unpacked⟩ := exists_unpack_zero_div fits fits' nonzero
      rw [value?, unpacked]
    · rw [Int.cast_zero, zero_div]
    · rw [Int.cast_zero, zero_div]
  -- Rounding bounds alone would let a quotient of equal numbers be rounded up beyond one.
  by_cases different : dividend = divisor
  · subst different
    refine ⟨1, value?_div_self fits nonzero, ?_⟩
    rw [div_self (Int.cast_ne_zero.mpr nonzero)]
    exact ⟨.rfl, .rfl⟩
  obtain ⟨places, rounded, enough, above, below, stands⟩ :=
    exists_value?_div fits fits' zero nonzero small
  refine ⟨_, stands, ?_⟩
  have pos : 0 < divisor.natAbs := Int.natAbs_pos.mpr nonzero
  have more := rounded_pos pos enough above (Int.natAbs_pos.mpr zero)
  have power : (0 : ℚ) < 2 ^ places := pow_pos two_pos places
  have magnitude : (0 : ℚ) < rounded / 2 ^ places := div_pos (Nat.cast_pos.mpr more) power
  have magnitude' : (0 : ℚ) < dividend.natAbs / divisor.natAbs :=
    div_pos (Nat.cast_pos.mpr (Int.natAbs_pos.mpr zero)) (Nat.cast_pos.mpr pos)
  rw [div_eq_apply]
  cases sign : signOf dividend / signOf divisor with
  | negative =>
      simp only [Sign.apply, Int.cast_neg, Int.cast_natCast, neg_div]
      constructor
      · exact iff_of_false (neg_neg_of_pos magnitude).not_gt (neg_neg_of_pos magnitude').not_gt
      · exact iff_of_true ((neg_neg_of_pos magnitude).trans one_pos).le
          ((neg_neg_of_pos magnitude').trans one_pos).le
  | positive =>
      have apart := natAbs_ne_of_sign nonzero different sign
      simp only [Sign.apply, Int.cast_natCast]
      refine ⟨iff_of_true magnitude magnitude', ?_⟩
      rw [div_le_one power, div_le_one (Nat.cast_pos.mpr pos), Nat.cast_le]
      exact_mod_cast rounded_le_iff pos enough above below apart

/-- Whether a quotient lies above zero and not above one is decided as in exact arithmetic. -/
theorem zero_lt_div_and_div_le_one_iff {dividend divisor exponent : Int}
    (fits : Fits dividend exponent) (fits' : Fits divisor exponent)
    (small : dividend.natAbs < 2 ^ 52) (nonzero : divisor ≠ 0) :
    (0 < dyadic dividend exponent / dyadic divisor exponent ∧
      dyadic dividend exponent / dyadic divisor exponent ≤ 1) ↔
    0 < (dividend : ℚ) / divisor ∧ (dividend : ℚ) / divisor ≤ 1 := by
  obtain ⟨value, stands, above, below⟩ := exists_value?_quotient fits fits' small nonzero
  have zero : value? (Float.ofInt 0) = some ((0 : Int) : ℚ) := value?_ofInt {}
  have one : value? (Float.ofInt 1) = some ((1 : Int) : ℚ) := value?_ofInt {}
  change value? 0 = _ at zero
  change value? 1 = _ at one
  rw [lt_iff zero stands, le_iff stands one, Int.cast_zero, Int.cast_one, above, below]

end OutlineFont.Double
