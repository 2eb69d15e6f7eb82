import Mathlib

/-!
# Exact double precision

An integer of at most fifty-three bits, times a power of two that is neither
very large nor very small, is a double.  Sums, differences and products of such
numbers are rounded, and a result that is again such a number is rounded to
itself.  So the arithmetic of small integers and of their halves is exact.
-/

namespace OutlineFont.Double

open Float.Model Float.Model.UnpackedFloat

/-! ### Rounding what needs no rounding -/

/-- The number of bits that a mantissa lacks to fill a double. -/
def lacking (mantissa : Nat) : Nat :=
  52 - mantissa.log2

/-- A mantissa moved up until it fills a double. -/
def filled (mantissa : Nat) : Nat :=
  mantissa * 2 ^ lacking mantissa

theorem filled_pos {mantissa : Nat} (pos : 0 < mantissa) : 0 < filled mantissa :=
  Nat.mul_pos pos (Nat.two_pow_pos _)

theorem log2_lt_of_lt {value bits : Nat} (pos : 0 < bits) (small : value < 2 ^ bits) :
    value.log2 < bits := by
  cases value with
  | zero => rwa [Nat.log2_zero]
  | succ value => exact (Nat.log2_lt (Nat.succ_ne_zero _)).mpr small

theorem log2_mul_two_pow {mantissa : Nat} (pos : 0 < mantissa) (shift : Nat) :
    (mantissa * 2 ^ shift).log2 = mantissa.log2 + shift := by
  induction shift with
  | zero => rw [Nat.pow_zero, Nat.mul_one, Nat.add_zero]
  | succ shift ih =>
      rw [Nat.pow_succ', Nat.mul_left_comm,
        Nat.log2_two_mul (Nat.mul_pos pos (Nat.two_pow_pos _)).ne', ih, Nat.add_assoc]

theorem log2_filled {mantissa : Nat} (pos : 0 < mantissa) (small : mantissa < 2 ^ 53) :
    (filled mantissa).log2 = 52 := by
  have bound := log2_lt_of_lt (by decide) small
  rw [filled, log2_mul_two_pow pos, lacking]
  omega

/-- Shifting out zeros leaves nothing to round. -/
theorem repeat_shiftRightOne (mantissa shift : Nat) :
    Nat.repeat ExtendedMantissa.shiftRightOne shift ⟨mantissa * 2 ^ shift, false, false⟩ =
      ⟨mantissa, false, false⟩ := by
  induction shift generalizing mantissa with
  | zero => simp [Nat.repeat]
  | succ shift ih =>
      have doubled : mantissa * 2 ^ (shift + 1) = mantissa * 2 * 2 ^ shift := by
        rw [Nat.pow_succ']
        ac_rfl
      rw [Nat.repeat, doubled, ih]
      simp [ExtendedMantissa.shiftRightOne]

theorem targetExponent_eq (exponent : Int) :
    Format.binary64.targetExponent exponent = max (exponent - 53) (-1074) :=
  rfl

/-- A mantissa that fills a double, with zeros behind it, is shifted by their number. -/
theorem shiftToTargetExponent_eq {mantissa : Nat} (full : mantissa.log2 = 52) {exponent : Int}
    {zeros : Nat} (above : -1074 ≤ exponent + zeros) :
    shiftToTargetExponent .binary64 (mantissa * 2 ^ zeros) exponent .exact =
      (⟨mantissa, false, false⟩, exponent + zeros) := by
  have pos : 0 < mantissa := Nat.pos_of_ne_zero fun zero => by simp [zero] at full
  have target : Format.binary64.targetExponent
      (totalExponent (mantissa * 2 ^ zeros) exponent) = exponent + zeros := by
    rw [targetExponent_eq, totalExponent, log2_mul_two_pow pos, full]
    omega
  unfold shiftToTargetExponent shiftToExponent
  rw [target]
  dsimp only
  rw [show (exponent + zeros - exponent).toNat = zeros by omega]
  exact congrArg (·, _) (repeat_shiftRightOne mantissa zeros)

theorem roundWithAccuracy_eq (sign : Sign) {mantissa : Nat} (pos : 0 < mantissa)
    (full : mantissa.log2 = 52) {exponent : Int} {zeros : Nat}
    (above : -1074 ≤ exponent + zeros) :
    roundWithAccuracy .binary64 sign (mantissa * 2 ^ zeros) exponent .exact =
      .finite sign mantissa (exponent + zeros) pos := by
  have again := shiftToTargetExponent_eq full
    (show -1074 ≤ exponent + zeros + (0 : Nat) by omega)
  rw [Nat.pow_zero, Nat.mul_one, Int.natCast_zero, Int.add_zero] at again
  have rounded : (ExtendedMantissa.mk mantissa false false).roundedMantissa = mantissa := rfl
  unfold roundWithAccuracy
  rw [shiftToTargetExponent_eq full above]
  dsimp only
  rw [rounded, again]
  dsimp only
  rw [dif_neg pos.ne']

/-- A mantissa that fits a double is moved up, or down if zeros stand behind it. -/
theorem round_eq (sign : Sign) {mantissa : Nat} (pos : 0 < mantissa) (small : mantissa < 2 ^ 53)
    {exponent : Int} (above : -1022 ≤ exponent) (zeros : Nat) :
    UnpackedFloat.round .binary64 sign (mantissa * 2 ^ zeros) (exponent - zeros) =
      .finite sign (filled mantissa) (exponent - lacking mantissa) (filled_pos pos) := by
  have bound := log2_lt_of_lt (by decide) small
  have full := log2_filled pos small
  have target : Format.binary64.targetExponent
      (totalExponent (mantissa * 2 ^ zeros) (exponent - zeros)) =
        exponent - lacking mantissa := by
    rw [targetExponent_eq, totalExponent, log2_mul_two_pow pos, lacking]
    omega
  have moved : mantissa * 2 ^ zeros * 2 ^ (lacking mantissa - zeros) =
      filled mantissa * 2 ^ (zeros - lacking mantissa) := by
    rw [filled, Nat.mul_assoc, Nat.mul_assoc, ← Nat.pow_add, ← Nat.pow_add]
    congr 2
    omega
  unfold UnpackedFloat.round decreaseExponent
  rw [target]
  dsimp only
  rw [show (exponent - zeros - (exponent - lacking mantissa)).toNat =
    lacking mantissa - zeros by omega, Nat.shiftLeft_eq, moved,
    roundWithAccuracy_eq sign (filled_pos pos) full (by unfold lacking at *; omega)]
  congr 1
  omega

/-! ### Integers times powers of two -/

/-- The sign of an integer, for one that is not zero. -/
def signOf (value : Int) : Sign :=
  if value < 0 then .negative else .positive

/-- An integer times a power of two, with a mantissa that fills a double. -/
def spread (value exponent : Int) : UnpackedFloat :=
  if nonzero : value = 0 then
    .zero .positive
  else
    .finite (signOf value) (filled value.natAbs) (exponent - lacking value.natAbs)
      (filled_pos (Int.natAbs_pos.mpr nonzero))

theorem normalize_eq_spread {value exponent : Int} (small : value.natAbs < 2 ^ 53)
    (above : -1022 ≤ exponent) (zeros : Nat) :
    UnpackedFloat.normalize .binary64 (value * 2 ^ zeros) (exponent - zeros) .positive =
      spread value exponent := by
  have power : (0 : Int) < 2 ^ zeros := by positivity
  unfold UnpackedFloat.normalize spread
  rcases lt_trichotomy value 0 with negative | rfl | positive
  · have less : compare (value * 2 ^ zeros) 0 = .lt :=
      Int.compare_eq_lt.mpr (Int.mul_neg_of_neg_of_pos negative power)
    have magnitude : (-(value * 2 ^ zeros)).toNat = value.natAbs * 2 ^ zeros := by
      zify
      rw [Int.toNat_of_nonneg (by nlinarith), abs_of_neg negative]
      ring
    rw [less, dif_neg negative.ne, signOf, if_pos negative]
    dsimp only
    rw [magnitude, round_eq .negative (Int.natAbs_pos.mpr negative.ne) small above]
  · rw [Int.zero_mul]
    rfl
  · have greater : compare (value * 2 ^ zeros) 0 = .gt :=
      Int.compare_eq_gt.mpr (Int.mul_pos positive power)
    have magnitude : (value * 2 ^ zeros).toNat = value.natAbs * 2 ^ zeros := by
      zify
      rw [Int.toNat_of_nonneg (by positivity), abs_of_pos positive]
    rw [greater, dif_neg positive.ne', signOf, if_neg positive.not_gt]
    dsimp only
    rw [magnitude, round_eq .positive (Int.natAbs_pos.mpr positive.ne') small above]

/-- What fills a double is the same when it is packed and unpacked. -/
theorem unpack_pack_finite (sign : Sign) {mantissa : Nat} (pos : 0 < mantissa)
    (full : mantissa.log2 = 52) {exponent : Int} (above : -1074 ≤ exponent)
    (below : exponent ≤ 971) :
    (Float.Model.pack (.finite sign mantissa exponent pos)).unpack =
      .finite sign mantissa exponent pos := by
  obtain ⟨low, high⟩ := (Nat.log2_eq_iff pos.ne').mp full
  obtain ⟨biased, same⟩ : ∃ biased : Nat, exponent = biased - 1075 :=
    ⟨(exponent + 1075).toNat, by omega⟩
  subst same
  have bias : Format.binary64.exponentBias = 1023 := rfl
  have packed : ((biased : Int) - 1075 + Format.binary64.exponentBias + (52 : Nat)).toNat =
      biased := by
    rw [bias]
    omega
  have implicit : (1#1 ++ BitVec.ofNat 52 mantissa).toNat = mantissa := by
    rw [BitVec.toNat_append, ← Nat.shiftLeft_add_eq_or_of_lt (BitVec.isLt _), BitVec.toNat_ofNat,
      BitVec.toNat_ofNat]
    omega
  have notAll : BitVec.ofNat 11 biased ≠ -1#11 := by
    intro same
    have values := congrArg BitVec.toNat same
    simp at values
    omega
  have notZero : BitVec.ofNat 11 biased ≠ 0#11 := by
    intro same
    have values := congrArg BitVec.toNat same
    simp at values
    omega
  unfold Float.Model.unpack Float.Model.pack UnpackedFloat.pack
  dsimp only
  rw [packed, if_neg (by simp; omega), if_pos (by rw [full]; rfl)]
  unfold UnpackedFloat.unpack
  simp only [unpackMantissa_packComponents, unpackExponent_packComponents,
    unpackSign_packComponents, Sign.ofBitVec_toBitVec]
  rw [if_neg notAll, if_neg notZero]
  congr 1
  rw [bias, BitVec.toNat_ofNat, Nat.mod_eq_of_lt (by omega)]
  omega

/-! ### Arithmetic -/

/-- The sign and the mantissa of a spread number give the number back, moved up. -/
theorem apply_signOf_filled (value : Int) :
    (signOf value).apply (filled value.natAbs) = value * 2 ^ lacking value.natAbs := by
  unfold signOf filled
  push_cast
  split
  · next negative =>
      rw [Sign.apply, abs_of_neg negative]
      ring
  · next positive => rw [Sign.apply, abs_of_nonneg (not_lt.mp positive)]

theorem apply_mul (sign : Sign) (value factor : Int) :
    sign.apply (value * factor) = sign.apply value * factor := by
  cases sign with
  | negative => exact (Int.neg_mul value factor).symm
  | positive => rfl

/-- A spread number at a smaller exponent. -/
theorem apply_decreaseExponent (value exponent : Int) {zeros : Nat}
    (enough : lacking value.natAbs ≤ zeros) :
    (signOf value).apply (decreaseExponent (filled value.natAbs)
      (exponent - lacking value.natAbs) (exponent - zeros)).1 = value * 2 ^ zeros := by
  unfold decreaseExponent
  dsimp only
  rw [show (exponent - lacking value.natAbs - (exponent - zeros)).toNat =
    zeros - lacking value.natAbs by omega, Nat.shiftLeft_eq, Int.natCast_mul, apply_mul,
    apply_signOf_filled, Int.natCast_pow, Int.mul_assoc, Nat.cast_ofNat, ← Int.pow_add]
  congr 2
  omega

theorem spread_zero (exponent : Int) : spread 0 exponent = .zero .positive :=
  rfl

theorem spread_of_ne_zero {value : Int} (nonzero : value ≠ 0) (exponent : Int) :
    spread value exponent =
      .finite (signOf value) (filled value.natAbs) (exponent - lacking value.natAbs)
        (filled_pos (Int.natAbs_pos.mpr nonzero)) :=
  dif_neg nonzero

theorem signOf_neg {value : Int} (nonzero : value ≠ 0) : signOf (-value) = -signOf value := by
  unfold signOf
  rcases lt_or_gt_of_ne nonzero with negative | positive
  · rw [if_pos negative, if_neg (by omega)]
    rfl
  · rw [if_neg positive.not_gt, if_pos (by omega)]
    rfl

/-- The exponent at which two spread numbers meet. -/
theorem min_exponents (first second exponent : Int) :
    min (exponent - lacking first.natAbs) (exponent - lacking second.natAbs) =
      exponent - (max (lacking first.natAbs) (lacking second.natAbs) : Nat) := by
  omega

theorem add_spread {first second exponent : Int} (small : (first + second).natAbs < 2 ^ 53)
    (above : -1022 ≤ exponent) :
    UnpackedFloat.add .binary64 (spread first exponent) (spread second exponent) =
      spread (first + second) exponent := by
  by_cases noFirst : first = 0
  · rw [noFirst, Int.zero_add, spread_zero]
    unfold spread
    split <;> rfl
  · by_cases noSecond : second = 0
    · rw [noSecond, Int.add_zero, spread_zero, spread_of_ne_zero noFirst]
      rfl
    · rw [spread_of_ne_zero noFirst, spread_of_ne_zero noSecond, UnpackedFloat.add]
      dsimp only
      rw [min_exponents, apply_decreaseExponent first exponent (le_max_left _ _),
        apply_decreaseExponent second exponent (le_max_right _ _), ← Int.add_mul,
        normalize_eq_spread small above]

theorem sub_spread {first second exponent : Int} (small : (first - second).natAbs < 2 ^ 53)
    (above : -1022 ≤ exponent) :
    UnpackedFloat.sub .binary64 (spread first exponent) (spread second exponent) =
      spread (first - second) exponent := by
  by_cases noFirst : first = 0
  · rw [noFirst, Int.zero_sub, spread_zero]
    by_cases noSecond : second = 0
    · rw [noSecond]
      rfl
    · rw [spread_of_ne_zero noSecond, spread_of_ne_zero (Int.neg_ne_zero.mpr noSecond)]
      simp only [Int.natAbs_neg, signOf_neg noSecond]
      rfl
  · by_cases noSecond : second = 0
    · rw [noSecond, Int.sub_zero, spread_zero, spread_of_ne_zero noFirst]
      rfl
    · rw [spread_of_ne_zero noFirst, spread_of_ne_zero noSecond, UnpackedFloat.sub]
      dsimp only
      rw [min_exponents, apply_decreaseExponent first exponent (le_max_left _ _),
        apply_decreaseExponent second exponent (le_max_right _ _), ← Int.sub_mul,
        normalize_eq_spread small above]

theorem signOf_of_pos {value : Int} (positive : 0 < value) : signOf value = .positive :=
  if_neg positive.not_gt

theorem signOf_mul {first : Int} (positive : 0 < first) (second : Int) :
    signOf (first * second) = signOf second := by
  have below : first * second < 0 ↔ second < 0 := by
    rw [Int.mul_neg_iff, and_iff_right positive, or_iff_left fun other => other.1.not_gt positive]
  simp only [signOf, below]

theorem lacking_mul_le {first second : Nat} (pos : 0 < first) (otherPos : 0 < second) :
    lacking (first * second) ≤ lacking first + lacking second := by
  have product : first.log2 + second.log2 ≤ (first * second).log2 := by
    rw [Nat.le_log2 (Nat.mul_pos pos otherPos).ne', Nat.pow_add]
    exact Nat.mul_le_mul (Nat.log2_self_le pos.ne') (Nat.log2_self_le otherPos.ne')
  unfold lacking
  omega

theorem filled_mul {first second : Nat} (pos : 0 < first) (otherPos : 0 < second) :
    filled first * filled second = filled (first * second) *
      2 ^ (lacking first + lacking second - lacking (first * second)) := by
  have enough := lacking_mul_le pos otherPos
  unfold filled
  rw [Nat.mul_assoc (first * second), ← Nat.pow_add, Nat.add_sub_cancel' enough, Nat.pow_add]
  ac_rfl

/-- A positive number times another; zero keeps its sign. -/
theorem mul_spread {first second firstExponent secondExponent : Int} (positive : 0 < first)
    (small : (first * second).natAbs < 2 ^ 53)
    (above : -1022 ≤ firstExponent + secondExponent) :
    UnpackedFloat.mul .binary64 (spread first firstExponent) (spread second secondExponent) =
      spread (first * second) (firstExponent + secondExponent) := by
  rw [spread_of_ne_zero positive.ne']
  by_cases noSecond : second = 0
  · rw [noSecond, Int.mul_zero, spread_zero, spread_zero, signOf_of_pos positive]
    rfl
  · have pos := Int.natAbs_pos.mpr positive.ne'
    have otherPos := Int.natAbs_pos.mpr noSecond
    have product := Nat.mul_pos pos otherPos
    rw [Int.natAbs_mul] at small
    have enough := lacking_mul_le pos otherPos
    have bound := log2_lt_of_lt (by decide) small
    have sign : Sign.positive * signOf second = signOf second := by
      cases signOf second <;> rfl
    rw [spread_of_ne_zero noSecond, spread_of_ne_zero (Int.mul_ne_zero positive.ne' noSecond),
      UnpackedFloat.mul]
    simp only [Int.natAbs_mul, signOf_mul positive, signOf_of_pos positive, sign]
    rw [filled_mul pos otherPos, roundWithAccuracy_eq _ (filled_pos product)
      (log2_filled product small) (by unfold lacking at *; omega)]
    congr 1
    omega

/-! ### Doubles -/

/-- The double that is an integer times a power of two. -/
def dyadic (value exponent : Int) : Float :=
  .ofModel (.pack (spread value exponent))

/-- The number of bits of an integer and its exponent are those of a double. -/
structure Fits (value exponent : Int) : Prop where
  small : value.natAbs < 2 ^ 53 := by omega
  above : -1022 ≤ exponent := by omega
  below : exponent ≤ 971 := by omega

namespace Fits

variable {value first second exponent : Int}

theorem unpack_dyadic (fits : Fits value exponent) :
    (dyadic value exponent).toModel.unpack = spread value exponent := by
  change (Float.Model.pack (spread value exponent)).unpack = _
  unfold spread
  split
  · exact unpack_packedZero
  · next nonzero =>
      have pos := Int.natAbs_pos.mpr nonzero
      have bound := log2_lt_of_lt (by decide) fits.small
      have above := fits.above
      have below := fits.below
      exact unpack_pack_finite _ _ (log2_filled pos fits.small) (by unfold lacking; omega)
        (by unfold lacking; omega)

theorem add (fits : Fits first exponent) (other : Fits second exponent)
    (sum : Fits (first + second) exponent) :
    dyadic first exponent + dyadic second exponent = dyadic (first + second) exponent := by
  change Float.ofModel (.pack (UnpackedFloat.add .binary64 _ _)) = _
  rw [fits.unpack_dyadic, other.unpack_dyadic, add_spread sum.small sum.above]
  rfl

theorem sub (fits : Fits first exponent) (other : Fits second exponent)
    (difference : Fits (first - second) exponent) :
    dyadic first exponent - dyadic second exponent = dyadic (first - second) exponent := by
  change Float.ofModel (.pack (UnpackedFloat.sub .binary64 _ _)) = _
  rw [fits.unpack_dyadic, other.unpack_dyadic, sub_spread difference.small difference.above]
  rfl

theorem mul {otherExponent : Int} (positive : 0 < first) (fits : Fits first exponent)
    (other : Fits second otherExponent)
    (product : Fits (first * second) (exponent + otherExponent)) :
    dyadic first exponent * dyadic second otherExponent =
      dyadic (first * second) (exponent + otherExponent) := by
  change Float.ofModel (.pack (UnpackedFloat.mul .binary64 _ _)) = _
  rw [fits.unpack_dyadic, other.unpack_dyadic, mul_spread positive product.small product.above]
  rfl

theorem neg (nonzero : value ≠ 0) (fits : Fits value exponent) :
    (dyadic value exponent).neg = dyadic (-value) exponent := by
  change Float.ofModel (.pack (UnpackedFloat.neg _)) = _
  rw [fits.unpack_dyadic, spread_of_ne_zero nonzero, dyadic,
    spread_of_ne_zero (Int.neg_ne_zero.mpr nonzero)]
  simp only [Int.natAbs_neg, signOf_neg nonzero]
  rfl

end Fits

/-- An integer is twice as many halves. -/
theorem dyadic_halves {value exponent : Int} (fits : Fits (2 * value) (exponent - 1)) :
    dyadic value exponent = dyadic (2 * value) (exponent - 1) := by
  obtain ⟨small, above, below⟩ := fits
  have once := normalize_eq_spread (show value.natAbs < 2 ^ 53 by omega)
    (show -1022 ≤ exponent by omega) 1
  have again := normalize_eq_spread small above 0
  have same : spread value exponent = spread (2 * value) (exponent - 1) := by
    rw [← once, ← again, Int.pow_zero, Int.mul_one, Int.pow_one, Int.mul_comm, Int.natCast_zero,
      Int.sub_zero, Int.natCast_one]
  rw [dyadic, same, dyadic]

theorem ofNat_eq {value : Nat} (small : value < 2 ^ 53) : Float.ofNat value = dyadic value 0 := by
  have stored : value.toUInt64.toNat = value := by
    rw [Nat.toUInt64_eq, UInt64.toNat_ofNat_of_lt' (by simp [UInt64.size]; omega)]
  have whole : value.toUInt64.toFloat = dyadic value 0 := by
    have normal := normalize_eq_spread (show (value : Int).natAbs < 2 ^ 53 by simpa using small)
      (show -1022 ≤ (0 : Int) by decide) 0
    rw [Int.pow_zero, Int.mul_one] at normal
    unfold UInt64.toFloat Float.Model.ofUInt64 UnpackedFloat.ofUInt64 UnpackedFloat.ofNat
      UnpackedFloat.ofInt
    rw [stored]
    exact congrArg (fun number => Float.ofModel (.pack number)) normal
  have one : Float.exactlyRepresentablePowersOfTen[0] = dyadic 1 0 := by decide +kernel
  change Float.ofScientific value false 0 = _
  unfold Float.ofScientific
  rw [dif_pos ⟨small, Nat.zero_le _⟩]
  dsimp only
  rw [if_neg Bool.false_ne_true, whole, one]
  cases value with
  | zero => decide +kernel
  | succ value =>
      rw [Fits.mul (by omega) {} {} {}]
      rw [Int.mul_one]
      rfl

/-- Integers of at most fifty-three bits are doubles. -/
theorem ofInt_eq {value : Int} (small : value.natAbs < 2 ^ 53) :
    Float.ofInt value = dyadic value 0 := by
  cases value with
  | ofNat value => exact ofNat_eq small
  | negSucc value =>
      have fits : Fits (value + 1 : Nat) 0 := {}
      change (Float.ofNat (value + 1)).neg = _
      rw [ofNat_eq (by omega), fits.neg (by omega)]
      rfl

theorem ofInt_eq_halves {value : Int} (small : (2 * value).natAbs < 2 ^ 53) :
    Float.ofInt value = dyadic (2 * value) (-1) := by
  rw [ofInt_eq (by omega)]
  exact dyadic_halves {}

/-! ### Values -/

/-- The number that a double stands for, unless it is infinite or no number. -/
def value? (number : Float) : Option ℚ :=
  match number.toModel.unpack with
  | .zero _ => some 0
  | .finite sign mantissa exponent _ => some ((sign.apply mantissa : Int) * (2 : ℚ) ^ exponent)
  | .infinity _ | .notANumber => none

theorem value?_dyadic {value exponent : Int} (fits : Fits value exponent) :
    value? (dyadic value exponent) = some (value * (2 : ℚ) ^ exponent) := by
  unfold value?
  rw [fits.unpack_dyadic]
  by_cases zero : value = 0
  · rw [zero, spread_zero, Int.cast_zero, zero_mul]
  · rw [spread_of_ne_zero zero]
    dsimp only
    rw [apply_signOf_filled]
    push_cast
    rw [mul_assoc, ← zpow_natCast, ← zpow_add₀ two_ne_zero, add_sub_cancel]

theorem apply_eq_zero_iff {sign : Sign} {value : Int} : sign.apply value = 0 ↔ value = 0 := by
  cases sign with
  | negative => exact Int.neg_eq_zero
  | positive => rfl

theorem unpack_zero : (0 : Float).toModel.unpack = .zero .positive := by
  change (Float.ofNat 0).toModel.unpack = _
  rw [ofNat_eq (by decide), Fits.unpack_dyadic {}]
  rfl

/-- A double equals zero exactly when the number that it stands for is zero. -/
theorem beq_zero {number : Float} {value : ℚ} (stands : value? number = some value) :
    (number == 0) = decide (value = 0) := by
  change (number.toModel.unpack.compare (0 : Float).toModel.unpack == some .eq) = _
  rw [unpack_zero]
  unfold value? at stands
  split at stands
  · next sign unpacked =>
      cases stands
      rw [unpacked]
      rfl
  · next sign mantissa exponent pos unpacked =>
      cases stands
      have apart : (sign.apply mantissa : ℚ) * 2 ^ exponent ≠ 0 := by
        refine mul_ne_zero ?_ (zpow_ne_zero _ two_ne_zero)
        rw [Int.cast_ne_zero, Ne, apply_eq_zero_iff]
        omega
      rw [unpacked, decide_eq_false apart]
      cases sign <;> rfl
  · cases stands
  · cases stands

end OutlineFont.Double
