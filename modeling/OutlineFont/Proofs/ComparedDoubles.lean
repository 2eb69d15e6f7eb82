import OutlineFont.Proofs.ExactDoubles

/-!
# Comparing doubles

Doubles that are neither infinite nor without a value are compared as the
numbers that they stand for.  A quotient of small integers is such a double,
whatever it is rounded to, and zero times it is zero.
-/

namespace OutlineFont.Double

open Float.Model Float.Model.UnpackedFloat

/-! ### Mantissas and exponents -/

/-- Of an unpacked double, the mantissa has as many bits as it can, or the exponent is the least. -/
structure Canonical (mantissa : Nat) (exponent : Int) : Prop where
  small : mantissa < 2 ^ 53
  above : -1074 ≤ exponent
  full : 2 ^ 52 ≤ mantissa ∨ exponent = -1074

theorem canonical_of_unpack {number : Float.Model} {sign : Sign} {mantissa : Nat} {exponent : Int}
    {pos : 0 < mantissa} (unpacked : number.unpack = .finite sign mantissa exponent pos) :
    Canonical mantissa exponent := by
  unfold Float.Model.unpack UnpackedFloat.unpack at unpacked
  have bias : Format.binary64.exponentBias = 1023 := rfl
  dsimp only at unpacked
  have bound : (@unpackMantissa .binary64 number.toBits.toBitVec).toNat < 2 ^ 52 := BitVec.isLt _
  split at unpacked
  · split at unpacked <;> cases unpacked
  · split at unpacked
    next least =>
      split at unpacked
      · cases unpacked
      · cases unpacked
        rw [least, bias]
        exact ⟨by omega, by decide, .inr rfl⟩
    next more =>
      cases unpacked
      have implicit : (1#1 ++ @unpackMantissa .binary64 number.toBits.toBitVec).toNat =
          2 ^ 52 + (@unpackMantissa .binary64 number.toBits.toBitVec).toNat := by
        rw [BitVec.toNat_append, ← Nat.shiftLeft_add_eq_or_of_lt bound]
        rfl
      have pos : (@unpackExponent .binary64 number.toBits.toBitVec).toNat ≠ 0 := fun zero =>
        more (BitVec.eq_of_toNat_eq zero)
      rw [implicit, bias]
      exact ⟨by omega, by omega, .inl (by omega)⟩

theorem Canonical.lt_of_lt {mantissa other : Nat} {exponent further : Int}
    (first : Canonical mantissa exponent) (second : Canonical other further)
    (less : exponent < further) : (mantissa * 2 ^ exponent : ℚ) < other * 2 ^ further := by
  have full : 2 ^ 52 ≤ other := second.full.resolve_right (by have := first.above; omega)
  calc (mantissa * 2 ^ exponent : ℚ)
      < 2 ^ (53 : ℤ) * 2 ^ exponent := by
        gcongr
        exact_mod_cast first.small
    _ = 2 ^ (53 + exponent) := (zpow_add₀ two_ne_zero _ _).symm
    _ ≤ 2 ^ (52 + further) := zpow_le_zpow_right₀ one_le_two (by omega)
    _ = 2 ^ (52 : ℤ) * 2 ^ further := zpow_add₀ two_ne_zero _ _
    _ ≤ other * 2 ^ further := by
        gcongr
        exact_mod_cast full

theorem compare_mul_right {factor : ℚ} (pos : 0 < factor) (first second : ℚ) :
    compare (first * factor) (second * factor) = compare first second := by
  rcases lt_trichotomy first second with less | rfl | greater
  · rw [compare_lt_iff_lt.mpr less, compare_lt_iff_lt.mpr (mul_lt_mul_of_pos_right less pos)]
  · rw [compare_eq_iff_eq.mpr rfl, compare_eq_iff_eq.mpr rfl]
  · rw [compare_gt_iff_gt.mpr greater, compare_gt_iff_gt.mpr (mul_lt_mul_of_pos_right greater pos)]

theorem compare_natCast (first second : Nat) :
    compare (first : ℚ) second = compare first second := by
  rcases lt_trichotomy first second with less | rfl | greater
  · rw [compare_lt_iff_lt.mpr less, compare_lt_iff_lt.mpr (Nat.cast_lt.mpr less)]
  · rw [compare_eq_iff_eq.mpr rfl, compare_eq_iff_eq.mpr rfl]
  · rw [compare_gt_iff_gt.mpr greater, compare_gt_iff_gt.mpr (Nat.cast_lt.mpr greater)]

theorem swap_compare (first second : ℚ) :
    (compare first second).swap = compare (-first) (-second) := by
  rcases lt_trichotomy first second with less | rfl | greater
  · rw [compare_lt_iff_lt.mpr less, compare_gt_iff_gt.mpr (neg_lt_neg less)]
    rfl
  · rw [compare_eq_iff_eq.mpr rfl, compare_eq_iff_eq.mpr rfl]
    rfl
  · rw [compare_gt_iff_gt.mpr greater, compare_lt_iff_lt.mpr (neg_lt_neg greater)]
    rfl

/-- Exponents decide first, and then mantissas. -/
theorem Canonical.compare_eq {mantissa other : Nat} {exponent further : Int}
    (first : Canonical mantissa exponent) (second : Canonical other further) :
    (compare exponent further).then (compare mantissa other) =
      compare (mantissa * 2 ^ exponent : ℚ) (other * 2 ^ further) := by
  rcases lt_trichotomy exponent further with less | rfl | greater
  · rw [compare_lt_iff_lt.mpr less, compare_lt_iff_lt.mpr (first.lt_of_lt second less)]
    rfl
  · rw [compare_eq_iff_eq.mpr rfl, compare_mul_right (zpow_pos two_pos exponent), compare_natCast]
    rfl
  · rw [compare_gt_iff_gt.mpr greater, compare_gt_iff_gt.mpr (second.lt_of_lt first greater)]
    rfl

/-! ### Comparing values -/

/-- The number that an unpacked double stands for. -/
inductive Stands : UnpackedFloat → ℚ → Prop where
  | zero (sign : Sign) : Stands (.zero sign) 0
  | positive {mantissa : Nat} {exponent : Int} (pos : 0 < mantissa)
      (canonical : Canonical mantissa exponent) :
      Stands (.finite .positive mantissa exponent pos) (mantissa * 2 ^ exponent)
  | negative {mantissa : Nat} {exponent : Int} (pos : 0 < mantissa)
      (canonical : Canonical mantissa exponent) :
      Stands (.finite .negative mantissa exponent pos) (-(mantissa * 2 ^ exponent))

theorem stands_of_value? {number : Float} {value : ℚ} (stands : value? number = some value) :
    Stands number.toModel.unpack value := by
  unfold value? at stands
  split at stands
  next sign unpacked =>
    cases stands
    exact unpacked ▸ .zero sign
  next sign mantissa exponent pos unpacked =>
    cases stands
    have canonical := canonical_of_unpack unpacked
    rw [unpacked]
    cases sign with
    | positive => exact .positive pos canonical
    | negative =>
        rw [Sign.apply, Int.cast_neg, neg_mul]
        exact .negative pos canonical
  · cases stands
  · cases stands

theorem Stands.compare_eq {number other : UnpackedFloat} {first second : ℚ}
    (stands : Stands number first) (stands' : Stands other second) :
    number.compare other = some (compare first second) := by
  have magnitude {mantissa : Nat} (pos : 0 < mantissa) (exponent : Int) :
      (0 : ℚ) < mantissa * 2 ^ exponent :=
    mul_pos (Nat.cast_pos.mpr pos) (zpow_pos two_pos exponent)
  cases stands with
  | zero sign =>
      cases stands' with
      | zero sign' => rw [compare_eq_iff_eq.mpr rfl]; rfl
      | @positive _ exponent pos _ => rw [compare_lt_iff_lt.mpr (magnitude pos exponent)]; rfl
      | @negative _ exponent pos _ =>
          rw [compare_gt_iff_gt.mpr (neg_lt_zero.mpr (magnitude pos exponent))]; rfl
  | @positive _ exponent pos canonical =>
      have above := magnitude pos exponent
      cases stands' with
      | zero sign' => rw [compare_gt_iff_gt.mpr above]; rfl
      | positive _ canonical' =>
          rw [← canonical.compare_eq canonical']
          rfl
      | @negative _ exponent' pos' _ =>
          rw [compare_gt_iff_gt.mpr ((neg_lt_zero.mpr (magnitude pos' exponent')).trans above)]
          rfl
  | @negative _ exponent pos canonical =>
      have below := neg_lt_zero.mpr (magnitude pos exponent)
      cases stands' with
      | zero sign' => rw [compare_lt_iff_lt.mpr below]; rfl
      | @positive _ exponent' pos' _ =>
          rw [compare_lt_iff_lt.mpr (below.trans (magnitude pos' exponent'))]
          rfl
      | negative _ canonical' =>
          rw [← swap_compare, ← canonical.compare_eq canonical']
          rfl

/-- What stands for a number is below the upper infinity and above the lower one. -/
theorem Stands.between_infinities {number : UnpackedFloat} {value : ℚ}
    (stands : Stands number value) :
    UnpackedFloat.compare (.infinity .positive) number = some .gt ∧
      number.compare (.infinity .negative) = some .gt := by
  cases stands <;> exact ⟨rfl, rfl⟩

theorem lt_iff_compare (number other : Float) : number < other ↔
    (number.toModel.unpack.compare other.toModel.unpack == some .lt) = true :=
  decide_eq_true_iff

theorem le_iff_compare (number other : Float) : number ≤ other ↔
    (number.toModel.unpack.compare other.toModel.unpack).any (·.isLE) = true :=
  decide_eq_true_iff

section Values

variable {number other : Float} {first second : ℚ} (stands : value? number = some first)
  (stands' : value? other = some second)

include stands stands'

/-- Doubles are compared as the numbers that they stand for. -/
theorem compare_unpack :
    number.toModel.unpack.compare other.toModel.unpack = some (compare first second) :=
  (stands_of_value? stands).compare_eq (stands_of_value? stands')

theorem lt_iff : number < other ↔ first < second := by
  rw [lt_iff_compare, compare_unpack stands stands', beq_iff_eq, Option.some.injEq,
    compare_lt_iff_lt]

theorem le_iff : number ≤ other ↔ first ≤ second := by
  rw [le_iff_compare, compare_unpack stands stands', Option.any_some, Ordering.isLE_iff_ne_gt]
  exact compare_le_iff_le

end Values

/-- What lies behind one number and not behind another stands for a number. -/
theorem exists_value?_of_between {low number high : Float} {first last : ℚ}
    (lowStands : value? low = some first) (highStands : value? high = some last)
    (behind : low < number) (before : number ≤ high) :
    ∃ value, value? number = some value := by
  rw [lt_iff_compare] at behind
  rw [le_iff_compare] at before
  unfold value?
  cases unpacked : number.toModel.unpack with
  | zero sign => exact ⟨_, rfl⟩
  | finite sign mantissa exponent pos => exact ⟨_, rfl⟩
  | notANumber =>
      rw [unpacked] at before
      cases before
  | infinity sign =>
      rw [unpacked] at behind before
      cases sign with
      | positive =>
          rw [(stands_of_value? highStands).between_infinities.1] at before
          cases before
      | negative =>
          rw [(stands_of_value? lowStands).between_infinities.2] at behind
          cases behind

/-! ### Quotients -/

/-- What is packed with an exponent that is not too large is not unpacked as infinite. -/
theorem isFinite_unpack_pack (sign : Sign) {mantissa : Nat} (pos : 0 < mantissa) {exponent : Int}
    (below : exponent ≤ 971) :
    (Float.Model.pack (.finite sign mantissa exponent pos)).unpack.isFinite := by
  have bias : Format.binary64.exponentBias = 1023 := rfl
  have finite {biased : BitVec 11} (notAll : biased ≠ -1#11) (fraction : BitVec 52) :
      (UnpackedFloat.unpack .binary64
        (packComponents .binary64 sign biased fraction)).isFinite := by
    unfold UnpackedFloat.unpack
    simp only [unpackMantissa_packComponents, unpackExponent_packComponents]
    rw [if_neg notAll]
    split
    · split <;> rfl
    · rfl
  have notAll : BitVec.ofNat 11 (exponent + 1023 + (52 : Nat)).toNat ≠ -1#11 := by
    intro same
    have values := congrArg BitVec.toNat same
    simp at values
    omega
  unfold Float.Model.unpack Float.Model.pack UnpackedFloat.pack
  dsimp only
  rw [bias, if_neg (by simp; omega)]
  split
  · exact finite notAll _
  · exact finite (by decide) _

theorem mantissa_shiftRight (extended : ExtendedMantissa) (shift : Nat) :
    (extended >>> shift).mantissa = extended.mantissa / 2 ^ shift := by
  change (Nat.repeat ExtendedMantissa.shiftRightOne shift extended).mantissa = _
  induction shift with
  | zero => rw [Nat.pow_zero, Nat.div_one]; rfl
  | succ shift ih =>
      rw [Nat.repeat, ExtendedMantissa.shiftRightOne, ih, Nat.div_div_eq_div_mul, Nat.pow_succ]

theorem mantissa_ofMantissaAndAccuracy (mantissa : Nat) (accuracy : Accuracy) :
    (ExtendedMantissa.ofMantissaAndAccuracy mantissa accuracy).mantissa = mantissa := by
  cases accuracy with
  | exact => rfl
  | inexact order => cases order <;> rfl

theorem roundToNearestEven_le (mantissa : Nat) (accuracy : Accuracy) :
    accuracy.roundToNearestEven mantissa ≤ mantissa + 1 := by
  cases accuracy with
  | exact => exact Nat.le_succ mantissa
  | inexact order =>
      cases order with
      | lt => exact Nat.le_succ mantissa
      | eq => exact Nat.add_le_add_left (Nat.le_of_lt_succ (Nat.mod_lt _ two_pos)) mantissa
      | gt => exact le_rfl

/-- Bits are shifted out until the rest fits a double, and the exponent grows by their number. -/
theorem shiftToTargetExponent_spec (mantissa : Nat) (exponent : Int) (accuracy : Accuracy) :
    (shiftToTargetExponent .binary64 mantissa exponent accuracy).1.mantissa =
        mantissa / 2 ^ (max (mantissa.log2 + exponent - 52) (-1074) - exponent).toNat ∧
      (shiftToTargetExponent .binary64 mantissa exponent accuracy).2 =
        max exponent (max (mantissa.log2 + exponent - 52) (-1074)) := by
  have target : (mantissa.log2 : Int) + 1 + exponent - 53 = mantissa.log2 + exponent - 52 := by
    omega
  unfold shiftToTargetExponent shiftToExponent
  rw [targetExponent_eq, totalExponent, target]
  dsimp only
  rw [mantissa_shiftRight, mantissa_ofMantissaAndAccuracy]
  exact ⟨rfl, by omega⟩

/-- A number of moderate size is rounded to a finite double. -/
theorem isFinite_roundWithAccuracy (sign : Sign) {mantissa : Nat} (small : mantissa < 2 ^ 120)
    {exponent : Int} (below : exponent ≤ 120) (accuracy : Accuracy) :
    (Float.Model.pack (roundWithAccuracy .binary64 sign mantissa exponent
      accuracy)).unpack.isFinite := by
  have first := shiftToTargetExponent_spec mantissa exponent accuracy
  have fewer : (shiftToTargetExponent .binary64 mantissa exponent accuracy).1.mantissa ≤
      mantissa := first.1.trans_le (Nat.div_le_self _ _)
  unfold roundWithAccuracy
  generalize shiftToTargetExponent .binary64 mantissa exponent accuracy = shifted at first fewer
  have again := shiftToTargetExponent_spec shifted.1.roundedMantissa shifted.2 .exact
  have rounded : shifted.1.roundedMantissa ≤ shifted.1.mantissa + 1 :=
    roundToNearestEven_le _ _
  have width := log2_lt_of_lt (by decide) small
  have width' : shifted.1.roundedMantissa.log2 < 121 := log2_lt_of_lt (by decide) (by omega)
  dsimp only
  split
  · exact congrArg UnpackedFloat.isFinite unpack_packedZero
  · exact isFinite_unpack_pack sign _ (by omega)

theorem divCore_eq {dividend divisor : Nat} (full : dividend.log2 = 52)
    (full' : divisor.log2 = 52) {exponent further : Int} (low : -52 ≤ exponent - further)
    (high : exponent - further ≤ 52) :
    divCore .binary64 dividend exponent divisor further =
      (dividend * 2 ^ 53 / divisor, exponent - further - 53,
        accuracyOfFraction (dividend * 2 ^ 53 % divisor) divisor) := by
  unfold divCore
  rw [targetExponent_eq, totalExponent, totalExponent, full, full']
  dsimp only
  rw [show min (exponent - further)
      (max ((52 : Nat) + 1 + exponent - ((52 : Nat) + 1 + further) - 53) (-1074)) =
        exponent - further - 53 by omega,
    show (exponent - further - (exponent - further - 53)).toNat = 53 by omega, Nat.shiftLeft_eq]

/-- What is divided is a quotient of mantissas, rounded if it leaves a remainder. -/
theorem exists_div_eq {dividend divisor exponent : Int} (fits : Fits dividend exponent)
    (fits' : Fits divisor exponent) (nonzero : dividend ≠ 0) (nonzero' : divisor ≠ 0) : ∃ accuracy,
    (filled divisor.natAbs ∣ filled dividend.natAbs → accuracy = .exact) ∧
    dyadic dividend exponent / dyadic divisor exponent =
      .ofModel (.pack (roundWithAccuracy .binary64 (signOf dividend / signOf divisor)
        (filled dividend.natAbs * 2 ^ 53 / filled divisor.natAbs)
        (lacking divisor.natAbs - lacking dividend.natAbs - 53) accuracy)) := by
  have full := log2_filled (Int.natAbs_pos.mpr nonzero) fits.small
  have full' := log2_filled (Int.natAbs_pos.mpr nonzero') fits'.small
  refine ⟨accuracyOfFraction (filled dividend.natAbs * 2 ^ 53 % filled divisor.natAbs)
    (filled divisor.natAbs), fun divides => if_pos (Nat.mod_eq_zero_of_dvd (divides.mul_right _)),
    ?_⟩
  change Float.ofModel (.pack (UnpackedFloat.div .binary64 _ _)) = _
  rw [fits.unpack_dyadic, fits'.unpack_dyadic, spread_of_ne_zero nonzero,
    spread_of_ne_zero nonzero', UnpackedFloat.div,
    divCore_eq full full' (by unfold lacking; omega) (by unfold lacking; omega)]
  dsimp only
  rw [show exponent - lacking dividend.natAbs - (exponent - lacking divisor.natAbs) - 53 =
    (lacking divisor.natAbs - lacking dividend.natAbs - 53 : Int) by omega]

theorem exists_unpack_zero_div {divisor exponent : Int} (fits : Fits 0 exponent)
    (fits' : Fits divisor exponent) (nonzero : divisor ≠ 0) :
    ∃ sign, (dyadic 0 exponent / dyadic divisor exponent).toModel.unpack = .zero sign := by
  change ∃ sign, (Float.Model.pack (UnpackedFloat.div .binary64 _ _)).unpack = .zero sign
  rw [fits.unpack_dyadic, fits'.unpack_dyadic, spread_zero, spread_of_ne_zero nonzero]
  exact ⟨_, unpack_packedZero⟩

theorem isFinite_div {dividend divisor : Int} (fits : Fits dividend 0) (fits' : Fits divisor 0)
    (nonzero : divisor ≠ 0) :
    (Float.ofInt dividend / Float.ofInt divisor).toModel.unpack.isFinite := by
  rw [ofInt_eq fits.small, ofInt_eq fits'.small]
  by_cases zero : dividend = 0
  · subst zero
    obtain ⟨sign, unpacked⟩ := exists_unpack_zero_div fits fits' nonzero
    exact congrArg UnpackedFloat.isFinite unpacked
  · obtain ⟨accuracy, _, quotient⟩ := exists_div_eq fits fits' zero nonzero
    have full := log2_filled (Int.natAbs_pos.mpr zero) fits.small
    have small : filled dividend.natAbs < 2 ^ (_ + 1) := Nat.lt_log2_self
    have less := Nat.div_le_self (filled dividend.natAbs * 2 ^ 53) (filled divisor.natAbs)
    rw [full] at small
    rw [quotient]
    exact isFinite_roundWithAccuracy _ (by omega) (by unfold lacking; omega) accuracy

/-- A finite double times zero adds nothing. -/
theorem value?_add_mul_zero {place : Int} (fits : Fits place 0) {factor : Float}
    (finite : factor.toModel.unpack.isFinite) :
    value? (Float.ofInt place + factor * Float.ofInt 0) = some (place : ℚ) := by
  obtain ⟨sign, product⟩ : ∃ sign,
      (factor * Float.ofInt 0).toModel.unpack = .zero sign := by
    rw [ofInt_eq (by decide)]
    change ∃ sign, (Float.Model.pack (UnpackedFloat.mul .binary64 factor.toModel.unpack
      (dyadic 0 0).toModel.unpack)).unpack = .zero sign
    rw [Fits.unpack_dyadic {}, spread_zero]
    cases unpacked : factor.toModel.unpack with
    | zero sign => exact ⟨_, unpack_packedZero⟩
    | finite sign mantissa exponent pos => exact ⟨_, unpack_packedZero⟩
    | infinity sign => rw [unpacked] at finite; cases finite
    | notANumber => rw [unpacked] at finite; cases finite
  rw [ofInt_eq fits.small]
  change value? (.ofModel (.pack (UnpackedFloat.add .binary64 (dyadic place 0).toModel.unpack
    (factor * Float.ofInt 0).toModel.unpack))) = _
  rw [fits.unpack_dyadic, product]
  by_cases zero : place = 0
  · obtain ⟨sign', sum⟩ : ∃ sign', UnpackedFloat.add .binary64 (.zero .positive) (.zero sign) =
        .zero sign' := by
      cases sign <;> exact ⟨_, rfl⟩
    have unpacked : (Float.ofModel (.pack (.zero sign'))).toModel.unpack = .zero sign' :=
      unpack_packedZero
    rw [zero, spread_zero, sum, value?, unpacked, Int.cast_zero]
  · have sum : UnpackedFloat.add .binary64 (spread place 0) (.zero sign) = spread place 0 := by
      rw [spread_of_ne_zero zero]
      rfl
    rw [sum]
    exact (value?_dyadic fits).trans (by rw [zpow_zero, mul_one])

theorem value?_ofInt {value : Int} (fits : Fits value 0) :
    value? (Float.ofInt value) = some (value : ℚ) := by
  rw [ofInt_eq fits.small, value?_dyadic fits, zpow_zero, mul_one]

end OutlineFont.Double
