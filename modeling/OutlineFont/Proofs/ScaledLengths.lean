import Mathlib.Algebra.Order.Field.Basic
import Mathlib.Data.Rat.Floor
import Mathlib.Tactic.FieldSimp
import Mathlib.Tactic.Ring
import OutlineFont.Hinting.Machine
import OutlineFont.Proofs.RoundedDistances

/-!
# Lengths scaled to a size

A length in font units is multiplied by the pixels of an em and divided by its
units.  Half the divisor is added to the magnitude before a division that drops
what remains, so the quotient is the nearest integer, for odd divisors as for
even ones.  What holds of evenly spaced places in general then holds of the
multiples of the divisor: opposite lengths have opposite quotients, and longer
ones no smaller ones.
-/

namespace OutlineFont.Hinting

/-- The integer that is nearest to a number, the farther one from zero of two. -/
structure IsNearestInteger (exact : ℚ) (result : Int) : Prop where
  nearest : ∀ other : Int, |exact - result| ≤ |exact - other|
  farther : ∀ other : Int, |exact - other| = |exact - result| → |other| ≤ |result|

/-- No number is more than a half away from the integer that is nearest to it. -/
theorem IsNearestInteger.abs_sub_le {exact : ℚ} {result : Int}
    (nearest : IsNearestInteger exact result) : |exact - result| ≤ 1 / 2 :=
  (nearest.nearest (round exact)).trans (abs_sub_round exact)

/-- A fraction and an integer are as far apart as the numerator and a multiple, divided. -/
theorem abs_div_sub {denominator : Nat} (pos : 0 < denominator) (numerator result : Int) :
    |(numerator / denominator : ℚ) - result| =
      (|numerator - denominator * result| : Int) / (denominator : ℚ) := by
  have positive : (0 : ℚ) < denominator := Nat.cast_pos.mpr pos
  have together : (numerator / denominator : ℚ) - result =
      (numerator - denominator * result) / denominator := by
    field_simp
  rw [together, abs_div, abs_of_pos positive]
  push_cast
  rfl

/-- The integer nearest to a fraction tells the multiple of the divisor nearest to the numerator. -/
theorem isNearestInteger_div_iff {denominator : Nat} (pos : 0 < denominator)
    {numerator result : Int} :
    IsNearestInteger (numerator / denominator) result ↔
      IsNearest denominator numerator (denominator * result) := by
  have positive : (0 : ℚ) < denominator := Nat.cast_pos.mpr pos
  have step : (0 : Int) < denominator := Int.natCast_pos.mpr pos
  have size (other : Int) : |denominator * other| = denominator * |other| := by
    rw [abs_mul, abs_of_pos step]
  constructor
  · rintro ⟨nearest, farther⟩
    simp only [abs_div_sub pos, div_le_div_iff_of_pos_right positive,
      div_left_inj' positive.ne', Int.cast_le, Int.cast_inj] at nearest farther
    refine ⟨Int.dvd_mul_right _ _, ?_, ?_⟩
    · rintro _ ⟨other, rfl⟩
      exact nearest other
    · rintro _ ⟨other, rfl⟩ tie
      rw [size, size]
      exact Int.mul_le_mul_of_nonneg_left (farther other tie) step.le
  · rintro ⟨_, nearest, farther⟩
    refine ⟨?_, ?_⟩
    · intro other
      rw [abs_div_sub pos, abs_div_sub pos, div_le_div_iff_of_pos_right positive, Int.cast_le]
      exact nearest _ (Int.dvd_mul_right _ _)
    · intro other tie
      rw [abs_div_sub pos, abs_div_sub pos, div_left_inj' positive.ne', Int.cast_inj] at tie
      have least := farther _ (Int.dvd_mul_right _ _) tie
      rw [size, size] at least
      exact Int.le_of_mul_le_mul_left least step

/-- The multiples of a divisor, to which numbers are raised from halfway on. -/
def Spacing.multiples (denominator : Nat) (pos : 0 < denominator) : Spacing where
  step := denominator
  lead := (denominator / 2 : Nat)
  offset := 0
  lead_nonneg := Int.natCast_nonneg _
  offset_nonneg := le_rfl
  sum_lt := by omega

namespace Spacing

variable {denominator : Nat} (pos : 0 < denominator) {numerator : Int}

/-- A multiple is on a place of its own. -/
theorem place_multiples_mul (count : Int) :
    (multiples denominator pos).place (denominator * count) = denominator * count := by
  have step : (denominator : Int) ≠ 0 := by omega
  have less : ((denominator / 2 : Nat) : Int) < denominator := by omega
  simp only [place, multiples]
  rw [Int.mul_add_ediv_left _ _ step, Int.ediv_eq_zero_of_lt (Int.natCast_nonneg _) less]
  simp only [add_zero]

theorem isNearest_place_multiples (nonneg : 0 ≤ numerator) :
    IsNearest denominator numerator ((multiples denominator pos).place numerator) := by
  have multiple := (multiples denominator pos).dvd_place_sub numerator
  have least := (multiples denominator pos).place_le numerator
  have less := (multiples denominator pos).lt_place_add numerator
  generalize (multiples denominator pos).place numerator = result at *
  simp only [multiples, sub_zero] at multiple least less
  exact isNearest_of_nonneg nonneg multiple (by omega) (by omega)

theorem isNearest_signed_multiples (numerator : Int) :
    IsNearest denominator numerator ((multiples denominator pos).signed numerator) := by
  rcases lt_or_ge numerator 0 with below | above
  · rw [signed_of_neg _ below]
    have mirrored := (isNearest_place_multiples pos (neg_pos.mpr below).le).neg
    rwa [neg_neg] at mirrored
  · rw [signed_of_nonneg _ above]
    exact isNearest_place_multiples pos above

end Spacing

namespace Fixed

/-- A value moved away from zero; zero itself is moved up. -/
def awayFromZero (value amount : Int) : Int :=
  if value < 0 then value - amount else value + amount

theorem abs_awayFromZero (value : Int) {amount : Int} (nonneg : 0 ≤ amount) :
    |awayFromZero value amount| = |value| + amount := by
  unfold awayFromZero
  split
  · next below => rw [abs_of_neg below, abs_of_neg (by omega), neg_sub', sub_neg_eq_add]
  · next above => rw [abs_of_nonneg (not_lt.mp above), abs_of_nonneg (by omega)]

theorem nearestQuotient_eq_tdiv (numerator : Int) (denominator : Nat) :
    nearestQuotient numerator denominator =
      (awayFromZero numerator (denominator / 2 : Nat)).tdiv denominator := by
  unfold nearestQuotient awayFromZero
  split <;> rfl

section

variable {denominator : Nat} (pos : 0 < denominator)

include pos

/-- The quotient counts the multiple on whose place the numerator is put. -/
theorem mul_nearestQuotient (numerator : Int) :
    denominator * nearestQuotient numerator denominator =
      (Spacing.multiples denominator pos).signed numerator := by
  unfold nearestQuotient
  split
  · next below =>
      have opposite : numerator - (denominator / 2 : Nat) =
          -(-numerator + (denominator / 2 : Nat)) := by omega
      rw [Spacing.signed_of_neg _ below, opposite, Int.neg_tdiv,
        Int.tdiv_eq_ediv_of_nonneg (by omega), mul_neg]
      simp only [Spacing.place, Spacing.multiples, add_zero]
  · next above =>
      rw [Spacing.signed_of_nonneg _ (not_lt.mp above), Int.tdiv_eq_ediv_of_nonneg (by omega)]
      simp only [Spacing.place, Spacing.multiples, add_zero]

/-- The quotient is the one integer that is nearest to the fraction. -/
theorem isNearestInteger_iff_eq_nearestQuotient {numerator result : Int} :
    IsNearestInteger (numerator / denominator) result ↔
      result = nearestQuotient numerator denominator := by
  have nearest := Spacing.isNearest_signed_multiples pos numerator
  rw [← mul_nearestQuotient] at nearest
  rw [isNearestInteger_div_iff pos]
  constructor
  · intro nearest'
    exact Int.eq_of_mul_eq_mul_left (by omega) (nearest'.unique nearest)
  · rintro rfl
    exact nearest

theorem nearestQuotient_neg (numerator : Int) :
    nearestQuotient (-numerator) denominator = -nearestQuotient numerator denominator := by
  have step : (denominator : Int) ≠ 0 := by omega
  apply Int.eq_of_mul_eq_mul_left step
  rw [mul_neg, mul_nearestQuotient pos, mul_nearestQuotient pos]
  by_cases zero : numerator = 0
  · subst zero
    have fixed := Spacing.place_multiples_mul pos 0
    rw [mul_zero] at fixed
    rw [neg_zero, Spacing.signed_of_nonneg _ le_rfl, fixed, neg_zero]
  · exact Spacing.signed_neg _ zero

theorem nearestQuotient_le_nearestQuotient {numerator other : Int} (le : numerator ≤ other) :
    nearestQuotient numerator denominator ≤ nearestQuotient other denominator := by
  have step : (0 : Int) < denominator := by omega
  apply Int.le_of_mul_le_mul_left _ step
  rw [mul_nearestQuotient pos, mul_nearestQuotient pos]
  exact Spacing.signed_le_signed _ le

/-- A numerator within so many times the divisor has no greater quotient. -/
theorem abs_nearestQuotient_le {numerator bound : Int}
    (within : |numerator| ≤ denominator * bound) :
    |nearestQuotient numerator denominator| ≤ bound := by
  have step : (0 : Int) < denominator := by omega
  apply Int.le_of_mul_le_mul_left _ step
  calc
    denominator * |nearestQuotient numerator denominator|
      = |denominator * nearestQuotient numerator denominator| := by
        rw [abs_mul, abs_of_pos step]
    _ = (Spacing.multiples denominator pos).place |numerator| := by
        rw [mul_nearestQuotient pos, Spacing.abs_signed]
    _ ≤ (Spacing.multiples denominator pos).place (denominator * bound) :=
        Spacing.place_le_place _ within
    _ = denominator * bound := Spacing.place_multiples_mul pos bound

end

/-! ### Lengths -/

/-- A length in font units, in sixty-fourths of a pixel, as a number that need not be whole. -/
def exactLength (value : Int) (ppem : Nat) (unitsPerEm : UInt16) : ℚ :=
  64 * value * ppem / unitsPerEm.toNat

section

variable {unitsPerEm : UInt16} (pos : 0 < unitsPerEm) {ppem : Nat} {value other : Int32}

include pos

theorem max_toNat_one : Nat.max unitsPerEm.toNat 1 = unitsPerEm.toNat :=
  Nat.max_eq_left (UInt16.lt_iff_toNat_lt.mp pos)

theorem isNearestInteger_exactLength_iff {length result : Int} :
    IsNearestInteger (exactLength length ppem unitsPerEm) result ↔
      result = nearestQuotient (length * 64 * ppem) unitsPerEm.toNat := by
  have same : exactLength length ppem unitsPerEm =
      ((length * 64 * ppem : Int) : ℚ) / unitsPerEm.toNat := by
    rw [exactLength]
    push_cast
    ring
  rw [same]
  exact isNearestInteger_iff_eq_nearestQuotient (UInt16.lt_iff_toNat_lt.mp pos)

variable (within : ppem ≤ unitsPerEm.toNat)

include within

/-- An em has no more pixels than units, so no length grows beyond its pixels at one per unit. -/
theorem abs_nearestQuotient_length_le (length : Int) :
    |nearestQuotient (length * 64 * ppem) unitsPerEm.toNat| ≤ 64 * |length| := by
  apply abs_nearestQuotient_le (UInt16.lt_iff_toNat_lt.mp pos)
  rw [abs_mul, abs_mul, Int.abs_natCast, show |(64 : Int)| = 64 from rfl, mul_comm,
    mul_comm |length|]
  exact Int.mul_le_mul_of_nonneg_right (Int.ofNat_le.mpr within) (by positivity)

variable (small : |value.toInt| < 2 ^ 25)

include small

/-- The word holds the quotient of a length that is small enough. -/
theorem toInt_bits_ofFontUnits :
    (ofFontUnits value ppem unitsPerEm).bits.toInt =
      nearestQuotient (value.toInt * 64 * ppem) unitsPerEm.toNat := by
  have bounded := abs_le.mp (abs_nearestQuotient_length_le pos within value.toInt)
  rw [ofFontUnits, ofInt, max_toNat_one pos]
  exact Int32.toInt_ofInt_of_le (by omega) (by omega)

theorem abs_toInt_bits_ofFontUnits_le :
    |(ofFontUnits value ppem unitsPerEm).bits.toInt| ≤ 64 * |value.toInt| := by
  rw [toInt_bits_ofFontUnits pos within small]
  exact abs_nearestQuotient_length_le pos within value.toInt

theorem isNearestInteger_iff_eq_ofFontUnits {result : Int} :
    IsNearestInteger (exactLength value.toInt ppem unitsPerEm) result ↔
      result = (ofFontUnits value ppem unitsPerEm).bits.toInt := by
  rw [toInt_bits_ofFontUnits pos within small]
  exact isNearestInteger_exactLength_iff pos

theorem ofFontUnits_neg :
    ofFontUnits (-value) ppem unitsPerEm = -ofFontUnits value ppem unitsPerEm := by
  have least : -2 ^ 31 < (Fixed.mk value).bits.toInt := neg_lt_of_abs_lt (by dsimp only; omega)
  have opposite : (-value).toInt = -value.toInt := toInt_bits_neg least
  have small' : |(-value).toInt| < 2 ^ 25 := by rwa [opposite, abs_neg]
  have bounded := abs_le.mp (abs_toInt_bits_ofFontUnits_le pos within small)
  apply ext_toInt
  rw [toInt_bits_neg (by omega), toInt_bits_ofFontUnits pos within small',
    toInt_bits_ofFontUnits pos within small, opposite, Int.neg_mul, Int.neg_mul,
    nearestQuotient_neg (UInt16.lt_iff_toNat_lt.mp pos)]

theorem ofFontUnits_le_ofFontUnits (small' : |other.toInt| < 2 ^ 25) (le : value ≤ other) :
    (ofFontUnits value ppem unitsPerEm).bits ≤ (ofFontUnits other ppem unitsPerEm).bits := by
  rw [Int32.le_iff_toInt_le] at le ⊢
  rw [toInt_bits_ofFontUnits pos within small, toInt_bits_ofFontUnits pos within small']
  apply nearestQuotient_le_nearestQuotient (UInt16.lt_iff_toNat_lt.mp pos)
  exact Int.mul_le_mul_of_nonneg_right (Int.mul_le_mul_of_nonneg_right le (by decide))
    (Int.natCast_nonneg ppem)

end

/-! ### Words of sixty-four bits -/

/-- An integer, if a signed word of sixty-four bits holds it. -/
def word64? (value : Int) : Option Int :=
  if -2 ^ 63 ≤ value ∧ value < 2 ^ 63 then some value else none

theorem word64?_bind {α : Type} {value : Int} (fits : |value| < 2 ^ 63) (next : Int → Option α) :
    (word64? value >>= next) = next value := by
  have bounds := abs_lt.mp fits
  rw [word64?, if_pos ⟨bounds.1.le, bounds.2⟩]
  rfl

/-- The steps of scaling a length, ending early where the result of one leaves the word. -/
def ofFontUnits? (value : Int32) (ppem : Nat) (unitsPerEm : UInt16) : Option Fixed := do
  let divisor ← word64? (Nat.max unitsPerEm.toNat 1)
  let half ← word64? (divisor.tdiv 2)
  let length ← word64? (value.toInt * 64)
  let pixels ← word64? ppem
  let scaled ← word64? (length * pixels)
  let raised ← word64? (awayFromZero scaled half)
  let quotient ← word64? (raised.tdiv divisor)
  return ofInt quotient

/-- No step of scaling a length leaves the word. -/
theorem ofFontUnits?_eq_some {unitsPerEm : UInt16} {ppem : Nat} (within : ppem ≤ unitsPerEm.toNat)
    (value : Int32) :
    ofFontUnits? value ppem unitsPerEm = some (ofFontUnits value ppem unitsPerEm) := by
  have units := unitsPerEm.toNat_lt
  have least : -2 ^ 31 ≤ value.toInt := value.minValue_le_toInt
  have less : value.toInt < 2 ^ 31 := value.toInt_lt
  obtain ⟨divisor, same⟩ : ∃ divisor, divisor = Nat.max unitsPerEm.toNat 1 := ⟨_, rfl⟩
  have bounded : divisor < 2 ^ 16 := by
    rw [same]
    exact Nat.max_lt.mpr ⟨units, by decide⟩
  have half : (divisor : Int).tdiv 2 = (divisor / 2 : Nat) := (Int.ofNat_tdiv divisor 2).symm
  have length : |value.toInt * 64| ≤ 2 ^ 37 := abs_le.mpr ⟨by omega, by omega⟩
  have scaled : |value.toInt * 64 * ppem| ≤ 2 ^ 37 * 2 ^ 16 := by
    rw [abs_mul, Int.abs_natCast]
    exact mul_le_mul length (by omega) (Int.natCast_nonneg ppem) (by omega)
  have raised := abs_awayFromZero (value.toInt * 64 * ppem) (Int.natCast_nonneg (divisor / 2))
  have dropped :=
    Int.natAbs_tdiv_le_natAbs (awayFromZero (value.toInt * 64 * ppem) (divisor / 2 : Nat)) divisor
  rw [← Int.ofNat_le, ← Int.abs_eq_natAbs, ← Int.abs_eq_natAbs] at dropped
  rw [ofFontUnits?, ← same, word64?_bind (by rw [Int.abs_natCast]; omega), half,
    word64?_bind (by rw [Int.abs_natCast]; omega), word64?_bind (by omega),
    word64?_bind (by rw [Int.abs_natCast]; omega), word64?_bind (by omega),
    word64?_bind (by omega), word64?_bind (by omega), ofFontUnits, ← same,
    nearestQuotient_eq_tdiv]
  rfl

end Fixed

/-! ### Control values -/

/-- A machine for cells within an em has as many pixels as fit, and scaled control values. -/
theorem Machine.exists_create (profile : MaximumProfile) (controlValues : List Int16)
    {unitsPerEm : UInt16} {gridSize : Nat} (filled : 0 < gridSize)
    (fits : gridSize ≤ unitsPerEm.toNat) :
    ∃ machine, create profile controlValues unitsPerEm gridSize = .ok machine ∧
      machine.ppem = unitsPerEm.toNat / gridSize ∧
      machine.controls.toList = controlValues.map fun value =>
        .ofFontUnits value.toInt32 machine.ppem unitsPerEm :=
  have allowed : ¬(gridSize = 0 ∨ unitsPerEm.toNat < gridSize) := by omega
  ⟨_, if_neg allowed, rfl, rfl⟩

namespace Fixed

/--
Lengths are scaled to the nearest sixty-fourth of a pixel, if an em has no more
pixels than units.  The result is the one integer that is nearest, and its word
holds it if the length is below two to the power of twenty-five.  Opposite lengths
have opposite results, longer ones no smaller ones, and none grows beyond
sixty-four times the length.  No step on the way leaves a word of sixty-four bits,
for any length.  So the control values of a machine are exact to half a
sixty-fourth of a pixel.
-/
theorem ofFontUnits_nearest {unitsPerEm : UInt16} (pos : 0 < unitsPerEm) :
    (∀ ppem : Nat, ppem ≤ unitsPerEm.toNat →
      (∀ value : Int32, |value.toInt| < 2 ^ 25 →
        (∀ result : Int, IsNearestInteger (exactLength value.toInt ppem unitsPerEm) result ↔
          result = (ofFontUnits value ppem unitsPerEm).bits.toInt) ∧
        ofFontUnits (-value) ppem unitsPerEm = -ofFontUnits value ppem unitsPerEm ∧
        (∀ other : Int32, |other.toInt| < 2 ^ 25 → value ≤ other →
          (ofFontUnits value ppem unitsPerEm).bits ≤ (ofFontUnits other ppem unitsPerEm).bits) ∧
        |(ofFontUnits value ppem unitsPerEm).bits.toInt| ≤ 64 * |value.toInt|) ∧
      ∀ value : Int32,
        ofFontUnits? value ppem unitsPerEm = some (ofFontUnits value ppem unitsPerEm)) ∧
    ∀ (profile : MaximumProfile) (controlValues : List Int16) (gridSize : Nat),
      0 < gridSize → gridSize ≤ unitsPerEm.toNat →
        ∃ machine, Machine.create profile controlValues unitsPerEm gridSize = .ok machine ∧
          machine.controls.size = controlValues.length ∧
          ∀ (index : Nat) (value : Int16) (scaled : Fixed), controlValues[index]? = some value →
            machine.controls[index]? = some scaled →
              IsNearestInteger (exactLength value.toInt machine.ppem unitsPerEm)
                scaled.bits.toInt ∧
              |exactLength value.toInt machine.ppem unitsPerEm - scaled.bits.toInt| ≤ 1 / 2 := by
  constructor
  · intro ppem within
    refine ⟨fun value small => ⟨?_, ?_, ?_, ?_⟩, ofFontUnits?_eq_some within⟩
    · intro result
      exact isNearestInteger_iff_eq_ofFontUnits pos within small
    · exact ofFontUnits_neg pos within small
    · intro other small' le
      exact ofFontUnits_le_ofFontUnits pos within small small' le
    · exact abs_toInt_bits_ofFontUnits_le pos within small
  · intro profile controlValues gridSize filled fits
    obtain ⟨machine, created, ppem, controls⟩ :=
      Machine.exists_create profile controlValues filled fits
    have within : machine.ppem ≤ unitsPerEm.toNat := by
      rw [ppem]
      exact Nat.div_le_self _ _
    refine ⟨machine, created, ?_, ?_⟩
    · rw [← Array.length_toList, controls, List.length_map]
    · intro index value scaled listed found
      rw [← Array.getElem?_toList, controls, List.getElem?_map, listed, Option.map_some,
        Option.some.injEq] at found
      subst found
      have least : -2 ^ 15 ≤ value.toInt := value.minValue_le_toInt
      have less : value.toInt < 2 ^ 15 := value.toInt_lt
      have small : |value.toInt32.toInt| < 2 ^ 25 := by
        rw [Int16.toInt_toInt32]
        exact abs_lt.mpr ⟨by omega, by omega⟩
      have nearest := (isNearestInteger_iff_eq_ofFontUnits pos within small).mpr rfl
      rw [Int16.toInt_toInt32] at nearest
      exact ⟨nearest, nearest.abs_sub_le⟩

/-- A half below zero, the largest length in range, and the least length of all. -/
theorem ofFontUnits_nearest_tie :
    (0 : UInt16) < 128 ∧ IsNearestInteger (exactLength (-1) 1 128) (-1) ∧
      ofFontUnits (-(-1)) 1 128 = -ofFontUnits (-1) 1 128 ∧
      (ofFontUnits (-1) 128 128).bits ≤ (ofFontUnits 33554431 128 128).bits ∧
      |(ofFontUnits 33554431 128 128).bits.toInt| ≤ 64 * 33554431 ∧
      ofFontUnits? (-2147483648) 128 128 = some (ofFontUnits (-2147483648) 128 128) ∧
      ∃ machine, Machine.create default [-1, 300] 128 100 = .ok machine ∧
        machine.controls.size = 2 := by
  have pos : (0 : UInt16) < 128 := by decide
  obtain ⟨lengths, controls⟩ := ofFontUnits_nearest pos
  obtain ⟨nearest, opposite, -, -⟩ := (lengths 1 (by decide)).1 (-1) (by decide)
  obtain ⟨-, -, ordered, -⟩ := (lengths 128 (by decide)).1 (-1) (by decide)
  obtain ⟨-, -, -, bounded⟩ := (lengths 128 (by decide)).1 33554431 (by decide)
  have whole := (lengths 128 (by decide)).2 (-2147483648)
  obtain ⟨machine, created, size, -⟩ := controls default [-1, 300] 100 (by decide) (by decide)
  exact ⟨pos, (nearest (-1)).mpr (by decide), opposite, ordered _ (by decide) (by decide), bounded,
    whole, machine, created, size⟩

end Fixed

end OutlineFont.Hinting
