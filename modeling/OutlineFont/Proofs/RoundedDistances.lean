import Mathlib.Order.Interval.Set.UnorderedInterval
import Mathlib.Algebra.Group.Int.Even
import Mathlib.Algebra.Order.Ring.Abs
import OutlineFont.Hinting.Rounding

/-!
# Where rounding puts distances

A round state keeps the side of zero on which a distance lies, whatever wraps on
the way.  Up to a pixel from the ends of a word nothing wraps: a magnitude is then
raised by an amount of the state and lowered to the next of its evenly spaced
places.  What the states have in common follows from this, and where a distance
is put is said for each of them without the sums of the word.
-/

namespace OutlineFont.Hinting

/-! ### Nearest, towards zero, away from zero, halfway -/

/-- The multiple of a step that is nearest to a value, the farther one from zero of two. -/
structure IsNearest (step value result : Int) : Prop where
  multiple : step ∣ result
  nearest : ∀ other, step ∣ other → |value - result| ≤ |value - other|
  farther : ∀ other, step ∣ other → |value - other| = |value - result| → |other| ≤ |result|

/-- The last multiple of a step on the way from zero to a value. -/
structure IsTowardZero (step value result : Int) : Prop where
  multiple : step ∣ result
  between : result ∈ Set.uIcc 0 value
  last : ∀ other, step ∣ other → other ∈ Set.uIcc 0 value → |other| ≤ |result|

/-- The first multiple of a step that, on the way from zero, does not come before a value. -/
structure IsAwayFromZero (step value result : Int) : Prop where
  multiple : step ∣ result
  beyond : value ∈ Set.uIcc 0 result
  first : ∀ other, step ∣ other → value ∈ Set.uIcc 0 other → |result| ≤ |other|

/-- The odd multiple of half a pixel in the whole pixel of a value, both counted from zero. -/
structure IsHalfway (value result : Int) : Prop where
  odd : ∃ count, Odd count ∧ result = 32 * count
  pixel : |result| / 64 = |value| / 64
  side : 0 ≤ value ↔ 0 ≤ result

section

variable {step value result other : Int}

theorem IsNearest.unique (nearest : IsNearest step value result)
    (nearest' : IsNearest step value other) : result = other := by
  have least := nearest.nearest other nearest'.multiple
  have least' := nearest'.nearest result nearest.multiple
  have most := nearest.farther other nearest'.multiple (le_antisymm least' least)
  have most' := nearest'.farther result nearest.multiple (le_antisymm least least')
  have origin := nearest.nearest 0 (Int.dvd_zero step)
  simp only [Int.abs_eq_natAbs] at least least' most most' origin
  omega

theorem IsTowardZero.unique (toward : IsTowardZero step value result)
    (toward' : IsTowardZero step value other) : result = other := by
  have between := Set.mem_uIcc.mp toward.between
  have between' := Set.mem_uIcc.mp toward'.between
  have most := toward.last other toward'.multiple toward'.between
  have most' := toward'.last result toward.multiple toward.between
  rw [Int.abs_eq_natAbs, Int.abs_eq_natAbs] at most most'
  omega

theorem IsAwayFromZero.unique (away : IsAwayFromZero step value result)
    (away' : IsAwayFromZero step value other) : result = other := by
  have beyond := Set.mem_uIcc.mp away.beyond
  have beyond' := Set.mem_uIcc.mp away'.beyond
  have least := away.first other away'.multiple away'.beyond
  have least' := away'.first result away.multiple away.beyond
  rw [Int.abs_eq_natAbs, Int.abs_eq_natAbs] at least least'
  by_cases zero : value = 0
  · have origin := away.first 0 (Int.dvd_zero step) (by rw [zero]; exact Set.left_mem_uIcc)
    rw [abs_zero, Int.abs_eq_natAbs] at origin
    omega
  · omega

theorem IsHalfway.unique (halfway : IsHalfway value result) (halfway' : IsHalfway value other) :
    result = other := by
  obtain ⟨⟨count, ⟨half, rfl⟩, rfl⟩, pixel, side⟩ := halfway
  obtain ⟨⟨count', ⟨half', rfl⟩, rfl⟩, pixel', side'⟩ := halfway'
  rw [Int.abs_eq_natAbs, Int.abs_eq_natAbs] at pixel pixel'
  omega

theorem mem_uIcc_neg : -result ∈ Set.uIcc 0 value ↔ result ∈ Set.uIcc 0 (-value) := by
  rw [Set.mem_uIcc, Set.mem_uIcc]
  omega

theorem IsNearest.neg (nearest : IsNearest step value result) :
    IsNearest step (-value) (-result) := by
  have mirrored (other : Int) : |-value - other| = |value - -other| := by
    rw [← abs_neg, neg_sub, sub_neg_eq_add, sub_neg_eq_add, add_comm]
  refine ⟨Int.dvd_neg.mpr nearest.multiple, ?_, ?_⟩
  · intro other multiple
    rw [mirrored, mirrored, neg_neg]
    exact nearest.nearest _ (Int.dvd_neg.mpr multiple)
  · intro other multiple tie
    rw [mirrored, mirrored, neg_neg] at tie
    have least := nearest.farther _ (Int.dvd_neg.mpr multiple) tie
    rwa [abs_neg] at least ⊢

theorem IsTowardZero.neg (toward : IsTowardZero step value result) :
    IsTowardZero step (-value) (-result) := by
  refine ⟨Int.dvd_neg.mpr toward.multiple, ?_, ?_⟩
  · rw [mem_uIcc_neg, neg_neg]
    exact toward.between
  · intro other multiple between
    have least := toward.last _ (Int.dvd_neg.mpr multiple) (mem_uIcc_neg.mpr between)
    rwa [abs_neg] at least ⊢

theorem IsAwayFromZero.neg (away : IsAwayFromZero step value result) :
    IsAwayFromZero step (-value) (-result) := by
  refine ⟨Int.dvd_neg.mpr away.multiple, ?_, ?_⟩
  · rw [mem_uIcc_neg, neg_neg]
    exact away.beyond
  · intro other multiple beyond
    have least := away.first _ (Int.dvd_neg.mpr multiple) (mem_uIcc_neg.mp beyond)
    rwa [abs_neg] at least ⊢

/-- Zero is put on the upper side, so it has no mirror image. -/
theorem IsHalfway.neg (halfway : IsHalfway value result) (nonzero : value ≠ 0) :
    IsHalfway (-value) (-result) := by
  obtain ⟨count, odd, same⟩ := halfway.odd
  have side := halfway.side
  obtain ⟨half, rfl⟩ := odd
  refine ⟨⟨-(2 * half + 1), ⟨-half - 1, by omega⟩, by omega⟩, ?_, by omega⟩
  rw [abs_neg, abs_neg]
  exact halfway.pixel

end

namespace Rounding

/-- Where a state puts a value. -/
def Places : Rounding → Int → Int → Prop
  | .halfGrid => IsHalfway
  | .grid => IsNearest 64
  | .doubleGrid => IsNearest 32
  | .downToGrid => IsTowardZero 64
  | .upToGrid => IsAwayFromZero 64
  | .off => fun value result => result = value

theorem Places.unique {state : Rounding} {value result other : Int}
    (places : state.Places value result) (places' : state.Places value other) :
    result = other := by
  cases state with
  | halfGrid => exact IsHalfway.unique places places'
  | grid => exact IsNearest.unique places places'
  | doubleGrid => exact IsNearest.unique places places'
  | downToGrid => exact IsTowardZero.unique places places'
  | upToGrid => exact IsAwayFromZero.unique places places'
  | off => exact places.trans places'.symm

theorem Places.neg {state : Rounding} {value result : Int} (places : state.Places value result)
    (nonzero : value ≠ 0) : state.Places (-value) (-result) := by
  cases state with
  | halfGrid => exact IsHalfway.neg places nonzero
  | grid => exact IsNearest.neg places
  | doubleGrid => exact IsNearest.neg places
  | downToGrid => exact IsTowardZero.neg places
  | upToGrid => exact IsAwayFromZero.neg places
  | off => exact congrArg Neg.neg places

end Rounding

/-! ### Evenly spaced places -/

/-- Places a step apart, an offset away from the multiples, and how early one is rounded up to. -/
structure Spacing where
  step : Int
  lead : Int
  offset : Int
  lead_nonneg : 0 ≤ lead
  offset_nonneg : 0 ≤ offset
  sum_lt : lead + offset < step

namespace Spacing

variable (spacing : Spacing) {magnitude other value : Int}

/-- A magnitude is raised by the lead and lowered to a multiple of the step. -/
def place (magnitude : Int) : Int :=
  spacing.step * ((magnitude + spacing.lead) / spacing.step) + spacing.offset

/-- A value is put where its magnitude is, on its own side of zero. -/
def signed (value : Int) : Int :=
  if value < 0 then -spacing.place (-value) else spacing.place value

theorem step_pos : 0 < spacing.step :=
  (add_nonneg spacing.lead_nonneg spacing.offset_nonneg).trans_lt spacing.sum_lt

theorem dvd_place_sub (magnitude : Int) :
    spacing.step ∣ spacing.place magnitude - spacing.offset := by
  rw [place, add_sub_cancel_right]
  exact Int.dvd_mul_right _ _

theorem place_le (magnitude : Int) :
    spacing.place magnitude ≤ magnitude + spacing.lead + spacing.offset :=
  add_le_add_left (Int.mul_ediv_self_le spacing.step_pos.ne') _

theorem lt_place_add (magnitude : Int) :
    magnitude + spacing.lead + spacing.offset < spacing.place magnitude + spacing.step := by
  have raised := Int.lt_mul_ediv_self_add spacing.step_pos (x := magnitude + spacing.lead)
  rw [place]
  omega

theorem place_nonneg (nonneg : 0 ≤ magnitude) : 0 ≤ spacing.place magnitude := by
  have raised := add_nonneg nonneg spacing.lead_nonneg
  have quotient := Int.ediv_nonneg raised spacing.step_pos.le
  exact add_nonneg (mul_nonneg spacing.step_pos.le quotient) spacing.offset_nonneg

theorem place_le_place (le : magnitude ≤ other) :
    spacing.place magnitude ≤ spacing.place other := by
  have quotients := Int.ediv_le_ediv spacing.step_pos (add_le_add_left le spacing.lead)
  exact add_le_add_left (mul_le_mul_of_nonneg_left quotients spacing.step_pos.le) _

/-- A place is put where it is, as raising it by the lead does not reach the next one. -/
theorem place_place (magnitude : Int) :
    spacing.place (spacing.place magnitude) = spacing.place magnitude := by
  have nonneg := add_nonneg spacing.offset_nonneg spacing.lead_nonneg
  have less := (add_comm _ _).trans_lt spacing.sum_lt
  rw [place, place, add_assoc, Int.mul_add_ediv_left _ _ spacing.step_pos.ne',
    Int.ediv_eq_zero_of_lt nonneg less, add_zero]

theorem signed_of_nonneg (nonneg : 0 ≤ value) : spacing.signed value = spacing.place value :=
  if_neg nonneg.not_gt

theorem signed_of_neg (below : value < 0) : spacing.signed value = -spacing.place (-value) :=
  if_pos below

theorem abs_signed (value : Int) : |spacing.signed value| = spacing.place |value| := by
  rcases lt_or_ge value 0 with below | above
  · rw [signed_of_neg _ below, abs_of_neg below, abs_neg,
      abs_of_nonneg (spacing.place_nonneg (neg_pos.mpr below).le)]
  · rw [signed_of_nonneg _ above, abs_of_nonneg above, abs_of_nonneg (spacing.place_nonneg above)]

theorem signed_neg (nonzero : value ≠ 0) : spacing.signed (-value) = -spacing.signed value := by
  rcases lt_or_gt_of_ne nonzero with below | above
  · rw [signed_of_neg _ below, signed_of_nonneg _ (by omega), neg_neg]
  · rw [signed_of_nonneg _ above.le, signed_of_neg _ (by omega), neg_neg]

theorem signed_le_signed (le : value ≤ other) : spacing.signed value ≤ spacing.signed other := by
  rcases lt_or_ge value 0 with below | above
  · rw [signed_of_neg _ below]
    rcases lt_or_ge other 0 with below' | above'
    · rw [signed_of_neg _ below']
      exact neg_le_neg (spacing.place_le_place (neg_le_neg le))
    · rw [signed_of_nonneg _ above']
      have lower := spacing.place_nonneg (neg_pos.mpr below).le
      have upper := spacing.place_nonneg above'
      omega
  · rw [signed_of_nonneg _ above, signed_of_nonneg _ (above.trans le)]
    exact spacing.place_le_place le

theorem signed_signed : spacing.signed (spacing.signed value) = spacing.signed value := by
  rcases lt_or_ge value 0 with below | above
  · rw [signed_of_neg _ below]
    have nonneg := spacing.place_nonneg (neg_pos.mpr below).le
    rcases nonneg.eq_or_lt with zero | pos
    · -- only a spacing with zero among its places puts anything on zero
      have fixed := spacing.place_place (-value)
      rw [← zero] at fixed
      rw [← zero, neg_zero, signed_of_nonneg _ le_rfl, fixed]
    · rw [signed_of_neg _ (neg_neg_of_pos pos), neg_neg, place_place]
  · rw [signed_of_nonneg _ above, signed_of_nonneg _ (spacing.place_nonneg above), place_place]

end Spacing

namespace Rounding

/-- Where the places of a state are. -/
def spacing : Rounding → Spacing
  | .halfGrid => ⟨64, 0, 32, by decide, by decide, by decide⟩
  | .grid => ⟨64, 32, 0, by decide, by decide, by decide⟩
  | .doubleGrid => ⟨32, 16, 0, by decide, by decide, by decide⟩
  | .downToGrid => ⟨64, 0, 0, by decide, by decide, by decide⟩
  | .upToGrid => ⟨64, 63, 0, by decide, by decide, by decide⟩
  | .off => ⟨1, 0, 0, by decide, by decide, by decide⟩

end Rounding

/-! ### Where the states put magnitudes -/

section

variable {step magnitude result other : Int}

theorem eq_or_apart (multiple : step ∣ result) (multiple' : step ∣ other) :
    other = result ∨ other + step ≤ result ∨ result + step ≤ other := by
  rcases lt_trichotomy other result with before | same | after
  · have gap := Int.le_of_dvd (sub_pos.mpr before) (Int.dvd_sub multiple multiple')
    exact .inr (.inl (by omega))
  · exact .inl same
  · have gap := Int.le_of_dvd (sub_pos.mpr after) (Int.dvd_sub multiple' multiple)
    exact .inr (.inr (by omega))

/-- A multiple within half a step of a magnitude is nearest to it, a half being allowed above it. -/
theorem isNearest_of_nonneg (nonneg : 0 ≤ magnitude) (multiple : step ∣ result)
    (below : 2 * (magnitude - result) < step) (above : 2 * (result - magnitude) ≤ step) :
    IsNearest step magnitude result := by
  refine ⟨multiple, ?_, ?_⟩
  · intro other multiple'
    rw [Int.abs_eq_natAbs, Int.abs_eq_natAbs]
    rcases eq_or_apart multiple multiple' with rfl | before | after
    · exact le_rfl
    · omega
    · omega
  · intro other multiple' tie
    rw [Int.abs_eq_natAbs, Int.abs_eq_natAbs] at tie ⊢
    rcases eq_or_apart multiple multiple' with rfl | before | after
    · exact le_rfl
    · omega
    · omega

theorem isTowardZero_of_nonneg (nonneg : 0 ≤ result) (multiple : step ∣ result)
    (least : result ≤ magnitude) (less : magnitude < result + step) :
    IsTowardZero step magnitude result := by
  refine ⟨multiple, Set.mem_uIcc.mpr (.inl ⟨nonneg, least⟩), ?_⟩
  intro other multiple' between
  rw [Set.mem_uIcc] at between
  rw [Int.abs_eq_natAbs, Int.abs_eq_natAbs]
  rcases eq_or_apart multiple multiple' with rfl | before | after
  · exact le_rfl
  · omega
  · omega

theorem isAwayFromZero_of_nonneg (nonneg : 0 ≤ magnitude) (multiple : step ∣ result)
    (least : magnitude ≤ result) (less : result < magnitude + step) :
    IsAwayFromZero step magnitude result := by
  refine ⟨multiple, Set.mem_uIcc.mpr (.inl ⟨nonneg, least⟩), ?_⟩
  have zero := eq_or_apart multiple (Int.dvd_zero step)
  intro other multiple' beyond
  rw [Set.mem_uIcc] at beyond
  rw [Int.abs_eq_natAbs, Int.abs_eq_natAbs]
  rcases eq_or_apart multiple multiple' with rfl | before | after
  · exact le_rfl
  · omega
  · omega

end

namespace Rounding

variable (state : Rounding) {magnitude value : Int}

theorem places_place (nonneg : 0 ≤ magnitude) :
    state.Places magnitude (state.spacing.place magnitude) := by
  have multiple := state.spacing.dvd_place_sub magnitude
  have least := state.spacing.place_le magnitude
  have less := state.spacing.lt_place_add magnitude
  have above := state.spacing.place_nonneg nonneg
  generalize state.spacing.place magnitude = result at *
  cases state with
  | halfGrid =>
      obtain ⟨pixel, same⟩ := multiple
      simp only [spacing] at same least less
      refine ⟨⟨2 * pixel + 1, odd_two_mul_add_one pixel, by omega⟩, ?_, by omega⟩
      rw [abs_of_nonneg nonneg, abs_of_nonneg above]
      omega
  | grid =>
      simp only [spacing, sub_zero] at multiple least less
      exact isNearest_of_nonneg nonneg multiple (by omega) (by omega)
  | doubleGrid =>
      simp only [spacing, sub_zero] at multiple least less
      exact isNearest_of_nonneg nonneg multiple (by omega) (by omega)
  | downToGrid =>
      simp only [spacing, sub_zero] at multiple least less
      exact isTowardZero_of_nonneg above multiple (by omega) (by omega)
  | upToGrid =>
      simp only [spacing, sub_zero] at multiple least less
      exact isAwayFromZero_of_nonneg nonneg multiple (by omega) (by omega)
  | off =>
      simp only [spacing] at least less
      exact show result = magnitude by omega

theorem places_signed (value : Int) : state.Places value (state.spacing.signed value) := by
  rcases lt_or_ge value 0 with below | above
  · rw [Spacing.signed_of_neg _ below]
    have mirrored := (state.places_place (neg_pos.mpr below).le).neg (by omega)
    rwa [neg_neg] at mirrored
  · rw [Spacing.signed_of_nonneg _ above]
    exact state.places_place above

/-- There is one place for each value. -/
theorem places_iff {result : Int} :
    state.Places value result ↔ result = state.spacing.signed value := by
  constructor
  · intro places
    exact places.unique (state.places_signed value)
  · rintro rfl
    exact state.places_signed value

end Rounding

/-! ### Words that do not wrap -/

namespace Fixed

variable {value other : Fixed}

theorem ext_toInt (same : value.bits.toInt = other.bits.toInt) : value = other := by
  cases value
  cases other
  exact congrArg Fixed.mk (Int32.toInt_inj.mp same)

theorem toInt_bits_add (least : -2 ^ 31 ≤ value.bits.toInt + other.bits.toInt)
    (less : value.bits.toInt + other.bits.toInt < 2 ^ 31) :
    (value + other).bits.toInt = value.bits.toInt + other.bits.toInt := by
  change (value.bits + other.bits).toInt = _
  rw [Int32.toInt_add]
  exact Int.bmod_eq_of_le (by omega) (by omega)

theorem toInt_bits_neg (least : -2 ^ 31 < value.bits.toInt) :
    (-value).bits.toInt = -value.bits.toInt := by
  change (-value.bits).toInt = _
  have less := value.bits.toInt_lt
  rw [Int32.toInt_neg]
  exact Int.bmod_eq_of_le (by omega) (by omega)

theorem toInt_bits_abs (least : -2 ^ 31 < value.bits.toInt) :
    value.abs.bits.toInt = |value.bits.toInt| := by
  rw [abs]
  split
  · next below =>
      rw [Int32.lt_iff_toInt_lt, Int32.toInt_zero] at below
      rw [toInt_bits_neg least, abs_of_neg below]
  · next above =>
      rw [Int32.not_lt, Int32.le_iff_toInt_le, Int32.toInt_zero] at above
      rw [abs_of_nonneg above]

protected theorem add_zero (value : Fixed) : value + .zero = value :=
  congrArg Fixed.mk (Int32.add_zero value.bits)

/-- Lowering a magnitude to a multiple stays in the word. -/
theorem toInt_bits_floorTo {step : Int} (pos : 0 < step) (nonneg : 0 ≤ value.bits.toInt) :
    (value.floorTo step).bits.toInt = step * (value.bits.toInt / step) := by
  have split := Int.mul_ediv_add_emod value.bits.toInt step
  have rest := Int.emod_nonneg value.bits.toInt pos.ne'
  have quotient := mul_nonneg pos.le (Int.ediv_nonneg nonneg pos.le)
  have less := value.bits.toInt_lt
  change (Int32.ofInt (value.bits.toInt - value.bits.toInt % step)).toInt = _
  rw [show value.bits.toInt - value.bits.toInt % step = step * (value.bits.toInt / step) by omega]
  exact Int32.toInt_ofInt_of_le (by omega) (by omega)

theorem toInt_bits_floorTo_add {step : Int} (pos : 0 < step) (nonneg : 0 ≤ value.bits.toInt)
    (lead : Fixed) (nonneg' : 0 ≤ lead.bits.toInt)
    (less : value.bits.toInt + lead.bits.toInt < 2 ^ 31) :
    ((value + lead).floorTo step).bits.toInt =
      step * ((value.bits.toInt + lead.bits.toInt) / step) := by
  have sum := toInt_bits_add (by omega) less
  rw [toInt_bits_floorTo pos (by omega), sum]

theorem max_zero_nonneg (value : Fixed) : 0 ≤ (value.max .zero).bits := by
  rw [max]
  split
  · exact Int32.le_refl 0
  · next above =>
      rw [zero, Int32.not_le] at above
      exact Int32.le_of_lt above

theorem max_zero_of_nonneg (nonneg : 0 ≤ value.bits) : value.max .zero = value := by
  rw [max]
  split
  · next below => exact congrArg Fixed.mk (Int32.le_antisymm nonneg below)
  · rfl

end Fixed

namespace Rounding

variable {state : Rounding} {value compensation magnitude : Fixed}

theorem exists_round_eq (active : state ≠ .off) (value compensation : Fixed) :
    ∃ rounded : Fixed, 0 ≤ rounded.bits ∧
      state.round value compensation = if value.bits < 0 then -rounded else rounded :=
  ⟨_, Fixed.max_zero_nonneg _, if_neg active⟩

theorem round_nonneg (nonneg : 0 ≤ value.bits) : 0 ≤ (state.round value compensation).bits := by
  by_cases off : state = .off
  · rw [round, if_pos off]
    exact nonneg
  · obtain ⟨rounded, result, same⟩ := exists_round_eq off value compensation
    rw [same, if_neg (Int32.not_lt.mpr nonneg)]
    exact result

/-- The least distance, whose magnitude wraps to itself, is among those below zero. -/
theorem round_nonpos (below : value.bits < 0) : (state.round value compensation).bits ≤ 0 := by
  by_cases off : state = .off
  · rw [round, if_pos off]
    exact Int32.le_of_lt below
  · obtain ⟨rounded, result, same⟩ := exists_round_eq off value compensation
    rw [Int32.le_iff_toInt_le, Int32.toInt_zero] at result
    rw [same, if_pos below, Int32.le_iff_toInt_le, Int32.toInt_zero,
      Fixed.toInt_bits_neg (by omega)]
    omega

/-- A magnitude that can be raised by the lead within the word is put on its place. -/
theorem toInt_bits_roundMagnitude (nonneg : 0 ≤ magnitude.bits.toInt)
    (fits : magnitude.bits.toInt + state.spacing.lead < 2 ^ 31) :
    (state.roundMagnitude magnitude).bits.toInt = state.spacing.place magnitude.bits.toInt := by
  cases state with
  | halfGrid =>
      have less := magnitude.bits.toInt_lt
      have lowered : magnitude.floor.bits.toInt = 64 * (magnitude.bits.toInt / 64) :=
        Fixed.toInt_bits_floorTo (by decide) nonneg
      have half : Fixed.half.bits.toInt = 32 := rfl
      rw [roundMagnitude, Fixed.toInt_bits_add (by omega) (by omega), lowered, half]
      simp only [Spacing.place, spacing, add_zero]
  -- the next three differ in their numbers only: the lead is a word, and there is no offset
  | grid =>
      have pos : (0 : Int) < 64 := by decide
      have lowered := Fixed.toInt_bits_floorTo_add pos nonneg .half (by decide) fits
      exact lowered.trans (add_zero _).symm
  | doubleGrid =>
      have pos : (0 : Int) < 32 := by decide
      have lowered := Fixed.toInt_bits_floorTo_add pos nonneg ⟨16⟩ (by decide) fits
      exact lowered.trans (add_zero _).symm
  | upToGrid =>
      have pos : (0 : Int) < 64 := by decide
      have lowered := Fixed.toInt_bits_floorTo_add pos nonneg ⟨63⟩ (by decide) fits
      exact lowered.trans (add_zero _).symm
  | downToGrid =>
      rw [roundMagnitude, Fixed.floor, Fixed.toInt_bits_floorTo (by decide) nonneg]
      simp only [Spacing.place, spacing, add_zero]
  | off =>
      rw [roundMagnitude]
      simp only [Spacing.place, spacing, add_zero, one_mul, Int.ediv_one]

theorem lead_spacing_lt (state : Rounding) : state.spacing.lead < 64 := by
  cases state <;> decide

theorem toInt_bits_round (fits : |value.bits.toInt| + state.spacing.lead < 2 ^ 31) :
    (state.round value .zero).bits.toInt = state.spacing.signed value.bits.toInt := by
  have lead := state.spacing.lead_nonneg
  have magnitude : value.abs.bits.toInt = |value.bits.toInt| :=
    Fixed.toInt_bits_abs (neg_lt_of_abs_lt (by omega))
  have rounded : (state.roundMagnitude value.abs).bits.toInt =
      state.spacing.place |value.bits.toInt| := by
    rw [← magnitude] at fits ⊢
    exact toInt_bits_roundMagnitude (by rw [magnitude]; exact abs_nonneg _) fits
  have nonneg := state.spacing.place_nonneg (abs_nonneg value.bits.toInt)
  rw [← rounded] at nonneg
  by_cases off : state = .off
  · subst off
    rw [round, if_pos rfl]
    have same := off.places_signed value.bits.toInt
    exact same.symm
  · rw [round, if_neg off, Fixed.add_zero,
      Fixed.max_zero_of_nonneg (by rwa [Int32.le_iff_toInt_le, Int32.toInt_zero])]
    dsimp only
    split
    · next below =>
        rw [Int32.lt_iff_toInt_lt, Int32.toInt_zero] at below
        rw [Fixed.toInt_bits_neg (by omega), rounded, Spacing.signed_of_neg _ below,
          abs_of_neg below]
    · next above =>
        rw [Int32.not_lt, Int32.le_iff_toInt_le, Int32.toInt_zero] at above
        rw [rounded, Spacing.signed_of_nonneg _ above, abs_of_nonneg above]

/-- What is put a pixel away from the ends of the word can be raised by the lead again. -/
theorem abs_signed_add_lead_lt (state : Rounding) {value : Int} (inside : |value| ≤ 2 ^ 31 - 64) :
    |state.spacing.signed value| + state.spacing.lead < 2 ^ 31 := by
  have most := state.spacing.place_le_place inside
  have last : state.spacing.place (2 ^ 31 - 64) + state.spacing.lead < 2 ^ 31 := by
    cases state <;> decide
  rw [Spacing.abs_signed]
  omega

section

variable (inside : |value.bits.toInt| ≤ 2 ^ 31 - 64)

include inside

theorem toInt_bits_round_of_le :
    (state.round value .zero).bits.toInt = state.spacing.signed value.bits.toInt := by
  have less := state.lead_spacing_lt
  exact toInt_bits_round (by omega)

theorem places_iff_eq_round {result : Int} :
    state.Places value.bits.toInt result ↔ result = (state.round value .zero).bits.toInt := by
  rw [toInt_bits_round_of_le inside, places_iff]

theorem round_round :
    state.round (state.round value .zero) .zero = state.round value .zero := by
  have fits := state.abs_signed_add_lead_lt inside
  have first : (state.round value .zero).bits.toInt = _ := toInt_bits_round_of_le inside
  rw [← first] at fits
  apply Fixed.ext_toInt
  rw [toInt_bits_round fits, first, Spacing.signed_signed]

theorem round_le_round {other : Fixed} (inside' : |other.bits.toInt| ≤ 2 ^ 31 - 64)
    (le : value.bits ≤ other.bits) :
    (state.round value .zero).bits ≤ (state.round other .zero).bits := by
  rw [Int32.le_iff_toInt_le] at le ⊢
  rw [toInt_bits_round_of_le inside, toInt_bits_round_of_le inside']
  exact state.spacing.signed_le_signed le

theorem round_neg (nonzero : value.bits ≠ 0) :
    state.round (-value) .zero = -state.round value .zero := by
  have opposite : (-value).bits.toInt = -value.bits.toInt :=
    Fixed.toInt_bits_neg (neg_lt_of_abs_lt (by omega))
  have inside' : |(-value).bits.toInt| ≤ 2 ^ 31 - 64 := by
    rwa [opposite, abs_neg]
  have nonzero' : value.bits.toInt ≠ 0 := by
    rwa [ne_eq, ← Int32.toInt_zero, Int32.toInt_inj]
  have fits := state.abs_signed_add_lead_lt inside
  have lead := state.spacing.lead_nonneg
  have first : (state.round value .zero).bits.toInt = _ := toInt_bits_round_of_le inside
  have least : -2 ^ 31 < (state.round value .zero).bits.toInt := by
    rw [first]
    exact neg_lt_of_abs_lt (by omega)
  apply Fixed.ext_toInt
  rw [toInt_bits_round_of_le inside', opposite, Spacing.signed_neg _ nonzero',
    Fixed.toInt_bits_neg least, first]

end

/--
Rounding never takes a distance across zero, also where sums wrap.  Without
compensation, and a pixel away from the ends of the word, a state puts a distance
on the one place it stands for and leaves it there, keeps distances in order, and
puts opposite ones on opposite places.
-/
theorem round_laws (state : Rounding) :
    (∀ value compensation : Fixed,
      (0 ≤ value.bits → 0 ≤ (state.round value compensation).bits) ∧
      (value.bits < 0 → (state.round value compensation).bits ≤ 0)) ∧
    ∀ value : Fixed, |value.bits.toInt| ≤ 2 ^ 31 - 64 →
      (∀ result : Int, state.Places value.bits.toInt result ↔
        result = (state.round value .zero).bits.toInt) ∧
      state.round (state.round value .zero) .zero = state.round value .zero ∧
      (∀ other : Fixed, |other.bits.toInt| ≤ 2 ^ 31 - 64 → value.bits ≤ other.bits →
        (state.round value .zero).bits ≤ (state.round other .zero).bits) ∧
      (value.bits ≠ 0 → state.round (-value) .zero = -state.round value .zero) := by
  constructor
  · intro value compensation
    exact ⟨round_nonneg, round_nonpos⟩
  · intro value inside
    refine ⟨?_, round_round inside, ?_, round_neg inside⟩
    · intro result
      exact places_iff_eq_round inside
    · intro other inside' le
      exact round_le_round inside inside' le

/-- A tie at the lower side, the last distance in range, and the least one of the word. -/
theorem round_laws_halfPixel :
    IsNearest 64 (-32) (-64) ∧
      Rounding.grid.round (Rounding.grid.round ⟨-32⟩ .zero) .zero = ⟨-64⟩ ∧
      (Rounding.grid.round ⟨-32⟩ .zero).bits ≤ (Rounding.grid.round ⟨2147483584⟩ .zero).bits ∧
      Rounding.grid.round (-⟨-32⟩) .zero = -Rounding.grid.round ⟨-32⟩ .zero ∧
      (Rounding.grid.round ⟨-2147483648⟩ ⟨-1⟩).bits ≤ 0 := by
  obtain ⟨sided, placed⟩ := round_laws .grid
  obtain ⟨places, again, ordered, opposite⟩ := placed ⟨-32⟩ (by decide)
  have moved : Rounding.grid.round ⟨-32⟩ .zero = ⟨-64⟩ := by decide
  refine ⟨(places (-64)).mpr ?_, again.trans moved, ordered _ (by decide) (by decide),
    opposite (by decide), (sided _ _).2 (by decide)⟩
  rw [moved]
  rfl

/-- Zero has no opposite, so halfway between pixels it is put on the upper side only. -/
example : Rounding.halfGrid.round (-.zero) .zero ≠ -Rounding.halfGrid.round .zero .zero := by
  decide

end Rounding

end OutlineFont.Hinting
