/-!
# Distances in 26.6 fixed point

The hinting machine measures distances in pixels with six fractional bits,
held in a signed word of thirty-two bits whose sums and differences wrap.
-/

namespace OutlineFont.Hinting

/-- A distance in sixty-fourths of a pixel. -/
structure Fixed where
  bits : Int32
  deriving DecidableEq, Repr, Inhabited

namespace Fixed

def zero : Fixed := ⟨0⟩

/-- Half a pixel. -/
def half : Fixed := ⟨32⟩

/-- One pixel. -/
def one : Fixed := ⟨64⟩

instance : Add Fixed := ⟨fun a b => ⟨a.bits + b.bits⟩⟩

instance : Sub Fixed := ⟨fun a b => ⟨a.bits - b.bits⟩⟩

instance : Neg Fixed := ⟨fun a => ⟨-a.bits⟩⟩

instance : Ord Fixed := ⟨fun a b => compare a.bits.toInt b.bits.toInt⟩

/-- The distance of `n` sixty-fourths, wrapped into the word. -/
def ofInt (n : Int) : Fixed :=
  ⟨Int32.ofInt n⟩

/-- The magnitude of a distance; the least distance has none and stays as it is. -/
def abs (value : Fixed) : Fixed :=
  if value.bits < 0 then -value else value

/-- The greatest multiple of `step` sixty-fourths that is not above the distance. -/
def floorTo (step : Int) (value : Fixed) : Fixed :=
  ofInt (value.bits.toInt - value.bits.toInt % step)

/-- The greatest whole number of pixels that is not above the distance. -/
def floor (value : Fixed) : Fixed :=
  value.floorTo 64

/-- The least whole number of pixels that is not below the distance. -/
def ceil (value : Fixed) : Fixed :=
  (value + ⟨63⟩).floor

/-- The number of whole pixels below the distance. -/
def toPixels (value : Fixed) : Int :=
  value.bits.toInt / 64

def max (a b : Fixed) : Fixed :=
  if a.bits ≤ b.bits then b else a

/-- The integer nearest to `numerator / denominator`, a half going away from zero. -/
def nearestQuotient (numerator : Int) (denominator : Nat) : Int :=
  if numerator < 0 then
    (numerator - (denominator / 2 : Nat)).tdiv denominator
  else
    (numerator + (denominator / 2 : Nat)).tdiv denominator

/--
A length in font units, scaled to `ppem` pixels for `unitsPerEm` units and
rounded to the nearest sixty-fourth.
-/
def ofFontUnits (value : Int32) (ppem : Nat) (unitsPerEm : UInt16) : Fixed :=
  ofInt (nearestQuotient (value.toInt * 64 * ppem) (Nat.max unitsPerEm.toNat 1))

end Fixed

end OutlineFont.Hinting
