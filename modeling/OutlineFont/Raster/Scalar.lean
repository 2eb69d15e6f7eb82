/-!
# Numbers for crossings

Where an outline crosses a scan line is computed in some kind of numbers: in
double precision when a glyph is drawn, and in any other kind when the result
is reasoned about.
-/

namespace OutlineFont.Raster

/-- Numbers with arithmetic, square roots and comparisons. -/
class Scalar (Number : Type) extends Add Number, Sub Number, Mul Number, Div Number where
  ofInt : Int → Number
  sqrt : Number → Number
  less : Number → Number → Bool
  lessEqual : Number → Number → Bool

instance : Scalar Float where
  ofInt := Float.ofInt
  sqrt := Float.sqrt
  less a b := a < b
  lessEqual a b := a ≤ b

namespace Scalar

variable {Number : Type} [Scalar Number]

@[inline] def isPositive (value : Number) : Bool :=
  less (ofInt 0) value

@[inline] def isNegative (value : Number) : Bool :=
  less value (ofInt 0)

/-- Whether a number lies above zero and not above one. -/
@[inline] def inUnitInterval (value : Number) : Bool :=
  isPositive value && lessEqual value (ofInt 1)

end Scalar

end OutlineFont.Raster
