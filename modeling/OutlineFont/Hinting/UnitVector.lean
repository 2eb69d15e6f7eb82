import OutlineFont.Error

/-!
# Unit vectors

The directions of the graphics state are vectors of length one, with
components in 2.14 fixed point.
-/

namespace OutlineFont.Hinting

/--
How far the square of `root` exceeds `long ^ 2 + short ^ 2`.  With `root` near
the side that it exceeds by `rest`, the squares cancel before anything is
computed: what is left are products of small numbers, which rounding hardly
harms.
-/
def squareExcess (long short root : Float) : Float :=
  if root ≤ 2 * short then
    let rest := root - short
    long * (2 * rest - long) + (rest - 2 * (long - short)) * rest
  else
    let rest := root - long
    2 * rest * (long - 2 * short) + ((4 * rest - short) * short + rest * rest)

/--
The long side of a right triangle with the legs `long` and `short`, of which
`long` is not the smaller.  The root of the rounded sum of squares is improved
by one step of Newton's method.
-/
def hypotenuse (long short : Float) : Float :=
  let root := Float.sqrt (long * long + short * short)
  root - squareExcess long short root / (2 * root)

/-- A direction, as components in units of two to the minus fourteenth. -/
structure UnitVector where
  x : Int32
  y : Int32
  deriving DecidableEq, Repr, Inhabited

namespace UnitVector

/-- The length of a unit vector in its own units. -/
def unit : Nat := 16384

def ofAxis : Axis → UnitVector
  | .x => ⟨16384, 0⟩
  | .y => ⟨0, 16384⟩

def lengthOf (x y : Int32) : Float :=
  let a := x.toInt.natAbs
  let b := y.toInt.natAbs
  hypotenuse (Float.ofNat (Nat.max a b)) (Float.ofNat (Nat.min a b))

/-- The vector of length one in the direction of `(x, y)`, which may not be null. -/
def normalize (x y : Int32) : Except FontError UnitVector :=
  if x = 0 ∧ y = 0 then
    .error (.hinting .nullVector)
  else
    let scale := Float.ofNat unit / lengthOf x y
    .ok ⟨(Float.ofInt x.toInt * scale).round.toInt32, (Float.ofInt y.toInt * scale).round.toInt32⟩

/-- Replace the horizontal component and normalize again. -/
def setX (vector : UnitVector) (x : Int32) : Except FontError UnitVector :=
  normalize x vector.y

/-- Replace the vertical component and normalize again. -/
def setY (vector : UnitVector) (y : Int32) : Except FontError UnitVector :=
  normalize vector.x y

/-- The length of a vector, which rounding moves a little away from one. -/
def length (vector : UnitVector) : Float :=
  lengthOf vector.x vector.y / Float.ofNat unit

/-- The length in billionths, rounded. -/
def lengthInBillionths (vector : UnitVector) : Int :=
  (vector.length * 1e9).round.toInt64.toInt

end UnitVector

end OutlineFont.Hinting
