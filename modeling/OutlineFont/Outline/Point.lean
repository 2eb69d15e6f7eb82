/-!
# Points of an outline

An outline is drawn through its on-curve points; a point off the curve is the
control point of a quadratic curve between its neighbours.
-/

namespace OutlineFont

/-- A point in font units. -/
structure Point where
  x : Int16
  y : Int16
  onCurve : Bool
  deriving DecidableEq, Repr, Inhabited

namespace Point

/-- The integer between two coordinates, a half going toward zero. -/
def middle (a b : Int16) : Int16 :=
  Int16.ofInt ((a.toInt + b.toInt).tdiv 2)

/-- The on-curve point that two successive control points imply. -/
def midpoint (a b : Point) : Point :=
  ⟨middle a.x b.x, middle a.y b.y, true⟩

/-- A point moved by an offset; coordinates wrap. -/
def translate (dx dy : Int16) (point : Point) : Point :=
  { point with x := point.x + dx, y := point.y + dy }

end Point

end OutlineFont
