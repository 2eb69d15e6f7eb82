import OutlineFont.Outline.Glyph
import OutlineFont.Raster.Scalar

/-!
# Crossings

Where the outline of a glyph crosses a scan line, and in which direction.
Scan lines lie halfway between integers, and the points of an outline are
integers, so a scan line never passes through a point.  A scan line is given
by twice its coordinate.

All decisions about lines, and whether a curve meets a scan line at all, are
made on integers.
-/

namespace OutlineFont.Raster

/-- A piece of an outline. -/
inductive Segment where
  | line (start stop : Position)
  | curve (start control stop : Position)
  deriving DecidableEq, Repr

/-- A position along a scan line, with minus one if the outline goes up there and one if not. -/
structure Crossing (Number : Type) where
  position : Number
  winding : Int
  deriving Repr

end OutlineFont.Raster

namespace OutlineFont

def Position.transpose (place : Position) : Position :=
  ⟨place.y, place.x⟩

end OutlineFont

namespace OutlineFont.Raster

namespace Segment

/-- A segment with its axes swapped, so that vertical scan lines become horizontal ones. -/
def transpose : Segment → Segment
  | .line start stop => .line start.transpose stop.transpose
  | .curve start control stop => .curve start.transpose control.transpose stop.transpose

/-- The segments that drawing operations make from a place on. -/
def ofOperations : (current : Position) → List PathOperation → List Segment
  | _, [] => []
  | _, .moveTo target :: rest => ofOperations target rest
  | current, .lineTo target :: rest => .line current target :: ofOperations target rest
  | current, .curveTo control target :: rest =>
      .curve current control target :: ofOperations target rest

def ofContour (contour : Contour) : Except FontError (List Segment) :=
  contour.operations.map (ofOperations ⟨0, 0⟩)

/-- The segments of a glyph, contour by contour. -/
def ofGlyph (glyph : Glyph) : Except FontError (List Segment) :=
  (glyph.contours.mapM ofContour).map List.flatten

variable {Number : Type} [Scalar Number]

/-- Whether a fraction lies above zero and not above one, for a denominator other than zero. -/
def isProperFraction (numerator denominator : Int) : Bool :=
  (0 < numerator && numerator ≤ denominator) || (denominator ≤ numerator && numerator < 0)

/-- The crossing of a line, unless the line is parallel to the scan line or ends before it. -/
@[specialize] def lineCrossing? (start stop : Position) (scan : Int) : Option (Crossing Number) :=
  let numerator := scan - 2 * start.y
  let denominator := 2 * (stop.y - start.y)
  if isProperFraction numerator denominator then
    let t : Number := Scalar.ofInt numerator / Scalar.ofInt denominator
    some {
      position := Scalar.ofInt start.x + t * Scalar.ofInt (stop.x - start.x)
      winding := if start.y < stop.y then -1 else 1 }
  else
    none

/-- The crossing of a curve at a parameter, if the parameter belongs to the curve. -/
@[specialize] def curveCrossing? (start control stop : Position) (t : Number) :
    Option (Crossing Number) :=
  if Scalar.inUnitInterval t then
    let bendX := stop.x - 2 * control.x + start.x
    let bendY := stop.y - 2 * control.y + start.y
    let speedX := 2 * (control.x - start.x)
    let speedY := 2 * (control.y - start.y)
    let slopeX : Number := Scalar.ofInt (2 * bendX) * t + Scalar.ofInt speedX
    let slopeY : Number := Scalar.ofInt (2 * bendY) * t + Scalar.ofInt speedY
    let rises := Scalar.isPositive slopeY ||
      (!Scalar.isNegative slopeY && Scalar.isPositive slopeX)
    some {
      position := Scalar.ofInt bendX * t * t + Scalar.ofInt speedX * t + Scalar.ofInt start.x
      winding := if rises then -1 else 1 }
  else
    none

/--
The parameters at which a curve meets a scan line.  With
`y t = a * t ^ 2 + b * t + c / 2` they are the roots of a quadratic or of a
linear equation.  A curve all of which lies on the scan line has no single
ones.
-/
@[specialize] def curveParameters (start control stop : Position) (scan : Int) :
    Except GeometryFault (List Number) :=
  let a := stop.y - 2 * control.y + start.y
  let b := 2 * (control.y - start.y)
  let c := 2 * start.y - scan
  if a = 0 then
    if b = 0 then
      if c = 0 then .error .curveOnScanLine else .ok []
    else
      .ok [Scalar.ofInt (-c) / Scalar.ofInt (2 * b)]
  else
    let discriminant := b * b - 2 * a * c
    if discriminant < 0 then
      .ok []
    else
      let root : Number := Scalar.sqrt (Scalar.ofInt discriminant)
      .ok [(Scalar.ofInt (-b) + root) / Scalar.ofInt (2 * a),
        (Scalar.ofInt (-b) - root) / Scalar.ofInt (2 * a)]

/--
The crossings of a segment with a scan line.  The start of a segment does not
belong to it and the end does, so that a crossing between two segments counts
once.
-/
@[specialize] def crossings (segment : Segment) (scan : Int) :
    Except GeometryFault (List (Crossing Number)) :=
  match segment with
  | .line start stop => .ok (lineCrossing? start stop scan).toList
  | .curve start control stop =>
      (curveParameters start control stop scan).map
        (·.filterMap (curveCrossing? start control stop))

/-- A curve never lies on a scan line halfway between integers. -/
theorem curveParameters_of_odd (start control stop : Position) {scan : Int}
    (odd : scan % 2 = 1) :
    ∃ found : List Number, curveParameters start control stop scan = .ok found := by
  have apart : 2 * start.y - scan ≠ 0 := by omega
  unfold curveParameters
  simp only [apart, if_false]
  split
  · split <;> exact ⟨_, rfl⟩
  · split <;> exact ⟨_, rfl⟩

/-- Crossings with a scan line halfway between integers can always be found. -/
theorem crossings_of_odd (segment : Segment) {scan : Int} (odd : scan % 2 = 1) :
    ∃ found : List (Crossing Number), segment.crossings scan = .ok found := by
  cases segment with
  | line start stop => exact ⟨_, rfl⟩
  | curve start control stop =>
      obtain ⟨found, parameters⟩ : ∃ found : List Number,
          curveParameters start control stop scan = .ok found :=
        curveParameters_of_odd start control stop odd
      exact ⟨_, by rw [crossings, parameters]; rfl⟩

end Segment

variable {Number : Type} [Scalar Number]

@[specialize] def crossingsAlong (segments : List Segment) (scan : Int) :
    Except GeometryFault (List (Crossing Number)) :=
  (segments.mapM fun (segment : Segment) => segment.crossings scan).map List.flatten

end OutlineFont.Raster
