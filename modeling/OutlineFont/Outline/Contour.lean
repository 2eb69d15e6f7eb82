import OutlineFont.Error
import OutlineFont.Outline.Point

/-!
# Contours

A contour is a closed path through a cyclic list of points.  Between two
successive control points lies an on-curve point that is not stored.  With
these points put in, a contour is drawn by lines and quadratic curves that
start and end on the curve.
-/

namespace OutlineFont

/-- A closed path; the last point is followed by the first. -/
structure Contour where
  points : List Point
  deriving DecidableEq, Repr, Inhabited

/-- A place in font units, without the bounds of stored points. -/
structure Position where
  x : Int
  y : Int
  deriving DecidableEq, Repr, Inhabited

def Point.position (point : Point) : Position :=
  ⟨point.x.toInt, point.y.toInt⟩

inductive PathOperation where
  | moveTo (target : Position)
  | lineTo (target : Position)
  | curveTo (control target : Position)
  deriving DecidableEq, Repr

namespace Contour

def size (contour : Contour) : Nat :=
  contour.points.length

/-- The implied point after `point`, if it and its successor are control points. -/
def implied (point successor : Point) : List Point :=
  if point.onCurve || successor.onCurve then [] else [point.midpoint successor]

/-- The points of an open path with the implied points put in; `last` follows the final one. -/
def flattenToward (last : Point) : List Point → List Point
  | [] => []
  | [point] => point :: implied point last
  | point :: successor :: rest =>
      point :: implied point successor ++ flattenToward last (successor :: rest)

/-- The points of a contour with the implied points put in; a single point implies none. -/
def flatten (contour : Contour) : List Point :=
  match contour.points with
  | [] => []
  | [point] => [point]
  | first :: rest => flattenToward first (first :: rest)

/-- Draw through points that come after an on-curve point and end with one. -/
def operationsThrough : List Point → Except GeometryFault (List PathOperation)
  | [] => .ok []
  | [point] =>
      if point.onCurve then .ok [.lineTo point.position] else .error .unpairedControlPoint
  | point :: successor :: rest =>
      if point.onCurve then
        (operationsThrough (successor :: rest)).map (.lineTo point.position :: ·)
      else if successor.onCurve then
        (operationsThrough rest).map (.curveTo point.position successor.position :: ·)
      else
        .error .unpairedControlPoint

/--
The steps that draw a contour, from its first on-curve point back to it.
Fewer than two points enclose nothing and are not drawn.
-/
def operations (contour : Contour) : Except FontError (List PathOperation) :=
  if contour.size < 2 then
    .ok []
  else
    let points := contour.flatten
    match points.dropWhile (!·.onCurve) with
    | [] => .error (.degenerate .noOnCurvePoint)
    | start :: rest =>
        match operationsThrough (rest ++ points.takeWhile (!·.onCurve) ++ [start]) with
        | .ok steps => .ok (.moveTo start.position :: steps)
        | .error fault => .error (.degenerate fault)

end Contour

end OutlineFont
