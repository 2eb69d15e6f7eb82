import OutlineFont.Outline.Contour

/-!
# Glyphs

A decoded glyph is a flat list of contours with a bounding box and a program.
-/

namespace OutlineFont

/-- The bounding box that a font states for a glyph; nothing ties it to the points. -/
structure Metrics where
  minX : Int16
  minY : Int16
  maxX : Int16
  maxY : Int16
  deriving DecidableEq, Repr, Inhabited

namespace Metrics

/-- The width of the box, negative if its sides are swapped. -/
def width (metrics : Metrics) : Int :=
  metrics.maxX.toInt - metrics.minX.toInt

/-- The height of the box, negative if its sides are swapped. -/
def height (metrics : Metrics) : Int :=
  metrics.maxY.toInt - metrics.minY.toInt

end Metrics

/-- An outline with all components resolved. -/
structure Glyph where
  metrics : Metrics
  instructions : Bytes
  contours : List Contour
  deriving DecidableEq, Inhabited

namespace Glyph

/-- A glyph without an outline, like that of a blank. -/
def blank : Glyph :=
  ⟨⟨0, 0, 0, 0⟩, #[], []⟩

/-- All points, contour by contour. -/
def points (glyph : Glyph) : List Point :=
  glyph.contours.flatMap (·.points)

def pointCount (glyph : Glyph) : Nat :=
  glyph.contours.foldr (fun contour count => contour.size + count) 0

theorem length_points (glyph : Glyph) : glyph.points.length = glyph.pointCount := by
  unfold points pointCount
  induction glyph.contours with
  | nil => rfl
  | cons contour rest ih =>
      rw [List.flatMap_cons, List.length_append, List.foldr_cons, ih, Contour.size]

/-- The numbers of points up to the end of each contour. -/
def runningCounts : (before : Nat) → List Contour → List Nat
  | _, [] => []
  | before, contour :: rest => (before + contour.size) :: runningCounts (before + contour.size) rest

/-- The index of the last point of each contour; a leading contour without points has none. -/
def endPoints (glyph : Glyph) : List Nat :=
  ((runningCounts 0 glyph.contours).filter (· != 0)).map (· - 1)

/-- Cut points into contours of given sizes. -/
def cut : (sizes : List Nat) → List Point → List Contour
  | [], _ => []
  | size :: sizes, points => ⟨points.take size⟩ :: cut sizes (points.drop size)

/-- Cutting the points of contours at their sizes gives the contours back. -/
theorem cut_sizes (contours : List Contour) :
    cut (contours.map (·.size)) (contours.flatMap (·.points)) = contours := by
  induction contours with
  | nil => rfl
  | cons contour rest ih =>
      rw [List.map_cons, List.flatMap_cons, cut, Contour.size, List.take_left, List.drop_left,
        ih]

end Glyph

end OutlineFont
