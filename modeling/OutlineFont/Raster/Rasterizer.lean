import OutlineFont.Raster.Crossing
import OutlineFont.Raster.Mask

/-!
# Filling a mask

A cell is filled if a ray from its center to the right crosses the outline
with an odd total winding.  It is also filled if the outline crosses one of
the two scan lines through its center inside the cell, so that strokes thinner
than a cell are not lost.
-/

namespace OutlineFont.Raster

/-- Cells of a fixed size. -/
structure Rasterizer where
  gridSize : Nat
  deriving DecidableEq, Repr, Inhabited

/-- A row or a column of cells: where it starts, and the crossings of its central scan line. -/
structure Strip (Number : Type) where
  start : Int
  crossings : List (Crossing Number)

namespace Strip

variable {Number : Type} [Scalar Number]

/-- The integer coordinate of the centers of the cells. -/
def center (strip : Strip Number) (gridSize : Nat) : Int :=
  strip.start + (gridSize / 2 : Nat)

/-- The strip at an index, for segments whose scan lines run along it. -/
@[specialize] def make (segments : List Segment) (gridSize : Nat) (origin : Int) (index : Nat) :
    Except GeometryFault (Strip Number) :=
  let start := origin + (index * gridSize : Nat)
  (crossingsAlong segments (2 * (start + (gridSize / 2 : Nat)) + 1)).map fun crossings =>
    ⟨start, crossings⟩

/-- The total winding of the crossings beyond a coordinate. -/
@[specialize] def windingBeyond (strip : Strip Number) (coordinate : Int) : Int :=
  let bound : Number := Scalar.ofInt coordinate
  strip.crossings.foldl (fun total crossing =>
    if Scalar.less bound crossing.position then total + crossing.winding else total) 0

/-- Whether a crossing lies above `start` and at most `gridSize` above it. -/
@[specialize] def crossesWindow (strip : Strip Number) (start : Int) (gridSize : Nat) : Bool :=
  let low : Number := Scalar.ofInt start
  let high : Number := Scalar.ofInt (start + gridSize)
  strip.crossings.any fun crossing =>
    Scalar.less low crossing.position && Scalar.lessEqual crossing.position high

/-- Whether the cell where a row and a column meet is filled. -/
@[specialize] def fills (gridSize : Nat) (row column : Strip Number) : Bool :=
  row.windingBeyond (column.center gridSize) % 2 != 0 ||
    row.crossesWindow column.start gridSize ||
    column.crossesWindow row.start gridSize

end Strip

namespace Rasterizer

/-- A rasterizer for cells that are neither empty nor larger than the em square. -/
def create (gridSize : Nat) (unitsPerEm : UInt16) : Except FontError Rasterizer :=
  if gridSize = 0 ∨ unitsPerEm.toNat < gridSize then
    .error (.gridSize gridSize)
  else
    .ok ⟨gridSize⟩

/-- The number of cells that cover a length, and one more. -/
def cellCount (rasterizer : Rasterizer) (length : Nat) : Nat :=
  (length + rasterizer.gridSize - 1) / rasterizer.gridSize + 1

/-- The strips of one axis, for segments whose scan lines run along them. -/
@[specialize] def strips (Number : Type) [Scalar Number] (rasterizer : Rasterizer)
    (segments : List Segment) (origin : Int) (count : Nat) :
    Except FontError (List (Strip Number)) :=
  ((List.range count).mapM (Strip.make segments rasterizer.gridSize origin)).mapError .degenerate

/-- The mask of a glyph, with crossings computed in some kind of numbers. -/
@[specialize] def rasterizeIn (Number : Type) [Scalar Number] (rasterizer : Rasterizer)
    (glyph : Glyph) : Except FontError Mask := do
  let metrics := glyph.metrics
  if metrics.width < 0 ∨ metrics.height < 0 then
    throw (.degenerate .negativeBox)
  let width := rasterizer.cellCount metrics.width.toNat
  let height := rasterizer.cellCount metrics.height.toNat
  let segments ← Segment.ofGlyph glyph
  let columns ← rasterizer.strips Number (segments.map (·.transpose)) metrics.minX.toInt width
  let rows ← rasterizer.strips Number segments metrics.minY.toInt height
  return {
    width := width
    height := height
    gridSize := rasterizer.gridSize
    origin := ⟨metrics.minX.toInt, metrics.minY.toInt⟩
    cells := (rows.flatMap fun row => columns.map (Strip.fills rasterizer.gridSize row)).toArray }

def rasterize (rasterizer : Rasterizer) (glyph : Glyph) : Except FontError Mask :=
  rasterizer.rasterizeIn Float glyph

end Rasterizer

end OutlineFont.Raster
