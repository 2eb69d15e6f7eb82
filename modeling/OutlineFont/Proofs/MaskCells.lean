import OutlineFont.Proofs.Redrawing

/-!
# The cells of a mask

The cell of a mask in a column and a row is filled as the strips at the two
indices say.  Each strip is made for itself, from all segments of the outline.
-/

namespace OutlineFont.Raster

/-- What rows and columns give is found row by row. -/
theorem getElem?_flatMap_map {Row Column Cell : Type} (cell : Row → Column → Cell)
    (rows : List Row) (columns : List Column) (y : Nat) {x : Nat} (within : x < columns.length) :
    (rows.flatMap fun row => columns.map (cell row))[y * columns.length + x]? =
      rows[y]?.bind fun row => columns[x]?.map (cell row) := by
  induction rows generalizing y with
  | nil => rfl
  | cons row rows ih =>
      rw [List.flatMap_cons]
      cases y with
      | zero =>
          rw [Nat.zero_mul, Nat.zero_add, List.getElem?_append_left (by rwa [List.length_map]),
            List.getElem?_map]
          rfl
      | succ y =>
          have place : (y + 1) * columns.length + x =
              (columns.map (cell row)).length + (y * columns.length + x) := by
            rw [List.length_map, Nat.succ_mul]
            omega
          rw [place, List.getElem?_append_right (Nat.le_add_right _ _), Nat.add_sub_cancel_left, ih]
          rfl

variable {Number : Type} [Scalar Number]

/-- A strip can be made at every index. -/
theorem Strip.exists_make (segments : List Segment) (gridSize : Nat) (origin : Int) :
    ∃ strip : Nat → Strip Number, ∀ index,
      Strip.make segments gridSize origin index = .ok (strip index) := by
  choose strip _ made _ _ using fun index =>
    (Strip.make_alike (.refl segments) gridSize origin index :
      ∃ strip again : Strip Number, _)
  exact ⟨strip, made⟩

namespace Rasterizer

/-- The mask over a box whose cells are filled as two strips of a row and a column say. -/
def maskOf (rasterizer : Rasterizer) (metrics : Metrics) (row column : Nat → Strip Number) :
    Mask where
  width := rasterizer.cellCount metrics.width.toNat
  height := rasterizer.cellCount metrics.height.toNat
  gridSize := rasterizer.gridSize
  origin := ⟨metrics.minX.toInt, metrics.minY.toInt⟩
  cells := (((List.range (rasterizer.cellCount metrics.height.toNat)).map row).flatMap fun row =>
    ((List.range (rasterizer.cellCount metrics.width.toNat)).map column).map
      (Strip.fills rasterizer.gridSize row)).toArray

theorem get?_maskOf (rasterizer : Rasterizer) (metrics : Metrics)
    (row column : Nat → Strip Number) {x y : Nat}
    (xWithin : x < (rasterizer.maskOf metrics row column).width)
    (yWithin : y < (rasterizer.maskOf metrics row column).height) :
    (rasterizer.maskOf metrics row column).get? x y =
      some (Strip.fills rasterizer.gridSize (row y) (column x)) := by
  unfold Mask.get?
  rw [if_pos ⟨xWithin, yWithin⟩]
  unfold maskOf at *
  have found := getElem?_flatMap_map (Strip.fills rasterizer.gridSize)
    ((List.range (rasterizer.cellCount metrics.height.toNat)).map row)
    ((List.range (rasterizer.cellCount metrics.width.toNat)).map column) y
    (by rwa [List.length_map, List.length_range])
  rw [List.length_map, List.length_range, List.getElem?_map, List.getElem?_map,
    List.getElem?_range xWithin, List.getElem?_range yWithin] at found
  rw [List.getElem?_toArray]
  exact found

/-- A box of zero or positive size is covered by cells, each of which its two strips fill. -/
theorem exists_rasterizeIn_eq_maskOf (rasterizer : Rasterizer) {glyph : Glyph}
    {segments : List Segment} (sound : ¬(glyph.metrics.width < 0 ∨ glyph.metrics.height < 0))
    (found : Segment.ofGlyph glyph = .ok segments) :
    ∃ row column : Nat → Strip Number,
      (∀ index, Strip.make segments rasterizer.gridSize glyph.metrics.minY.toInt index =
        .ok (row index)) ∧
      (∀ index, Strip.make (segments.map (·.transpose)) rasterizer.gridSize
        glyph.metrics.minX.toInt index = .ok (column index)) ∧
      rasterizer.rasterizeIn Number glyph =
        .ok (rasterizer.maskOf glyph.metrics row column) := by
  obtain ⟨row, rowMade⟩ : ∃ strip : Nat → Strip Number, _ :=
    Strip.exists_make segments rasterizer.gridSize glyph.metrics.minY.toInt
  obtain ⟨column, columnMade⟩ : ∃ strip : Nat → Strip Number, _ :=
    Strip.exists_make (segments.map (·.transpose)) rasterizer.gridSize glyph.metrics.minX.toInt
  refine ⟨row, column, rowMade, columnMade, ?_⟩
  unfold rasterizeIn
  rw [if_neg sound, found]
  simp only [bind, Except.bind, pure, Except.pure, rasterizer.strips_eq columnMade,
    rasterizer.strips_eq rowMade]
  rfl

end Rasterizer

end OutlineFont.Raster
