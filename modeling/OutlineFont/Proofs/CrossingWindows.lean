import OutlineFont.Proofs.CellGrid
import OutlineFont.Proofs.ComparedDoubles

/-!
# Crossings inside a mask

The windows of the cells of a row, each without its lower end and with its upper
one, follow one another without a gap from the left side of a mask to its right
side.  So a crossing on the scan line of the row that lies between the sides lies
in the window of exactly one cell, and this cell is filled however thin the stroke
is.  The same holds of the columns.
-/

namespace OutlineFont.Raster

open Double (Fits value?)

def InWindow (gridSize : Nat) (origin : Int) (index : Nat) (position : Float) : Prop :=
  Float.ofInt (cellStart gridSize origin index) < position ∧
    position ≤ Float.ofInt (cellStart gridSize origin index + gridSize)

/--
Whether the crossings between the ends of an axis mark cells: each of them lies in
exactly one window, and the cell of this window is filled.
-/
def Marks (gridSize : Nat) (origin : Int) (count : Nat) (crossings : List (Crossing Float))
    (filled : Nat → Prop) : Prop :=
  ∀ crossing ∈ crossings, Float.ofInt origin < crossing.position →
    crossing.position ≤ Float.ofInt (origin + (count * gridSize : Nat)) →
    (∃! index, index < count ∧ InWindow gridSize origin index crossing.position) ∧
      ∀ index < count, InWindow gridSize origin index crossing.position → filled index

/-- An axis whose ends are small integers. -/
structure Moderate (gridSize : Nat) (origin : Int) (count : Nat) : Prop where
  low : -(2 ^ 18) ≤ origin
  high : cellStart gridSize origin count ≤ 2 ^ 18

section Moderate

variable {gridSize count : Nat} {origin : Int} (moderate : Moderate gridSize origin count)

include moderate

theorem Moderate.fits {index : Nat} (within : index ≤ count) :
    Fits (cellStart gridSize origin index) 0 := by
  have first := monotone_cellStart gridSize origin (Nat.zero_le index)
  have last := monotone_cellStart gridSize origin within
  have low := moderate.low
  have high := moderate.high
  rw [cellStart_zero] at first
  exact {}

/-- Windows are bounded by doubles that stand for the bounds of cells. -/
theorem Moderate.inWindow_iff {index : Nat} (within : index < count) {position : Float} {value : ℚ}
    (stands : value? position = some value) :
    InWindow gridSize origin index position ↔
      (cellStart gridSize origin index : ℚ) < value ∧
        value ≤ (cellStart gridSize origin (index + 1) : ℚ) := by
  have start := moderate.fits within.le
  have stop := moderate.fits (Nat.succ_le_of_lt within)
  unfold InWindow
  rw [← cellStart_succ, Double.lt_iff (Double.value?_ofInt start) stands,
    Double.le_iff stands (Double.value?_ofInt stop)]

/-- What lies between the ends of an axis lies in exactly one window. -/
theorem Moderate.existsUnique_inWindow {position : Float} (behind : Float.ofInt origin < position)
    (before : position ≤ Float.ofInt (cellStart gridSize origin count)) :
    ∃! index, index < count ∧ InWindow gridSize origin index position := by
  have first := moderate.fits (Nat.zero_le count)
  have last := moderate.fits le_rfl
  rw [cellStart_zero] at first
  -- A position between the ends is neither infinite nor undefined, so it stands for a number.
  obtain ⟨value, stands⟩ := Double.exists_value?_of_between (Double.value?_ofInt first)
    (Double.value?_ofInt last) behind before
  rw [Double.lt_iff (Double.value?_ofInt first) stands] at behind
  rw [Double.le_iff stands (Double.value?_ofInt last)] at before
  let bound (index : Nat) : ℚ := (cellStart gridSize origin index : Int)
  have rising : Monotone bound := Int.cast_mono.comp (monotone_cellStart gridSize origin)
  have above : bound 0 < value := by
    change ((cellStart gridSize origin 0 : Int) : ℚ) < value
    rwa [cellStart_zero]
  obtain ⟨index, ⟨within, window⟩, unique⟩ := existsUnique_window rising above before
  refine ⟨index, ⟨within, (moderate.inWindow_iff within stands).mpr window⟩, ?_⟩
  rintro other ⟨otherWithin, otherWindow⟩
  exact unique other ⟨otherWithin, (moderate.inWindow_iff otherWithin stands).mp otherWindow⟩

theorem Moderate.marks {crossings : List (Crossing Float)} {filled : Nat → Prop}
    (marked : ∀ crossing ∈ crossings, ∀ index < count,
      InWindow gridSize origin index crossing.position → filled index) :
    Marks gridSize origin count crossings filled :=
  fun crossing listed behind before =>
    ⟨moderate.existsUnique_inWindow behind before, marked crossing listed⟩

end Moderate

namespace Strip

theorem crossesWindow_of_inWindow {strip other : Strip Float} {gridSize index : Nat} {origin : Int}
    (start : other.start = cellStart gridSize origin index) {crossing : Crossing Float}
    (listed : crossing ∈ strip.crossings)
    (window : InWindow gridSize origin index crossing.position) :
    strip.crossesWindow other.start gridSize = true := by
  rw [start]
  refine List.any_eq_true.mpr ⟨crossing, listed, ?_⟩
  rw [Bool.and_eq_true]
  exact ⟨decide_eq_true window.1, decide_eq_true window.2⟩

variable {gridSize : Nat} {row column : Strip Float}

theorem fills_of_row (crosses : row.crossesWindow column.start gridSize = true) :
    fills gridSize row column = true := by
  rw [fills, crosses, Bool.or_true, Bool.true_or]

theorem fills_of_column (crosses : column.crossesWindow row.start gridSize = true) :
    fills gridSize row column = true := by
  rw [fills, crosses, Bool.or_true]

end Strip

namespace Rasterizer

theorem moderate_of_sized {rasterizer : Rasterizer}
    (sized : 0 < rasterizer.gridSize ∧ rasterizer.gridSize < 65536) (low high : Int16) :
    Moderate rasterizer.gridSize low.toInt
      (rasterizer.cellCount (high.toInt - low.toInt).toNat) := by
  have lowBound : -32768 ≤ low.toInt := low.minValue_le_toInt
  have lowBound' : low.toInt ≤ 32767 := low.toInt_le
  have highBound : high.toInt ≤ 32767 := high.toInt_le
  have last : rasterizer.cellCount (high.toInt - low.toInt).toNat - 1 <
      rasterizer.cellCount (high.toInt - low.toInt).toNat := Nat.sub_one_lt (Nat.succ_ne_zero _)
  have ends := index_mul_le sized.1 last
  have bounded := sized.2
  refine ⟨by omega, ?_⟩
  unfold cellStart
  rw [Nat.sub_one_mul] at ends
  omega

/--
Every crossing of the scan line of a row that lies between the left and the right
side of a mask lies in the window of exactly one cell of the row, and this cell is
filled; and so for the columns.
-/
theorem rasterize_marks {gridSize : Nat} {unitsPerEm : UInt16} {rasterizer : Rasterizer}
    (created : create gridSize unitsPerEm = .ok rasterizer) {glyph : Glyph} {mask : Mask}
    (made : rasterizer.rasterize glyph = .ok mask) :
    ∃ segments, Segment.ofGlyph glyph = .ok segments ∧
      (∀ y < mask.height, ∃ row : Strip Float,
        Strip.make segments gridSize glyph.metrics.minY.toInt y = .ok row ∧
        Marks gridSize glyph.metrics.minX.toInt mask.width row.crossings
          fun x => mask.get? x y = some true) ∧
      ∀ x < mask.width, ∃ column : Strip Float,
        Strip.make (segments.map (·.transpose)) gridSize glyph.metrics.minX.toInt x = .ok column ∧
        Marks gridSize glyph.metrics.minY.toInt mask.height column.crossings
          fun y => mask.get? x y = some true := by
  have sized := gridSize_of_create created
  obtain rfl : rasterizer.gridSize = gridSize := gridSize_eq_of_create created
  have sound : ¬(glyph.metrics.width < 0 ∨ glyph.metrics.height < 0) := by
    intro negative
    rw [rasterize, rasterizer.rasterizeIn_of_negative Float negative] at made
    cases made
  obtain ⟨segments, found, _⟩ := Segment.exists_ofGlyph_stored glyph
  obtain ⟨row, column, rowMade, columnMade, same⟩ : ∃ row column : Nat → Strip Float, _ :=
    rasterizer.exists_rasterizeIn_eq_maskOf sound found
  cases made.symm.trans same
  refine ⟨segments, found, ?rows, ?columns⟩
  case rows =>
    intro y yWithin
    refine ⟨row y, rowMade y, (moderate_of_sized sized _ _).marks ?_⟩
    intro crossing listed x xWithin window
    have crosses := Strip.crossesWindow_of_inWindow (Strip.start_of_make (columnMade x)) listed
      window
    rw [rasterizer.get?_maskOf _ _ _ xWithin yWithin, Strip.fills_of_row crosses]
  case columns =>
    intro x xWithin
    refine ⟨column x, columnMade x, (moderate_of_sized sized _ _).marks ?_⟩
    intro crossing listed y yWithin window
    have crosses := Strip.crossesWindow_of_inWindow (Strip.start_of_make (rowMade y)) listed window
    rw [rasterizer.get?_maskOf _ _ _ xWithin yWithin, Strip.fills_of_column crosses]

/-- An upright stroke two units wide. -/
def thinStroke : Glyph :=
  ⟨⟨0, 0, 2, 100⟩, #[], [⟨[⟨0, 0, true⟩, ⟨0, 100, true⟩, ⟨2, 100, true⟩, ⟨2, 0, true⟩]⟩]⟩

/-- The right side of a stroke left of all centers of cells fills the cells along it. -/
theorem rasterize_marks_thinStroke :
    create 10 1000 = .ok ⟨10⟩ ∧ ∃ mask : Mask, ∃ row : Strip Float,
      rasterize ⟨10⟩ thinStroke = .ok mask ∧
      Marks 10 0 mask.width row.crossings (fun x => mask.get? x 3 = some true) ∧
      (∃ crossing ∈ row.crossings, crossing.position = 2) ∧ mask.get? 0 3 = some true := by
  have created : create 10 1000 = .ok ⟨10⟩ := rfl
  let outline : List Segment := [.line ⟨0, 0⟩ ⟨0, 100⟩, .line ⟨0, 100⟩ ⟨2, 100⟩,
    .line ⟨2, 100⟩ ⟨2, 0⟩, .line ⟨2, 0⟩ ⟨0, 0⟩]
  have drawn : Segment.ofGlyph thinStroke = .ok outline := rfl
  obtain ⟨mask, made⟩ : ∃ mask, rasterize ⟨10⟩ thinStroke = .ok mask :=
    exists_rasterizeIn Float ⟨10⟩ (by decide)
  have size : (rasterize ⟨10⟩ thinStroke).toOption.map (fun mask => (mask.width, mask.height)) =
      some (2, 11) := by decide +kernel
  have crossed : (Strip.make outline 10 0 3).toOption.any
      (fun row : Strip Float => row.crossings.any (·.position = 2)) = true := by decide +kernel
  obtain ⟨segments, found, rows, _⟩ := rasterize_marks created made
  cases drawn.symm.trans found
  rw [made] at size
  obtain ⟨width, height⟩ : mask.width = 2 ∧ mask.height = 11 :=
    Prod.mk.inj (Option.some.inj size)
  obtain ⟨row, rowMade, marks⟩ := rows 3 (by rw [height]; decide)
  replace rowMade : Strip.make outline 10 0 3 = .ok row := rowMade
  rw [rowMade] at crossed
  obtain ⟨crossing, listed, place⟩ := List.any_eq_true.mp crossed
  replace place : crossing.position = 2 := of_decide_eq_true place
  refine ⟨created, mask, row, made, marks, ⟨crossing, listed, place⟩, ?_⟩
  refine (marks crossing listed ?_ ?_).2 0 ?_ ?_
  · rw [place]
    decide +kernel
  · rw [place, width]
    decide +kernel
  · rw [width]
    decide
  · rw [place]
    exact ⟨by decide +kernel, by decide +kernel⟩

end Rasterizer

end OutlineFont.Raster
