import OutlineFont.Proofs.ComparedDoubles
import OutlineFont.Proofs.MaskCells
import OutlineFont.Proofs.ScanLines

/-!
# Rectangles

Upright lines are crossed exactly at their coordinates, and level lines are not
crossed.  So the cells of an outline of such lines are filled as a count and two
comparisons of integers say, and the mask of a rectangle of whole cells has those
cells filled.  The row above them and the column to the right of them, which
every mask has, stay empty.
-/

namespace OutlineFont

open List

/-- The corners of a rectangle, around it from one of them on. -/
def Contour.loop (left right first last : Int16) : List Point :=
  [⟨left, first, true⟩, ⟨right, first, true⟩, ⟨right, last, true⟩, ⟨left, last, true⟩]

/-- Whether the outline of a glyph is its box, in either direction and from any corner. -/
def Glyph.IsBox (glyph : Glyph) : Prop :=
  ∃ contour, glyph.contours = [contour] ∧
    (contour.points ~r Contour.loop glyph.metrics.minX glyph.metrics.maxX glyph.metrics.minY
        glyph.metrics.maxY ∨
      contour.points ~r (Contour.loop glyph.metrics.minX glyph.metrics.maxX glyph.metrics.minY
        glyph.metrics.maxY).reverse)

/-- The box of a glyph for its outline, drawn along one of the level sides first. -/
def Glyph.boxed (glyph : Glyph) (first last : Int16) : Glyph where
  metrics := glyph.metrics
  instructions := glyph.instructions
  contours := [⟨Contour.loop glyph.metrics.minX glyph.metrics.maxX first last⟩]

/-- Every outline that is a box is drawn along the lower or along the upper side first. -/
theorem Glyph.IsBox.exists_redrawn {glyph : Glyph} (box : glyph.IsBox) :
    ∃ first last : Int16,
      (first = glyph.metrics.minY ∧ last = glyph.metrics.maxY ∨
        first = glyph.metrics.maxY ∧ last = glyph.metrics.minY) ∧
      glyph.Redrawn (glyph.boxed first last) := by
  obtain ⟨contour, contours, around | around⟩ := box
  · exact ⟨_, _, .inl ⟨rfl, rfl⟩, rfl, [contour], .of_eq contours, .cons around .nil⟩
  · exact ⟨_, _, .inr ⟨rfl, rfl⟩, rfl, [contour], .of_eq contours, .cons around .nil⟩

namespace Raster

open Double (Fits value?)

/-! ### Upright and level lines -/

/-- Whether a scan line lies between two integers. -/
def Spans (first last scan : Int) : Prop :=
  2 * min first last < scan ∧ scan < 2 * max first last

instance (first last scan : Int) : Decidable (Spans first last scan) :=
  inferInstanceAs (Decidable (_ ∧ _))

theorem spans_comm (first last scan : Int) : Spans first last scan ↔ Spans last first scan := by
  unfold Spans
  rw [min_comm, max_comm]

/-- Crossings at given places, in either direction. -/
def CrossedAt (crossings : List (Crossing Float)) (places : List Int) : Prop :=
  Forall₂ (fun (crossing : Crossing Float) (place : Int) =>
    value? crossing.position = some (place : ℚ) ∧ crossing.winding % 2 = 1) crossings places

namespace Segment

/-- A line that runs along one of the axes. -/
inductive Straight : Segment → Prop where
  | upright (place first last : Int) : Straight (.line ⟨place, first⟩ ⟨place, last⟩)
  | level (first last height : Int) : Straight (.line ⟨first, height⟩ ⟨last, height⟩)

theorem Straight.transpose {segment : Segment} (straight : segment.Straight) :
    segment.transpose.Straight := by
  cases straight with
  | upright place first last => exact .level first last place
  | level first last height => exact .upright height first last

/-- The place at which an upright line is crossed. -/
def place? (scan : Int) : Segment → Option Int
  | .line start stop =>
      if start.x = stop.x ∧ Spans start.y stop.y scan then some start.x else none
  | .curve _ _ _ => none

theorem not_spans_self (height scan : Int) : ¬Spans height height scan := by
  unfold Spans
  omega

theorem place?_level (first last height scan : Int) :
    (line ⟨first, height⟩ ⟨last, height⟩).place? scan = none :=
  if_neg fun both => not_spans_self height scan both.2

theorem place?_upright (place first last scan : Int) :
    (line ⟨place, first⟩ ⟨place, last⟩).place? scan =
      if Spans first last scan then some place else none :=
  if_congr (and_iff_right rfl) rfl rfl

theorem isProperFraction_eq {first last scan : Int} (odd : scan % 2 = 1) :
    isProperFraction (scan - 2 * first) (2 * (last - first)) = decide (Spans first last scan) := by
  unfold isProperFraction
  rw [Bool.eq_iff_iff]
  simp only [Bool.or_eq_true, Bool.and_eq_true, decide_eq_true_eq]
  unfold Spans
  omega

/-- A line along an axis is crossed exactly at its coordinate, if it is crossed. -/
theorem Straight.exists_crossings {segment : Segment} (straight : segment.Straight)
    (stored : segment.Stored) {scan : Int} (odd : scan % 2 = 1) (low : -(2 ^ 20) ≤ scan)
    (high : scan ≤ 2 ^ 20) :
    ∃ found, segment.crossings scan = .ok found ∧ CrossedAt found (segment.place? scan).toList := by
  cases straight with
  | upright place first last =>
      obtain ⟨⟨_, _, _, _⟩, ⟨_, _, _, _⟩⟩ := stored
      dsimp only at *
      rw [place?_upright, crossings, lineCrossing?, isProperFraction_eq odd]
      by_cases spans : Spans first last scan
      · rw [if_pos (decide_eq_true spans), if_pos spans]
        refine ⟨_, rfl, .cons ⟨?_, ?_⟩ .nil⟩
        -- The parameter is rounded, but on an upright line it is multiplied by zero.
        · dsimp only
          rw [Int.sub_self]
          refine Double.value?_add_mul_zero {} (Double.isFinite_div {} {} ?_)
          unfold Spans at spans
          omega
        · dsimp only
          split <;> rfl
      · rw [if_neg (by rwa [decide_eq_true_iff]), if_neg spans]
        exact ⟨[], rfl, .nil⟩
  | level first last height =>
      have flat : ¬decide (Spans height height scan) = true := by
        rw [decide_eq_true_iff]
        exact not_spans_self height scan
      rw [place?_level, crossings, lineCrossing?, isProperFraction_eq odd, if_neg flat]
      exact ⟨[], rfl, .nil⟩

end Segment

/-- A strip whose cells begin and end at small integers. -/
structure Strip.Small (strip : Strip Float) (gridSize : Nat) : Prop where
  low : -(2 ^ 18) ≤ strip.start
  high : strip.start + gridSize ≤ 2 ^ 18

section Scan

variable {segments : List Segment} (straight : ∀ segment ∈ segments, segment.Straight)
  (stored : ∀ segment ∈ segments, segment.Stored)

include straight stored

/-- Lines along the axes are crossed at the coordinates of the upright ones. -/
theorem exists_crossingsAlong {scan : Int} (odd : scan % 2 = 1) (low : -(2 ^ 20) ≤ scan)
    (high : scan ≤ 2 ^ 20) :
    ∃ found, crossingsAlong segments scan = .ok found ∧
      CrossedAt found (segments.filterMap (·.place? scan)) := by
  obtain ⟨foundOn, each, along⟩ : ∃ foundOn : Segment → List (Crossing Float), _ :=
    exists_crossingsOn odd
  refine ⟨_, along segments, ?_⟩
  clear along
  rw [filterMap_eq_flatMap_toList]
  induction segments with
  | nil => exact .nil
  | cons segment rest ih =>
      obtain ⟨first, others⟩ := forall_mem_cons.mp straight
      obtain ⟨firstStored, othersStored⟩ := forall_mem_cons.mp stored
      obtain ⟨found, crossings, crossed⟩ := first.exists_crossings firstStored odd low high
      cases (each segment).symm.trans crossings
      rw [map_cons, flatten_cons, flatMap_cons]
      exact rel_append crossed (ih others othersStored)

theorem Strip.crossedAt_of_make {gridSize index : Nat} {origin : Int} {strip : Strip Float}
    (made : make segments gridSize origin index = .ok strip) (small : strip.Small gridSize) :
    CrossedAt strip.crossings
      (segments.filterMap (·.place? (2 * strip.center gridSize + 1))) := by
  obtain ⟨low, high⟩ := small
  obtain ⟨_, along⟩ := make_eq_ok_iff.mp made
  obtain ⟨found, again, crossed⟩ := exists_crossingsAlong straight stored
    (odd_scan (strip.center gridSize)) (by unfold center; omega) (by unfold center; omega)
  cases along.symm.trans again
  exact crossed

end Scan

namespace Strip

/-! ### Cells between upright and level lines -/

variable {strip : Strip Float} {places : List Int}

theorem less_ofInt {coordinate : Int} (fits : Fits coordinate 0) {position : Float} {place : Int}
    (stands : value? position = some (place : ℚ)) :
    Scalar.less (Scalar.ofInt coordinate) position = decide (coordinate < place) := by
  rw [Bool.eq_iff_iff, decide_eq_true_iff, ← Int.cast_lt (R := ℚ),
    ← Double.lt_iff (Double.value?_ofInt fits) stands]
  exact decide_eq_true_iff

theorem lessEqual_ofInt {coordinate : Int} (fits : Fits coordinate 0) {position : Float}
    {place : Int} (stands : value? position = some (place : ℚ)) :
    Scalar.lessEqual position (Scalar.ofInt coordinate) = decide (place ≤ coordinate) := by
  rw [Bool.eq_iff_iff, decide_eq_true_iff, ← Int.cast_le (R := ℚ),
    ← Double.le_iff stands (Double.value?_ofInt fits)]
  exact decide_eq_true_iff

/-- A total winding is odd beyond an odd number of crossings. -/
theorem windingBeyond_emod_two (crossed : CrossedAt strip.crossings places) {coordinate : Int}
    (fits : Fits coordinate 0) :
    strip.windingBeyond coordinate % 2 = places.countP (coordinate < ·) % 2 := by
  rw [windingBeyond_eq]
  obtain ⟨start, crossings⟩ := strip
  dsimp only at *
  induction crossed with
  | nil => rfl
  | cons here _ ih =>
      have odd := here.2
      rw [filter_cons, less_ofInt fits here.1, countP_cons]
      split
      · rw [map_cons, sum_cons]
        omega
      · omega

theorem crossesWindow_iff (crossed : CrossedAt strip.crossings places) {start : Int}
    {gridSize : Nat} (fits : Fits start 0) (fits' : Fits (start + gridSize) 0) :
    strip.crossesWindow start gridSize ↔
      ∃ place ∈ places, start < place ∧ place ≤ start + gridSize := by
  obtain ⟨_, crossings⟩ := strip
  unfold crossesWindow
  dsimp only at *
  induction crossed with
  | nil => exact iff_of_false Bool.false_ne_true fun ⟨_, listed, _⟩ => absurd listed not_mem_nil
  | cons here _ ih =>
      rw [any_cons, Bool.or_eq_true, ih, less_ofInt fits here.1, lessEqual_ofInt fits' here.1,
        Bool.and_eq_true, decide_eq_true_iff, decide_eq_true_iff, exists_mem_cons_iff]

/-- What fills a cell, if its row and its column are crossed at integers. -/
theorem fills_iff {row column : Strip Float} {across along : List Int}
    (rowCrossed : CrossedAt row.crossings across)
    (columnCrossed : CrossedAt column.crossings along) {gridSize : Nat}
    (rowSmall : row.Small gridSize) (columnSmall : column.Small gridSize) :
    fills gridSize row column ↔
      across.countP (column.center gridSize < ·) % 2 = 1 ∨
        (∃ place ∈ across, column.start < place ∧ place ≤ column.start + gridSize) ∨
        ∃ place ∈ along, row.start < place ∧ place ≤ row.start + gridSize := by
  obtain ⟨_, _⟩ := rowSmall
  obtain ⟨_, _⟩ := columnSmall
  have centerFits : Fits (column.center gridSize) 0 := by
    unfold center
    exact {}
  unfold fills
  rw [windingBeyond_emod_two rowCrossed centerFits, Bool.or_eq_true, Bool.or_eq_true, or_assoc,
    crossesWindow_iff rowCrossed {} {}, crossesWindow_iff columnCrossed {} {}, bne_iff_ne]
  apply or_congr_left
  omega

end Strip

/-! ### Rectangles of whole cells -/

/-- The sides of a rectangle, around it from a corner on. -/
def Segment.sides (left right first last : Int) : List Segment :=
  [.line ⟨left, first⟩ ⟨right, first⟩, .line ⟨right, first⟩ ⟨right, last⟩,
    .line ⟨right, last⟩ ⟨left, last⟩, .line ⟨left, last⟩ ⟨left, first⟩]

namespace Segment

theorem ofContour_loop (left right first last : Int16) :
    ofContour ⟨Contour.loop left right first last⟩ =
      .ok (sides left.toInt right.toInt first.toInt last.toInt) :=
  rfl

theorem ofGlyph_boxed (glyph : Glyph) (first last : Int16) :
    ofGlyph (glyph.boxed first last) = .ok (sides glyph.metrics.minX.toInt
      glyph.metrics.maxX.toInt first.toInt last.toInt) :=
  rfl

theorem stored_of_mem_sides (left right first last : Int16) :
    ∀ segment ∈ sides left.toInt right.toInt first.toInt last.toInt, segment.Stored := by
  obtain ⟨segments, found, stored⟩ :=
    exists_ofContour_stored ⟨Contour.loop left right first last⟩
  cases (ofContour_loop left right first last).symm.trans found
  exact stored

variable (left right first last : Int)

theorem straight_of_mem_sides : ∀ segment ∈ sides left right first last, segment.Straight := by
  unfold sides
  simp only [forall_mem_cons]
  exact ⟨.level .., .upright .., .level .., .upright .., fun _ none => absurd none not_mem_nil⟩

/-- A level scan line between the level sides crosses the two upright ones. -/
theorem filterMap_place?_sides (scan : Int) :
    (sides left right first last).filterMap (·.place? scan) =
      if Spans first last scan then [right, left] else [] := by
  simp only [sides, filterMap_cons, filterMap_nil, place?_level, place?_upright,
    spans_comm last]
  by_cases spans : Spans first last scan
  · simp only [if_pos spans]
  · simp only [if_neg spans]

/-- An upright scan line between the upright sides crosses the two level ones. -/
theorem filterMap_place?_transpose_sides (scan : Int) :
    ((sides left right first last).map (·.transpose)).filterMap (·.place? scan) =
      if Spans left right scan then [first, last] else [] := by
  simp only [sides, map_cons, map_nil, transpose, Position.transpose, filterMap_cons,
    filterMap_nil, place?_level, place?_upright, spans_comm right]
  by_cases spans : Spans left right scan
  · simp only [if_pos spans]
  · simp only [if_neg spans]

end Segment

namespace Strip

/-- A strip among those of whole cells that reach from `low` to `high`, or behind them. -/
structure Placed (strip : Strip Float) (gridSize : Nat) (low high : Int) (index count : Nat) :
    Prop where
  start : strip.start = low + (index * gridSize : Nat)
  high : high = low + (count * gridSize : Nat)
  pos : 0 < gridSize

namespace Placed

variable {strip : Strip Float} {gridSize : Nat} {low high : Int} {index count : Nat}
  (placed : strip.Placed gridSize low high index count)

include placed

/-- A strip lies a whole cell before the end, or not before it. -/
theorem start_add_le_or_le_start : index < count ∧ strip.start + gridSize ≤ high ∨
    count ≤ index ∧ high ≤ strip.start := by
  obtain ⟨start, rfl, _⟩ := placed
  rcases Nat.lt_or_ge index count with before | behind
  · have whole := Nat.mul_le_mul_right gridSize (Nat.succ_le_of_lt before)
    rw [Nat.succ_mul] at whole
    exact .inl ⟨before, by omega⟩
  · have whole := Nat.mul_le_mul_right gridSize behind
    exact .inr ⟨behind, by omega⟩

theorem low_le_start : low ≤ strip.start := by
  have := placed.start
  omega

theorem spans_iff : Spans low high (2 * strip.center gridSize + 1) ↔ index < count := by
  have pos := placed.pos
  have le := placed.low_le_start
  unfold Spans center
  rcases placed.start_add_le_or_le_start with ⟨before, whole⟩ | ⟨behind, whole⟩ <;> omega

theorem center_lt_high_iff : strip.center gridSize < high ↔ index < count := by
  have pos := placed.pos
  unfold center
  rcases placed.start_add_le_or_le_start with ⟨before, whole⟩ | ⟨behind, whole⟩ <;> omega

theorem low_le_center : low ≤ strip.center gridSize := by
  have le := placed.low_le_start
  unfold center
  omega

end Placed

/-- Between the sides of a rectangle of whole cells, exactly its cells are filled. -/
theorem fills_of_placed {row column : Strip Float} {gridSize x y columns rows : Nat}
    {left right bottom top first last : Int}
    (rowPlaced : row.Placed gridSize bottom top y rows)
    (columnPlaced : column.Placed gridSize left right x columns)
    (ends : first = bottom ∧ last = top ∨ first = top ∧ last = bottom)
    (rowCrossed : CrossedAt row.crossings
      (if Spans first last (2 * row.center gridSize + 1) then [right, left] else []))
    (columnCrossed : CrossedAt column.crossings
      (if Spans left right (2 * column.center gridSize + 1) then [first, last] else []))
    (rowSmall : row.Small gridSize) (columnSmall : column.Small gridSize) :
    fills gridSize row column ↔ x < columns ∧ y < rows := by
  have spans : Spans first last (2 * row.center gridSize + 1) ↔ y < rows := by
    rcases ends with ⟨rfl, rfl⟩ | ⟨rfl, rfl⟩
    · exact rowPlaced.spans_iff
    · exact (spans_comm _ _ _).trans rowPlaced.spans_iff
  rw [fills_iff rowCrossed columnCrossed rowSmall columnSmall]
  simp only [spans, columnPlaced.spans_iff]
  have rowLow := rowPlaced.low_le_start
  have columnLow := columnPlaced.low_le_start
  have notLeft : ¬column.center gridSize < left := not_lt.mpr columnPlaced.low_le_center
  have beyond := columnPlaced.center_lt_high_iff
  have count :
      [right, left].countP (column.center gridSize < ·) = if x < columns then 1 else 0 := by
    simp only [countP_cons, countP_nil, decide_eq_true_iff, beyond, if_neg notLeft, Nat.zero_add]
  rcases rowPlaced.start_add_le_or_le_start with ⟨yWithin, above⟩ | ⟨yBehind, below⟩
  · rw [if_pos yWithin, count]
    rcases columnPlaced.start_add_le_or_le_start with ⟨xWithin, before⟩ | ⟨xBehind, behind⟩
    · rw [if_pos xWithin]
      exact iff_of_true (.inl rfl) ⟨xWithin, yWithin⟩
    -- To the right of the last column, windows begin at the right side or behind it.
    · rw [if_neg (Nat.not_lt.mpr xBehind), if_neg (Nat.not_lt.mpr xBehind)]
      refine iff_of_false ?_ fun inside => absurd inside.1 (Nat.not_lt.mpr xBehind)
      rintro (odd | ⟨place, listed, _, _⟩ | ⟨place, listed, _, _⟩)
      · cases odd
      · rcases mem_pair.mp listed with rfl | rfl <;> omega
      · exact not_mem_nil listed
  -- Above the last row, no scan line of a row meets the outline, and windows begin at its top.
  · rw [if_neg (Nat.not_lt.mpr yBehind)]
    refine iff_of_false ?_ fun inside => absurd inside.2 (Nat.not_lt.mpr yBehind)
    rintro (odd | ⟨place, listed, _, _⟩ | ⟨place, listed, _, _⟩)
    · cases odd
    · exact not_mem_nil listed
    · split at listed
      · rcases mem_pair.mp listed with rfl | rfl <;> omega
      · exact not_mem_nil listed

end Strip

namespace Rasterizer

theorem cellCount_mul {rasterizer : Rasterizer} (pos : 0 < rasterizer.gridSize) (count : Nat) :
    rasterizer.cellCount (count * rasterizer.gridSize) = count + 1 := by
  unfold cellCount
  rw [Nat.add_sub_assoc pos, Nat.add_comm (count * _), Nat.add_mul_div_right _ _ pos,
    Nat.div_eq_of_lt (Nat.sub_lt pos Nat.one_pos), Nat.zero_add]

section Axis

variable {rasterizer : Rasterizer}
  (sized : 0 < rasterizer.gridSize ∧ rasterizer.gridSize < 65536) {low high : Int16} {count : Nat}
  (length : high.toInt - low.toInt = (count * rasterizer.gridSize : Nat)) {index : Nat}
  (within : index < count + 1) {segments : List Segment} {strip : Strip Float}
  (made : Strip.make segments rasterizer.gridSize low.toInt index = .ok strip)

include sized length made

theorem placed_of_make :
    strip.Placed rasterizer.gridSize low.toInt high.toInt index count where
  start := Strip.start_of_make made
  high := by omega
  pos := sized.1

include within

theorem small_of_make : strip.Small rasterizer.gridSize := by
  have lowBound : -32768 ≤ low.toInt := low.minValue_le_toInt
  have highBound : high.toInt ≤ 32767 := high.toInt_le
  have reach := Nat.mul_le_mul_right rasterizer.gridSize (Nat.le_of_lt_succ within)
  have start := Strip.start_of_make made
  have bounded := sized.2
  exact ⟨by omega, by omega⟩

end Axis

/--
The mask of a rectangle of whole cells has these cells filled, and no cell of
the row above them or of the column to the right of them, for every size of
cells and in double precision.
-/
theorem rasterize_box {gridSize : Nat} {unitsPerEm : UInt16} {rasterizer : Rasterizer}
    (created : create gridSize unitsPerEm = .ok rasterizer) {glyph : Glyph} (box : glyph.IsBox)
    {columns rows : Nat} (width : glyph.metrics.width = (columns * gridSize : Nat))
    (height : glyph.metrics.height = (rows * gridSize : Nat)) :
    ∃ mask, rasterizer.rasterize glyph = .ok mask ∧ mask.width = columns + 1 ∧
      mask.height = rows + 1 ∧
      ∀ x y, x < columns + 1 → y < rows + 1 →
        mask.get? x y = some (decide (x < columns ∧ y < rows)) := by
  have sized := gridSize_of_create created
  obtain rfl : rasterizer.gridSize = gridSize := gridSize_eq_of_create created
  obtain ⟨first, last, ends, redrawn⟩ := box.exists_redrawn
  have straight := Segment.straight_of_mem_sides glyph.metrics.minX.toInt
    glyph.metrics.maxX.toInt first.toInt last.toInt
  have stored := Segment.stored_of_mem_sides glyph.metrics.minX glyph.metrics.maxX first last
  have sound : ¬((glyph.boxed first last).metrics.width < 0 ∨
      (glyph.boxed first last).metrics.height < 0) := by
    change ¬(glyph.metrics.width < 0 ∨ glyph.metrics.height < 0)
    omega
  obtain ⟨row, column, rowMade, columnMade, made⟩ : ∃ row column : Nat → Strip Float, _ :=
    rasterizer.exists_rasterizeIn_eq_maskOf sound (Segment.ofGlyph_boxed glyph first last)
  have wide : (rasterizer.maskOf glyph.metrics row column).width = columns + 1 := by
    rw [maskOf, width, Int.toNat_natCast, cellCount_mul sized.1]
  have tall : (rasterizer.maskOf glyph.metrics row column).height = rows + 1 := by
    rw [maskOf, height, Int.toNat_natCast, cellCount_mul sized.1]
  refine ⟨_, (rasterizer.rasterizeIn_redrawn redrawn).trans made, wide, tall,
    fun x y xWithin yWithin => ?_⟩
  rw [get?_maskOf _ _ _ _ (wide ▸ xWithin) (tall ▸ yWithin), Option.some.injEq, Bool.eq_iff_iff,
    decide_eq_true_iff]
  have rowSmall := small_of_make sized height yWithin (rowMade y)
  have columnSmall := small_of_make sized width xWithin (columnMade x)
  have rowCrossed := Strip.crossedAt_of_make straight stored (rowMade y) rowSmall
  rw [Segment.filterMap_place?_sides] at rowCrossed
  have columnCrossed := Strip.crossedAt_of_make (List.forall_mem_map.mpr fun segment listed =>
      (straight segment listed).transpose) (List.forall_mem_map.mpr fun segment listed =>
      (stored segment listed).transpose) (columnMade x) columnSmall
  rw [Segment.filterMap_place?_transpose_sides] at columnCrossed
  refine Strip.fills_of_placed (placed_of_make sized height (rowMade y))
    (placed_of_make sized width (columnMade x)) ?_ rowCrossed columnCrossed rowSmall columnSmall
  exact ends.imp (.imp (congrArg Int16.toInt) (congrArg Int16.toInt))
    (.imp (congrArg Int16.toInt) (congrArg Int16.toInt))

/-- A rectangle of five by three cells of odd size on both sides of the axes. -/
def plate : Glyph where
  metrics := ⟨-15, -10, 10, 5⟩
  instructions := #[]
  contours := [⟨[⟨10, -10, true⟩, ⟨-15, -10, true⟩, ⟨-15, 5, true⟩, ⟨10, 5, true⟩]⟩]

/-- The last cell of a plate is filled, and the cells above it and to the right of it are not. -/
theorem rasterize_box_plate :
    create 5 1000 = .ok ⟨5⟩ ∧ plate.IsBox ∧ plate.metrics.width = (5 * 5 : Nat) ∧
    plate.metrics.height = (3 * 5 : Nat) ∧
    ∃ mask, rasterize ⟨5⟩ plate = .ok mask ∧ mask.width = 6 ∧ mask.height = 4 ∧
      mask.get? 4 2 = some true ∧ mask.get? 4 3 = some false ∧ mask.get? 5 2 = some false := by
  have created : create 5 1000 = .ok ⟨5⟩ := rfl
  have box : plate.IsBox := ⟨_, rfl, .inr ⟨2, rfl⟩⟩
  have width : plate.metrics.width = (5 * 5 : Nat) := by decide
  have height : plate.metrics.height = (3 * 5 : Nat) := by decide
  obtain ⟨mask, made, wide, tall, cells⟩ := rasterize_box created box width height
  exact ⟨created, box, width, height, mask, made, wide, tall, cells 4 2 (by decide) (by decide),
    cells 4 3 (by decide) (by decide), cells 5 2 (by decide) (by decide)⟩

end Rasterizer

end Raster

end OutlineFont
