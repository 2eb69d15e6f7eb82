import OutlineFont.Proofs.ExactDoubles
import OutlineFont.Proofs.MaskCells

/-!
# Scan lines between integers

The points of an outline have integer coordinates and scan lines lie halfway
between integers, so no curve runs along a scan line.  The numbers that tell
whether one does are small integers and halves of them, which double precision
holds exactly.  As every contour can be drawn as well, the only glyphs that
cannot be rasterized are those with a box of negative size.
-/

namespace OutlineFont

/-! ### Stored places -/

/-- A place whose coordinates have sixteen bits, as those of points have. -/
structure Position.Stored (place : Position) : Prop where
  left : -32768 ≤ place.x
  right : place.x ≤ 32767
  low : -32768 ≤ place.y
  high : place.y ≤ 32767

theorem Point.position_stored (point : Point) : point.position.Stored where
  left := point.x.minValue_le_toInt
  right := point.x.toInt_le
  low := point.y.minValue_le_toInt
  high := point.y.toInt_le

theorem Position.Stored.transpose {place : Position} (stored : place.Stored) :
    place.transpose.Stored :=
  ⟨stored.low, stored.high, stored.left, stored.right⟩

namespace Raster

open Contour (Drawn)

namespace Segment

/-- All places of a segment are places of points. -/
def Stored : Segment → Prop
  | .line start stop => start.Stored ∧ stop.Stored
  | .curve start control stop => start.Stored ∧ control.Stored ∧ stop.Stored

theorem Stored.transpose {segment : Segment} (stored : segment.Stored) :
    segment.transpose.Stored := by
  cases segment with
  | line start stop => exact ⟨stored.1.transpose, stored.2.transpose⟩
  | curve start control stop =>
      exact ⟨stored.1.transpose, stored.2.1.transpose, stored.2.2.transpose⟩

theorem stored_of_drawn {points : List Point} {steps : List PathOperation}
    (drawn : Drawn points steps) {current : Position} (stored : current.Stored) :
    ∀ segment ∈ ofOperations current steps, segment.Stored := by
  induction drawn generalizing current with
  | finish => exact fun _ none => absurd none List.not_mem_nil
  | @line point _ _ _ _ ih =>
      exact List.forall_mem_cons.mpr ⟨⟨stored, point.position_stored⟩, ih point.position_stored⟩
  | @curve control target _ _ _ _ _ ih =>
      exact List.forall_mem_cons.mpr
        ⟨⟨stored, control.position_stored, target.position_stored⟩, ih target.position_stored⟩

/-- Every contour has segments, and they lead through places of points. -/
theorem exists_ofContour_stored (contour : Contour) :
    ∃ segments, ofContour contour = .ok segments ∧ ∀ segment ∈ segments, segment.Stored := by
  by_cases drawn : 2 ≤ contour.size
  · obtain ⟨start, rest, steps, _, _, path, found⟩ := ofContour_around drawn
    exact ⟨_, found, stored_of_drawn path start.position_stored⟩
  · exact ⟨[], ofContour_of_not_drawn drawn, fun _ none => absurd none List.not_mem_nil⟩

theorem exists_ofGlyph_stored (glyph : Glyph) :
    ∃ segments, ofGlyph glyph = .ok segments ∧ ∀ segment ∈ segments, segment.Stored := by
  choose segmentsOf found stored using exists_ofContour_stored
  refine ⟨(glyph.contours.map segmentsOf).flatten, ofGlyph_eq found glyph, ?_⟩
  intro segment listed
  obtain ⟨segments, among, listed⟩ := List.mem_flatten.mp listed
  obtain ⟨contour, _, rfl⟩ := List.mem_map.mp among
  exact stored contour segment listed

end Segment

/-! ### What is compared with zero -/

/-- The coefficient of a curve's height before the square of the parameter, in double precision. -/
def doubleBend (start control stop : Position) : Float :=
  .ofInt stop.y - 2 * .ofInt control.y + .ofInt start.y

/-- The coefficient of a curve's height before the parameter, in double precision. -/
def doubleSpeed (start control : Position) : Float :=
  2 * (.ofInt control.y - .ofInt start.y)

/-- The height of a curve's start over the scan line above `center`, in double precision. -/
def doubleRise (start : Position) (center : Int) : Float :=
  .ofInt start.y - (.ofInt center + 0.5)

/--
Whether a curve runs along the scan line above `center` is decided in double
precision as on integers: what is compared with zero is two small integers and
half of a small odd number, and each is the double that stands for it.
-/
structure DecidedExactly (start control stop : Position) (center : Int) : Prop where
  bend : Double.value? (doubleBend start control stop) =
    some ((stop.y - 2 * control.y + start.y : Int) : ℚ)
  speed : Double.value? (doubleSpeed start control) =
    some ((2 * (control.y - start.y) : Int) : ℚ)
  rise : Double.value? (doubleRise start center) =
    some (((2 * start.y - (2 * center + 1) : Int) : ℚ) / 2)
  bend_small : |stop.y - 2 * control.y + start.y| ≤ 2 ^ 20
  speed_small : |2 * (control.y - start.y)| ≤ 2 ^ 20
  rise_small : |2 * start.y - (2 * center + 1)| ≤ 2 ^ 20
  bend_eq_zero : (doubleBend start control stop == 0) =
    decide (stop.y - 2 * control.y + start.y = 0)
  speed_eq_zero : (doubleSpeed start control == 0) = decide (2 * (control.y - start.y) = 0)
  rise_ne_zero : (doubleRise start center == 0) = false

open Double in
theorem decidedExactly_of_stored {start control stop : Position} (first : start.Stored)
    (middle : control.Stored) (last : stop.Stored) {center : Int} (low : -(2 ^ 18) ≤ center)
    (high : center ≤ 2 ^ 18) : DecidedExactly start control stop center := by
  obtain ⟨_, _, startLow, startHigh⟩ := first
  obtain ⟨_, _, controlLow, controlHigh⟩ := middle
  obtain ⟨_, _, stopLow, stopHigh⟩ := last
  have two : (2 : Float) = dyadic 2 0 := ofNat_eq (by decide)
  have half : (0.5 : Float) = dyadic 1 (-1) := by decide +kernel
  have bendEq : doubleBend start control stop =
      dyadic (stop.y - 2 * control.y + start.y) 0 := by
    unfold doubleBend
    rw [ofInt_eq (by omega), ofInt_eq (by omega), ofInt_eq (by omega), two,
      Fits.mul (by omega) {} {} {}, Int.add_zero, Fits.sub {} {} {}, Fits.add {} {} {}]
  have speedEq : doubleSpeed start control = dyadic (2 * (control.y - start.y)) 0 := by
    unfold doubleSpeed
    rw [ofInt_eq (by omega), ofInt_eq (by omega), two, Fits.sub {} {} {},
      Fits.mul (by omega) {} {} {}, Int.add_zero]
  have riseEq : doubleRise start center = dyadic (2 * start.y - (2 * center + 1)) (-1) := by
    unfold doubleRise
    rw [ofInt_eq_halves (by omega), ofInt_eq_halves (by omega), half, Fits.add {} {} {},
      Fits.sub {} {} {}]
  have bend : value? (doubleBend start control stop) =
      some ((stop.y - 2 * control.y + start.y : Int) : ℚ) := by
    rw [bendEq, value?_dyadic {}, zpow_zero, mul_one]
  have speed : value? (doubleSpeed start control) =
      some ((2 * (control.y - start.y) : Int) : ℚ) := by
    rw [speedEq, value?_dyadic {}, zpow_zero, mul_one]
  have rise : value? (doubleRise start center) =
      some (((2 * start.y - (2 * center + 1) : Int) : ℚ) / 2) := by
    rw [riseEq, value?_dyadic {}, zpow_neg_one, div_eq_mul_inv]
  refine ⟨bend, speed, rise, ?_, ?_, ?_, ?_, ?_, ?_⟩
  · exact abs_le.mpr (by omega)
  · exact abs_le.mpr (by omega)
  · exact abs_le.mpr (by omega)
  · rw [beq_zero bend, decide_eq_decide, Int.cast_eq_zero]
  · rw [beq_zero speed, decide_eq_decide, Int.cast_eq_zero]
  -- An even number differs from an odd one: this is what the half unit of scan lines is for.
  · have odd : 2 * start.y - (2 * center + 1) ≠ 0 := by omega
    rw [beq_zero rise]
    exact decide_eq_false (div_ne_zero (Int.cast_ne_zero.mpr odd) two_ne_zero)

/-- Whether a segment meets the scan line above `center` is decided exactly. -/
def Segment.DecidedExactly (center : Int) : Segment → Prop
  | .line _ _ => True
  | .curve start control stop => Raster.DecidedExactly start control stop center

theorem Segment.Stored.decidedExactly {segment : Segment} (stored : segment.Stored) {center : Int}
    (low : -(2 ^ 18) ≤ center) (high : center ≤ 2 ^ 18) : segment.DecidedExactly center := by
  cases segment with
  | line start stop => trivial
  | curve start control stop =>
      exact decidedExactly_of_stored stored.1 stored.2.1 stored.2.2 low high

/-! ### Rows and columns -/

variable {Number : Type} [Scalar Number]

namespace Rasterizer

variable (Number)

/-- The strips of an axis can always be made. -/
theorem exists_strips (rasterizer : Rasterizer) (segments : List Segment) (origin : Int)
    (count : Nat) :
    ∃ strips : List (Strip Number), rasterizer.strips Number segments origin count = .ok strips ∧
      ∀ strip ∈ strips, ∃ index < count,
        strip.start = origin + (index * rasterizer.gridSize : Nat) := by
  obtain ⟨strip, made⟩ : ∃ strip : Nat → Strip Number, _ :=
    Strip.exists_make segments rasterizer.gridSize origin
  refine ⟨(List.range count).map strip, rasterizer.strips_eq made count, fun _ listed => ?_⟩
  obtain ⟨index, within, rfl⟩ := List.mem_map.mp listed
  exact ⟨index, List.mem_range.mp within, Strip.start_of_make (made index)⟩

theorem gridSize_eq_of_create {gridSize : Nat} {unitsPerEm : UInt16} {rasterizer : Rasterizer}
    (created : create gridSize unitsPerEm = .ok rasterizer) : rasterizer.gridSize = gridSize := by
  unfold create at created
  split at created
  · cases created
  · cases created
    rfl

/-- A rasterizer is created for cells of at least one unit and at most an em. -/
theorem gridSize_of_create {gridSize : Nat} {unitsPerEm : UInt16} {rasterizer : Rasterizer}
    (created : create gridSize unitsPerEm = .ok rasterizer) :
    0 < rasterizer.gridSize ∧ rasterizer.gridSize < 65536 := by
  have bound := unitsPerEm.toNat_lt
  rw [gridSize_eq_of_create created]
  unfold create at created
  split at created
  · cases created
  · omega

/-- The strips that cover a length begin less than a cell behind its end. -/
theorem index_mul_le {rasterizer : Rasterizer} (pos : 0 < rasterizer.gridSize) {length index : Nat}
    (within : index < rasterizer.cellCount length) :
    index * rasterizer.gridSize < length + rasterizer.gridSize := by
  have covered : index ≤ (length + rasterizer.gridSize - 1) / rasterizer.gridSize :=
    Nat.le_of_lt_succ within
  have begins := (Nat.le_div_iff_mul_le pos).mp covered
  omega

/-- The strips of an axis, on whose scan lines all is decided exactly. -/
theorem exists_strips_decidedExactly {rasterizer : Rasterizer}
    (sized : 0 < rasterizer.gridSize ∧ rasterizer.gridSize < 65536) {segments : List Segment}
    (stored : ∀ segment ∈ segments, segment.Stored) (low high : Int16) :
    ∃ strips : List (Strip Number),
      rasterizer.strips Number segments low.toInt
        (rasterizer.cellCount (high.toInt - low.toInt).toNat) = .ok strips ∧
      ∀ strip ∈ strips, ∀ segment ∈ segments,
        segment.DecidedExactly (strip.center rasterizer.gridSize) := by
  obtain ⟨strips, made, started⟩ := rasterizer.exists_strips Number segments low.toInt
    (rasterizer.cellCount (high.toInt - low.toInt).toNat)
  refine ⟨strips, made, fun strip listed segment among => ?_⟩
  obtain ⟨index, within, start⟩ := started strip listed
  have begins := index_mul_le sized.1 within
  have lowBound : -32768 ≤ low.toInt := low.minValue_le_toInt
  have lowBound' : low.toInt ≤ 32767 := low.toInt_le
  have highBound : high.toInt ≤ 32767 := high.toInt_le
  have bounded : rasterizer.gridSize < 65536 := sized.2
  generalize index * rasterizer.gridSize = distance at start begins
  apply (stored segment among).decidedExactly
  · unfold Strip.center
    omega
  · unfold Strip.center
    omega

theorem rasterizeIn_of_negative (rasterizer : Rasterizer) {glyph : Glyph}
    (negative : glyph.metrics.width < 0 ∨ glyph.metrics.height < 0) :
    rasterizer.rasterizeIn Number glyph = .error (.degenerate .negativeBox) := by
  unfold rasterizeIn
  rw [if_pos negative]
  rfl

/-- A glyph with a box of zero or positive size has a mask. -/
theorem exists_rasterizeIn (rasterizer : Rasterizer) {glyph : Glyph}
    (sound : ¬(glyph.metrics.width < 0 ∨ glyph.metrics.height < 0)) :
    ∃ mask, rasterizer.rasterizeIn Number glyph = .ok mask := by
  obtain ⟨segments, found, _⟩ := Segment.exists_ofGlyph_stored glyph
  obtain ⟨_, _, _, _, made⟩ : ∃ row column : Nat → Strip Number, _ :=
    rasterizer.exists_rasterizeIn_eq_maskOf sound found
  exact ⟨_, made⟩

/--
A glyph cannot be rasterized exactly when its box has a negative size, and no
other fault is ever reported: its contours can be drawn, and its rows and its
columns can be made, since all that tells whether a curve runs along one of
their scan lines is decided exactly.
-/
theorem rasterize_fails_iff {gridSize : Nat} {unitsPerEm : UInt16} {rasterizer : Rasterizer}
    (created : create gridSize unitsPerEm = .ok rasterizer) (glyph : Glyph) :
    ((∃ failure, rasterizer.rasterize glyph = .error failure) ↔
      glyph.metrics.width < 0 ∨ glyph.metrics.height < 0) ∧
    (∀ failure, rasterizer.rasterize glyph = .error failure →
      failure = .degenerate .negativeBox) ∧
    ∃ segments rows columns, Segment.ofGlyph glyph = .ok segments ∧
      rasterizer.strips Float segments glyph.metrics.minY.toInt
        (rasterizer.cellCount glyph.metrics.height.toNat) = .ok rows ∧
      rasterizer.strips Float (segments.map (·.transpose)) glyph.metrics.minX.toInt
        (rasterizer.cellCount glyph.metrics.width.toNat) = .ok columns ∧
      (∀ row ∈ rows, ∀ segment ∈ segments, segment.DecidedExactly (row.center gridSize)) ∧
      ∀ column ∈ columns, ∀ segment ∈ segments,
        segment.transpose.DecidedExactly (column.center gridSize) := by
  have sized := gridSize_of_create created
  obtain rfl : rasterizer.gridSize = gridSize := gridSize_eq_of_create created
  obtain ⟨segments, found, stored⟩ := Segment.exists_ofGlyph_stored glyph
  have turned : ∀ segment ∈ segments.map (·.transpose), segment.Stored := by
    intro _ listed
    obtain ⟨segment, among, rfl⟩ := List.mem_map.mp listed
    exact (stored segment among).transpose
  obtain ⟨rows, rowsMade, rowsExact⟩ :=
    exists_strips_decidedExactly Float sized stored glyph.metrics.minY glyph.metrics.maxY
  obtain ⟨columns, columnsMade, columnsExact⟩ :=
    exists_strips_decidedExactly Float sized turned glyph.metrics.minX glyph.metrics.maxX
  refine ⟨⟨?fails, ?negative⟩, ?only, segments, rows, columns, found, rowsMade, columnsMade,
    rowsExact, ?across⟩
  case fails =>
    rintro ⟨failure, failed⟩
    by_contra sound
    obtain ⟨mask, made⟩ := rasterizer.exists_rasterizeIn Float sound
    rw [rasterize, made] at failed
    cases failed
  case negative =>
    exact fun negative => ⟨_, rasterizer.rasterizeIn_of_negative Float negative⟩
  case only =>
    intro failure failed
    by_cases negative : glyph.metrics.width < 0 ∨ glyph.metrics.height < 0
    · rw [rasterize, rasterizer.rasterizeIn_of_negative Float negative] at failed
      cases failed
      rfl
    · obtain ⟨mask, made⟩ := rasterizer.exists_rasterizeIn Float negative
      rw [rasterize, made] at failed
      cases failed
  case across =>
    exact fun column listed segment among =>
      columnsExact column listed _ (List.mem_map_of_mem among)

/-- Three control points at one height: the curves between them are as flat as scan lines. -/
def flatLoop (metrics : Metrics) : Glyph :=
  ⟨metrics, #[], [⟨[⟨-40, 5, false⟩, ⟨40, 5, false⟩, ⟨15, 5, false⟩]⟩]⟩

/-- A flat loop is rasterized, in a box of no height as well, but not in one turned over. -/
theorem rasterize_flatLoop :
    create 10 1000 = .ok ⟨10⟩ ∧
    (¬∃ failure, rasterize ⟨10⟩ (flatLoop ⟨-40, 5, 40, 5⟩) = .error failure) ∧
    ∃ failure, rasterize ⟨10⟩ (flatLoop ⟨-40, 6, 40, 5⟩) = .error failure :=
  have created : create 10 1000 = .ok ⟨10⟩ := rfl
  ⟨created, mt (rasterize_fails_iff created _).1.mp (by decide),
    (rasterize_fails_iff created _).1.mpr (by decide)⟩

end Rasterizer

end Raster

end OutlineFont
