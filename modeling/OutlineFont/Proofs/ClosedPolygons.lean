import OutlineFont.Proofs.Flattening
import OutlineFont.Proofs.Rectangles
import OutlineFont.Proofs.RoundedQuotients

/-!
# Closed polygons do not leak

A glyph all of whose points lie on the outline is drawn in lines that lead around
each contour and back.  A line crosses a scan line exactly if one of its ends lies
below it and the other one does not, and its winding tells which.  So the windings
along a closed polygon cancel, and a ray that passes all crossings of a scan line
sees the same as one that passes none.
-/

namespace OutlineFont

open List

/-- A glyph whose points all lie on the outline. -/
def Glyph.Polygonal (glyph : Glyph) : Prop :=
  ∀ contour ∈ glyph.contours, ∀ point ∈ contour.points, point.onCurve

/-- No point is implied between points on the curve. -/
theorem Contour.flatten_of_onCurve {contour : Contour}
    (on : ∀ point ∈ contour.points, point.onCurve) : contour.flatten = contour.points := by
  obtain ⟨points⟩ := contour
  match points with
  | [] | [point] => rfl
  | first :: successor :: rest =>
      have path : IsChain Contour.Joined (first :: successor :: rest ++ [first]) := by
        refine (pairwise_of_forall_mem_list fun point listed _ _ => .inl ?_).isChain
        rcases mem_append.mp listed with among | last
        · exact on point among
        · exact mem_singleton.mp last ▸ on first mem_cons_self
      exact Contour.flattenToward_of_isChain path

namespace Raster

open Contour (Drawn)

/-! ### Lines around polygons -/

/-- Lines from one place to another. -/
inductive Leads : Position → List Segment → Position → Prop where
  | stay {place : Position} : Leads place [] place
  | on {start next stop : Position} {segments : List Segment}
      (further : Leads next segments stop) : Leads start (.line start next :: segments) stop

theorem Leads.transpose {start stop : Position} {segments : List Segment}
    (leads : Leads start segments stop) :
    Leads start.transpose (segments.map (·.transpose)) stop.transpose := by
  induction leads with
  | stay => exact .stay
  | on _ ih => exact .on ih

/-- Lines that lead around polygons, one after the other. -/
inductive Closed : List Segment → Prop where
  | none : Closed []
  | more {place : Position} {around rest : List Segment} (back : Leads place around place)
      (further : Closed rest) : Closed (around ++ rest)

theorem Closed.transpose {segments : List Segment} (closed : Closed segments) :
    Closed (segments.map (·.transpose)) := by
  induction closed with
  | none => exact .none
  | more back _ ih =>
      rw [map_append]
      exact .more back.transpose ih

theorem Leads.exists_line {start stop : Position} {segments : List Segment}
    (leads : Leads start segments stop) :
    ∀ segment ∈ segments, ∃ first last, segment = .line first last := by
  induction leads with
  | stay => exact fun _ none => absurd none not_mem_nil
  | on _ ih => exact forall_mem_cons.mpr ⟨⟨_, _, rfl⟩, ih⟩

theorem Closed.exists_line {segments : List Segment} (closed : Closed segments) :
    ∀ segment ∈ segments, ∃ first last, segment = .line first last := by
  induction closed with
  | none => exact fun _ none => absurd none not_mem_nil
  | more back _ ih => exact forall_mem_append.mpr ⟨back.exists_line, ih⟩

theorem leads_of_drawn {points : List Point} {steps : List PathOperation}
    (drawn : Drawn points steps) (on : ∀ point ∈ points, point.onCurve) (current : Position) :
    Leads current (Segment.ofOperations current steps)
      (points.foldl (fun _ point => point.position) current) := by
  induction drawn generalizing current with
  | finish => exact .stay
  | line _ _ ih => exact .on (ih (forall_mem_cons.mp on).2 _)
  | curve off _ _ _ =>
      have here := (forall_mem_cons.mp on).1
      rw [off] at here
      contradiction

/-- The lines of a polygon lead around it. -/
theorem exists_ofContour_leads {contour : Contour} (on : ∀ point ∈ contour.points, point.onCurve) :
    ∃ segments place, Segment.ofContour contour = .ok segments ∧ Leads place segments place := by
  by_cases drawn : 2 ≤ contour.size
  · obtain ⟨start, rest, steps, _, turned, path, found⟩ := Segment.ofContour_around drawn
    rw [Contour.flatten_of_onCurve on] at turned
    have along : ∀ point ∈ rest ++ [start], point.onCurve := fun point listed =>
      on point (turned.perm.mem_iff.mp ((perm_append_singleton start rest).mem_iff.mp listed))
    have leads := leads_of_drawn path along start.position
    rw [foldl_append] at leads
    exact ⟨_, _, found, leads⟩
  · exact ⟨[], ⟨0, 0⟩, Segment.ofContour_of_not_drawn drawn, .stay⟩

theorem closed_flatten {loops : List (List Segment)}
    (back : ∀ around ∈ loops, ∃ place, Leads place around place) : Closed loops.flatten := by
  induction loops with
  | nil => exact .none
  | cons around rest ih =>
      obtain ⟨⟨place, leads⟩, others⟩ := forall_mem_cons.mp back
      exact .more leads (ih others)

theorem exists_ofGlyph_closed {glyph : Glyph} (polygonal : glyph.Polygonal) :
    ∃ segments, Segment.ofGlyph glyph = .ok segments ∧ Closed segments := by
  choose segmentsOf found using Segment.exists_ofContour
  refine ⟨_, Segment.ofGlyph_eq found glyph, closed_flatten fun around listed => ?_⟩
  obtain ⟨contour, among, rfl⟩ := mem_map.mp listed
  obtain ⟨segments, place, same, leads⟩ := exists_ofContour_leads (polygonal contour among)
  cases (found contour).symm.trans same
  exact ⟨place, leads⟩

/-! ### What lines cross -/

/-- Where a line meets the scan line above `center`, as a fraction of the line. -/
def parameter (start stop : Position) (center : Int) : ℚ :=
  (center + 1 / 2 - start.y) / (stop.y - start.y)

/-- Where a line meets the scan line above `center`, in double precision. -/
def doubleParameter (start stop : Position) (center : Int) : Float :=
  (.ofInt center + 0.5 - .ofInt start.y) / (.ofInt stop.y - .ofInt start.y)

theorem isProperFraction_iff (numerator denominator : Int) :
    Segment.isProperFraction numerator denominator = true ↔
      0 < (numerator : ℚ) / denominator ∧ (numerator : ℚ) / denominator ≤ 1 := by
  unfold Segment.isProperFraction
  rw [Bool.or_eq_true, Bool.and_eq_true, Bool.and_eq_true, decide_eq_true_iff, decide_eq_true_iff,
    decide_eq_true_iff, decide_eq_true_iff]
  rcases lt_trichotomy denominator 0 with negative | rfl | positive
  · have below : (denominator : ℚ) < 0 := Int.cast_lt_zero.mpr negative
    rw [div_le_one_of_neg below, Int.cast_le, ← neg_div_neg_eq, div_pos_iff_of_pos_right
      (neg_pos.mpr below), neg_pos, Int.cast_lt_zero]
    omega
  · rw [Int.cast_zero, div_zero]
    exact iff_of_false (by omega) fun found => lt_irrefl _ found.1
  · have above : (0 : ℚ) < denominator := Int.cast_pos.mpr positive
    rw [div_le_one above, Int.cast_le, div_pos_iff_of_pos_right above, Int.cast_pos]
    omega

/--
Whether a line crosses the scan line above `center` is decided on integers as in
exact arithmetic, and as in double precision unless the scan line is far away from
all points.
-/
structure Decided (Number : Type) [Scalar Number] (start stop : Position) (center : Int) :
    Prop where
  exactly : (Segment.lineCrossing? start stop (2 * center + 1) :
      Option (Crossing Number)).isSome ↔
    start.y ≠ stop.y ∧ 0 < parameter start stop center ∧ parameter start stop center ≤ 1
  inDoubles (low : -(2 ^ 18) ≤ center) (high : center ≤ 2 ^ 18) :
    (Segment.lineCrossing? start stop (2 * center + 1) : Option (Crossing Number)).isSome ↔
      start.y ≠ stop.y ∧ 0 < doubleParameter start stop center ∧
        doubleParameter start stop center ≤ 1

open Double in
theorem doubleParameter_eq {start stop : Position} (first : start.Stored) (last : stop.Stored)
    {center : Int} (low : -(2 ^ 18) ≤ center) (high : center ≤ 2 ^ 18) :
    doubleParameter start stop center =
      dyadic (2 * center + 1 - 2 * start.y) (-1) / dyadic (2 * (stop.y - start.y)) (-1) := by
  obtain ⟨_, _, startLow, startHigh⟩ := first
  obtain ⟨_, _, stopLow, stopHigh⟩ := last
  have half : (0.5 : Float) = dyadic 1 (-1) := by decide +kernel
  unfold doubleParameter
  rw [ofInt_eq_halves (by omega), ofInt_eq_halves (by omega), ofInt_eq_halves (by omega), half,
    Fits.add {} {} {}, Fits.sub {} {} {}, Fits.sub {} {} {}, Int.mul_sub]

variable {Number : Type} [Scalar Number]

theorem isSome_lineCrossing?_iff (start stop : Position) (scan : Int) :
    (Segment.lineCrossing? start stop scan : Option (Crossing Number)).isSome ↔
      Segment.isProperFraction (scan - 2 * start.y) (2 * (stop.y - start.y)) = true := by
  unfold Segment.lineCrossing?
  dsimp only
  split
  · next crosses => exact iff_of_true rfl crosses
  · next crosses => exact iff_of_false nofun crosses

theorem decided_of_stored {start stop : Position} (first : start.Stored) (last : stop.Stored)
    (center : Int) : Decided Number start stop center := by
  have fraction : ((2 * center + 1 - 2 * start.y : Int) : ℚ) / (2 * (stop.y - start.y) : Int) =
      parameter start stop center := by
    unfold parameter
    push_cast
    rw [← mul_div_mul_left (center + 1 / 2 - start.y : ℚ) _ two_ne_zero]
    ring_nf
  have flat (level : start.y = stop.y) : parameter start stop center = 0 := by
    unfold parameter
    rw [level, sub_self, div_zero]
  refine ⟨?_, fun low high => ?_⟩
  · rw [isSome_lineCrossing?_iff, isProperFraction_iff, fraction, iff_and_self]
    intro crosses level
    exact crosses.1.ne' (flat level)
  · rw [isSome_lineCrossing?_iff, isProperFraction_iff, fraction]
    by_cases level : start.y = stop.y
    · rw [flat level]
      exact iff_of_false (fun crosses => crosses.1.ne rfl) fun crosses => crosses.1 level
    · have param := doubleParameter_eq first last low high
      obtain ⟨_, _, startLow, startHigh⟩ := first
      obtain ⟨_, _, stopLow, stopHigh⟩ := last
      rw [and_iff_right level, param, Double.zero_lt_div_and_div_le_one_iff {} {} (by omega)
        (by omega), fraction]

/-! ### Windings along a scan line -/

/-- One below a scan line, given by twice its height, and zero above it. -/
def depth (scan : Int) (place : Position) : Int :=
  if 2 * place.y < scan then 1 else 0

/-- A line crosses a scan line if it leads from one side of it to the other. -/
theorem winding_lineCrossing? (start stop : Position) {scan : Int} (odd : scan % 2 = 1) :
    ((Segment.lineCrossing? start stop scan : Option (Crossing Number)).toList.map
      (·.winding)).sum = depth scan stop - depth scan start := by
  unfold Segment.lineCrossing? depth
  dsimp only
  rw [Segment.isProperFraction_eq odd]
  -- No place lies on the scan line, so a line that does not span it has both ends on one side.
  by_cases spans : Spans start.y stop.y scan
  · rw [if_pos (decide_eq_true spans), Option.toList_some, map_singleton, sum_singleton]
    dsimp only
    unfold Spans at spans
    split_ifs <;> omega
  · rw [if_neg (mt of_decide_eq_true spans), Option.toList_none, map_nil, sum_nil]
    unfold Spans at spans
    split_ifs <;> omega

/-- The windings along a path tell how much deeper its end lies than its start. -/
theorem Leads.sum_windings {start stop : Position} {segments : List Segment}
    (leads : Leads start segments stop) {scan : Int} (odd : scan % 2 = 1)
    {foundOn : Segment → List (Crossing Number)}
    (each : ∀ segment : Segment, segment.crossings scan = .ok (foundOn segment)) :
    ((segments.map foundOn).flatten.map (·.winding)).sum =
      depth scan stop - depth scan start := by
  -- The depth of a place between two lines is added by one of them and taken off by the other.
  induction leads with
  | stay => rw [Int.sub_self]; rfl
  | @on start next stop segments _ ih =>
      have first : foundOn (.line start next) = (Segment.lineCrossing? start next scan).toList :=
        (Except.ok.inj (each (.line start next))).symm
      rw [map_cons, flatten_cons, map_append, sum_append, ih, first,
        winding_lineCrossing? start next odd]
      omega

theorem Closed.sum_windings {segments : List Segment} (closed : Closed segments) {scan : Int}
    (odd : scan % 2 = 1) {foundOn : Segment → List (Crossing Number)}
    (each : ∀ segment : Segment, segment.crossings scan = .ok (foundOn segment)) :
    ((segments.map foundOn).flatten.map (·.winding)).sum = 0 := by
  induction closed with
  | none => rfl
  | more back _ ih =>
      rw [map_append, flatten_append, map_append, sum_append, ih, back.sum_windings odd each,
        Int.sub_self]
      rfl

/-! ### Rays -/

namespace Strip

/-- All crossings of a strip lie beyond a coordinate, or none does. -/
def Beside (strip : Strip Number) (coordinate : Int) : Prop :=
  (∀ crossing ∈ strip.crossings,
    Scalar.less (Scalar.ofInt coordinate) crossing.position = true) ∨
  ∀ crossing ∈ strip.crossings, Scalar.less (Scalar.ofInt coordinate) crossing.position = false

theorem windingBeyond_of_beside {strip : Strip Number} {coordinate : Int}
    (balanced : (strip.crossings.map (·.winding)).sum = 0) (beside : strip.Beside coordinate) :
    strip.windingBeyond coordinate = 0 := by
  rw [windingBeyond_eq]
  rcases beside with all | none
  · rwa [filter_eq_self.mpr all]
  · rw [filter_eq_nil_iff.mpr fun crossing listed => by
      rw [none crossing listed]
      exact Bool.false_ne_true]
    rfl

end Strip

/-- Polygons around which nothing leaks along the scan lines halfway between integers. -/
structure Sealed (Number : Type) [Scalar Number] (sides : List Segment) : Prop where
  lines : ∀ segment ∈ sides, ∃ start stop, segment = .line start stop ∧
    ∀ center, Decided Number start stop center
  balanced (center : Int) : ∃ crossings : List (Crossing Number),
    crossingsAlong sides (2 * center + 1) = .ok crossings ∧ (crossings.map (·.winding)).sum = 0
  dark (gridSize : Nat) (origin : Int) (index : Nat) : ∃ strip : Strip Number,
    Strip.make sides gridSize origin index = .ok strip ∧
    ∀ column : Strip Number, strip.Beside (column.center gridSize) →
      strip.windingBeyond (column.center gridSize) = 0 ∧
      Strip.fills gridSize strip column =
        (strip.crossesWindow column.start gridSize || column.crossesWindow strip.start gridSize)

theorem Closed.exists_balanced {sides : List Segment} (closed : Closed sides) (center : Int) :
    ∃ crossings : List (Crossing Number), crossingsAlong sides (2 * center + 1) = .ok crossings ∧
      (crossings.map (·.winding)).sum = 0 := by
  obtain ⟨foundOn, each, along⟩ : ∃ foundOn : Segment → List (Crossing Number), _ :=
    exists_crossingsOn (odd_scan center)
  exact ⟨_, along sides, closed.sum_windings (odd_scan center) each⟩

theorem Closed.sealed {sides : List Segment} (closed : Closed sides)
    (stored : ∀ segment ∈ sides, segment.Stored) : Sealed Number sides := by
  refine ⟨?lines, closed.exists_balanced, ?dark⟩
  case lines =>
    intro segment listed
    obtain ⟨start, stop, rfl⟩ := closed.exists_line segment listed
    obtain ⟨first, last⟩ := stored _ listed
    exact ⟨start, stop, rfl, decided_of_stored first last⟩
  case dark =>
    intro gridSize origin index
    obtain ⟨crossings, along, sum⟩ : ∃ crossings : List (Crossing Number), _ :=
      closed.exists_balanced (origin + (index * gridSize : Nat) + (gridSize / 2 : Nat))
    refine ⟨⟨_, crossings⟩, Strip.make_eq_ok_iff.mpr ⟨rfl, along⟩, fun column beside => ?_⟩
    have dark := Strip.windingBeyond_of_beside sum beside
    refine ⟨dark, ?_⟩
    unfold Strip.fills
    rw [dark]
    rfl

/--
Polygons do not leak: along every scan line halfway between integers, level or
upright, the windings of all crossings cancel.  So no cell is filled for a ray from
a center beside all crossings.
-/
theorem Segment.ofGlyph_sealed (Number : Type) [Scalar Number] {glyph : Glyph}
    (polygonal : glyph.Polygonal) :
    ∃ segments, ofGlyph glyph = .ok segments ∧ Sealed Number segments ∧
      Sealed Number (segments.map (·.transpose)) := by
  obtain ⟨segments, found, closed⟩ := exists_ofGlyph_closed polygonal
  obtain ⟨others, again, stored⟩ := exists_ofGlyph_stored glyph
  cases found.symm.trans again
  refine ⟨segments, found, closed.sealed stored, closed.transpose.sealed fun _ listed => ?_⟩
  obtain ⟨segment, among, rfl⟩ := mem_map.mp listed
  exact (stored segment among).transpose

/-- A contour that crosses itself, a point alone, and a line forth and back. -/
def bowTie : Glyph :=
  ⟨⟨-10, 0, 10, 20⟩, #[],
    [⟨[⟨-10, 0, true⟩, ⟨10, 20, true⟩, ⟨-10, 20, true⟩, ⟨10, 0, true⟩]⟩,
      ⟨[⟨3, 3, true⟩]⟩,
      ⟨[⟨0, 5, true⟩, ⟨0, 15, true⟩]⟩]⟩

/-- Close to the place where two sides cross, four windings cancel. -/
theorem Segment.ofGlyph_sealed_bowTie :
    bowTie.Polygonal ∧ ∃ segments, ∃ crossings : List (Crossing Float),
      ofGlyph bowTie = .ok segments ∧ Sealed Float segments ∧
      crossingsAlong segments 21 = .ok crossings ∧ crossings.length = 4 ∧
      (crossings.map (·.winding)).sum = 0 := by
  have polygonal : bowTie.Polygonal := by
    unfold Glyph.Polygonal
    decide
  have count : ((ofGlyph bowTie).toOption.bind fun segments =>
      (crossingsAlong segments 21).toOption.map fun crossings : List (Crossing Float) =>
        crossings.length) = some 4 := by decide +kernel
  obtain ⟨segments, found, whole, _⟩ := ofGlyph_sealed Float polygonal
  obtain ⟨crossings, along, sum⟩ := whole.balanced 10
  replace along : crossingsAlong segments 21 = .ok crossings := along
  rw [found] at count
  change ((crossingsAlong segments 21).toOption.map fun crossings : List (Crossing Float) =>
    crossings.length) = some 4 at count
  rw [along] at count
  exact ⟨polygonal, segments, crossings, found, whole, along, Option.some.inj count, sum⟩

end Raster

end OutlineFont
