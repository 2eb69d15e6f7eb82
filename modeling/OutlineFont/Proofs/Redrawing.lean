import OutlineFont.Proofs.ClosedPath
import OutlineFont.Proofs.Sequencing
import OutlineFont.Raster.Rasterizer

/-!
# Outlines drawn another way

The mask of a glyph does not depend on the order of its contours, nor on the
points at which they start.  A contour that starts elsewhere is drawn in the
same segments, from another of them on; the crossings of a scan line are then
met in another order, and the tests of a cell do not see the order.
-/

namespace OutlineFont

open List

/-- The same closed path, from another point on. -/
def Contour.Turned (first second : Contour) : Prop :=
  first.points ~r second.points

/-- The same outline, with its contours in another order and each of them from another point on. -/
structure Glyph.Redrawn (first second : Glyph) : Prop where
  metrics : first.metrics = second.metrics
  contours : ∃ arranged, first.contours ~ arranged ∧
    Forall₂ Contour.Turned arranged second.contours

namespace Contour

/-- Drawing through an on-curve point falls into drawing up to it and drawing on. -/
theorem Drawn.split {stop : Point} {front back : List Point} {steps : List PathOperation}
    (on : stop.onCurve) (drawn : Drawn (front ++ stop :: back) steps) :
    ∃ toStop beyond, steps = toStop ++ beyond ∧ Drawn (front ++ [stop]) toStop ∧
      Drawn back beyond := by
  generalize path : front ++ stop :: back = points at drawn
  induction drawn generalizing front with
  | finish => cases append_ne_nil_of_right_ne_nil front (cons_ne_nil stop back) path
  | line here further ih =>
      cases front with
      | nil =>
          cases path
          exact ⟨[_], _, rfl, .line on .finish, further⟩
      | cons point front =>
          cases path
          obtain ⟨toStop, beyond, rfl, first, second⟩ := ih rfl
          exact ⟨_ :: toStop, beyond, rfl, .line here first, second⟩
  | curve off target further ih =>
      match front, path with
      | [], path =>
          cases path
          cases on.symm.trans off
      | [control], path =>
          cases path
          exact ⟨[_], _, rfl, .curve off on .finish, further⟩
      | control :: point :: front, path =>
          cases path
          obtain ⟨toStop, beyond, rfl, first, second⟩ := ih rfl
          exact ⟨_ :: toStop, beyond, rfl, .curve off target first, second⟩

theorem Drawn.unique {points : List Point} {steps others : List PathOperation}
    (first : Drawn points steps) (second : Drawn points others) : steps = others :=
  Except.ok.inj (first.operationsThrough_eq.symm.trans second.operationsThrough_eq)

end Contour

namespace Raster

open Contour (Drawn)

namespace Segment

/-- Segments that are drawn up to a point, and those that are drawn from it on. -/
theorem ofOperations_append {points : List Point} {steps : List PathOperation}
    (drawn : Drawn points steps) (current : Position) (further : List PathOperation) :
    ofOperations current (steps ++ further) =
      ofOperations current steps ++
        ofOperations (points.foldl (fun _ point => point.position) current) further := by
  induction drawn generalizing current with
  | finish => rfl
  | line _ _ ih => exact congrArg (_ :: ·) (ih _)
  | curve _ _ _ ih => exact congrArg (_ :: ·) (ih _)

theorem ofOperations_append_of_stop {front : List Point} {stop : Point}
    {steps : List PathOperation} (drawn : Drawn (front ++ [stop]) steps) (current : Position)
    (further : List PathOperation) :
    ofOperations current (steps ++ further) =
      ofOperations current steps ++ ofOperations stop.position further := by
  rw [ofOperations_append drawn, foldl_append]
  rfl

/--
Around a cycle of points, a different on-curve start makes the same segments
from another of them on: both ways are drawn in the same two parts, from one
start to the other and back.
-/
theorem isRotated_of_drawn {start other : Point} {rest remaining : List Point}
    {steps otherSteps : List PathOperation} (turned : start :: rest ~r other :: remaining)
    (startOn : start.onCurve) (otherOn : other.onCurve) (drawn : Drawn (rest ++ [start]) steps)
    (otherDrawn : Drawn (remaining ++ [other]) otherSteps) :
    ofOperations start.position steps ~r ofOperations other.position otherSteps := by
  obtain ⟨front, back, points, otherPoints⟩ := exists_append_of_isRotated turned
  cases front with
  | nil =>
      rw [append_nil] at otherPoints
      cases points.trans otherPoints.symm
      rw [drawn.unique otherDrawn]
  | cons first front =>
      cases back with
      | nil =>
          rw [append_nil] at points
          cases points.trans otherPoints.symm
          rw [drawn.unique otherDrawn]
      | cons second back =>
          rw [cons_append, cons_eq_cons] at points otherPoints
          obtain ⟨rfl, rfl⟩ := points
          obtain ⟨rfl, rfl⟩ := otherPoints
          rw [append_assoc] at drawn
          obtain ⟨toOther, toStart, rfl, there, again⟩ := drawn.split otherOn
          rw [append_assoc] at otherDrawn
          obtain ⟨_, _, rfl, sameAgain, sameThere⟩ := otherDrawn.split startOn
          cases again.unique sameAgain
          cases there.unique sameThere
          rw [ofOperations_append_of_stop there, ofOperations_append_of_stop again]
          exact isRotated_append

/-- The segments of a contour of two points or more lead around its flattened points. -/
theorem ofContour_around {contour : Contour} (drawn : 2 ≤ contour.size) :
    ∃ start rest steps, start.onCurve ∧ start :: rest ~r contour.flatten ∧
      Drawn (rest ++ [start]) steps ∧
      ofContour contour = .ok (ofOperations start.position steps) := by
  obtain ⟨start, rest, steps, on, around, path, operations⟩ := Contour.operations_around drawn
  refine ⟨start, rest, steps, on, around, path, ?_⟩
  unfold ofContour
  rw [operations]
  rfl

theorem ofContour_of_not_drawn {contour : Contour} (small : ¬2 ≤ contour.size) :
    ofContour contour = .ok [] := by
  unfold ofContour Contour.operations
  rw [if_pos (Nat.lt_of_not_le small)]
  rfl

/-- A contour has segments, and one that is turned has the same from another of them on. -/
theorem ofContour_isRotated {first second : Contour} (turned : first.Turned second) :
    ∃ segments others, ofContour first = .ok segments ∧ ofContour second = .ok others ∧
      segments ~r others := by
  have sameSize : first.size = second.size := turned.perm.length_eq
  by_cases drawn : 2 ≤ first.size
  · obtain ⟨start, rest, steps, startOn, around, path, found⟩ := ofContour_around drawn
    obtain ⟨other, remaining, otherSteps, otherOn, otherAround, otherPath, otherFound⟩ :=
      ofContour_around (sameSize ▸ drawn)
    have cycles := (around.trans (Contour.flatten_isRotated turned)).trans otherAround.symm
    exact ⟨_, _, found, otherFound, isRotated_of_drawn cycles startOn otherOn path otherPath⟩
  · exact ⟨[], [], ofContour_of_not_drawn drawn, ofContour_of_not_drawn (sameSize ▸ drawn), .refl _⟩

/-- The segments of a contour can always be found. -/
theorem exists_ofContour (contour : Contour) : ∃ segments, ofContour contour = .ok segments := by
  obtain ⟨segments, _, found, _⟩ := ofContour_isRotated (.refl contour.points)
  exact ⟨segments, found⟩

/-- The segments of a glyph are those of its contours. -/
theorem ofGlyph_eq {segmentsOf : Contour → List Segment}
    (found : ∀ contour, ofContour contour = .ok (segmentsOf contour)) (glyph : Glyph) :
    ofGlyph glyph = .ok (glyph.contours.map segmentsOf).flatten := by
  unfold ofGlyph
  rw [exceptMapM_of_forall_mem fun contour _ => found contour]
  rfl

/-- An outline has segments, and one that is redrawn has the same in another order. -/
theorem ofGlyph_perm {first second : Glyph} (redrawn : first.Redrawn second) :
    ∃ segments others, ofGlyph first = .ok segments ∧ ofGlyph second = .ok others ∧
      segments ~ others := by
  choose segmentsOf found using exists_ofContour
  obtain ⟨arranged, permuted, turned⟩ := redrawn.contours
  refine ⟨_, _, ofGlyph_eq found first, ofGlyph_eq found second,
    (permuted.map segmentsOf).flatten.trans ?_⟩
  apply Perm.flatten_congr
  rw [forall₂_map_left_iff, forall₂_map_right_iff]
  refine turned.imp fun contour other turned => ?_
  obtain ⟨segments, others, first, second, rotated⟩ := ofContour_isRotated turned
  rw [found] at first second
  cases first
  cases second
  exact rotated.perm

end Segment

/-! ### Scan lines and cells -/

theorem odd_scan (center : Int) : (2 * center + 1) % 2 = 1 := by
  omega

variable {Number : Type} [Scalar Number]

/-- All crossings of a scan line halfway between integers are found, segment by segment. -/
theorem exists_crossingsOn {scan : Int} (odd : scan % 2 = 1) :
    ∃ foundOn : Segment → List (Crossing Number),
      (∀ segment : Segment, segment.crossings scan = .ok (foundOn segment)) ∧
      ∀ segments, crossingsAlong segments scan = .ok (segments.map foundOn).flatten := by
  choose foundOn each using
    fun segment : Segment => (segment.crossings_of_odd odd : ∃ found : List (Crossing Number), _)
  refine ⟨foundOn, each, fun segments => ?_⟩
  unfold crossingsAlong
  rw [exceptMapM_of_forall_mem fun element _ => each element]
  rfl

/-- A scan line halfway between integers has crossings, and redrawn segments have the same. -/
theorem crossingsAlong_perm {segments others : List Segment} (same : segments ~ others)
    {scan : Int} (odd : scan % 2 = 1) :
    ∃ found again : List (Crossing Number), crossingsAlong segments scan = .ok found ∧
      crossingsAlong others scan = .ok again ∧ found ~ again := by
  obtain ⟨foundOn, _, along⟩ : ∃ foundOn : Segment → List (Crossing Number), _ :=
    exists_crossingsOn odd
  exact ⟨_, _, along segments, along others, (same.map foundOn).flatten⟩

namespace Strip

theorem make_eq_ok_iff {segments : List Segment} {gridSize index : Nat} {origin : Int}
    {strip : Strip Number} : make segments gridSize origin index = .ok strip ↔
      strip.start = origin + (index * gridSize : Nat) ∧
        crossingsAlong segments (2 * strip.center gridSize + 1) = .ok strip.crossings := by
  obtain ⟨start, crossings⟩ := strip
  unfold make center
  dsimp only
  rw [exceptMap_eq_ok_iff]
  constructor
  · rintro ⟨found, along, same⟩
    cases same
    exact ⟨rfl, along⟩
  · rintro ⟨rfl, along⟩
    exact ⟨crossings, along, rfl⟩

theorem start_of_make {segments : List Segment} {gridSize index : Nat} {origin : Int}
    {strip : Strip Number} (made : make segments gridSize origin index = .ok strip) :
    strip.start = origin + (index * gridSize : Nat) :=
  (make_eq_ok_iff.mp made).1

/-- A total winding is a sum over the crossings beyond a coordinate. -/
theorem windingBeyond_eq (strip : Strip Number) (coordinate : Int) :
    strip.windingBeyond coordinate = ((strip.crossings.filter fun crossing =>
      Scalar.less (Scalar.ofInt coordinate) crossing.position).map (·.winding)).sum := by
  unfold windingBeyond
  rw [sum_eq_foldl, foldl_map, foldl_filter]

/-- Two strips at one place that are crossed alike, in whatever order. -/
structure Alike (first second : Strip Number) : Prop where
  start : first.start = second.start
  crossings : first.crossings ~ second.crossings

theorem make_alike {segments others : List Segment} (same : segments ~ others) (gridSize : Nat)
    (origin : Int) (index : Nat) :
    ∃ strip again : Strip Number, make segments gridSize origin index = .ok strip ∧
      make others gridSize origin index = .ok again ∧ strip.Alike again := by
  obtain ⟨found, again, crossings, crossingsAgain, alike⟩ :
      ∃ found again : List (Crossing Number), _ :=
    crossingsAlong_perm same (odd_scan (origin + (index * gridSize : Nat) + (gridSize / 2 : Nat)))
  exact ⟨⟨_, found⟩, ⟨_, again⟩, make_eq_ok_iff.mpr ⟨rfl, crossings⟩,
    make_eq_ok_iff.mpr ⟨rfl, crossingsAgain⟩, rfl, alike⟩

namespace Alike

variable {first second : Strip Number}

theorem windingBeyond (alike : first.Alike second) (coordinate : Int) :
    first.windingBeyond coordinate = second.windingBeyond coordinate := by
  rw [windingBeyond_eq, windingBeyond_eq]
  exact ((alike.crossings.filter _).map _).sum_eq

theorem crossesWindow (alike : first.Alike second) (start : Int) (gridSize : Nat) :
    first.crossesWindow start gridSize = second.crossesWindow start gridSize :=
  alike.crossings.any_eq

omit [Scalar Number] in
theorem center (alike : first.Alike second) (gridSize : Nat) :
    first.center gridSize = second.center gridSize :=
  congrArg (· + _) alike.start

/-- The cell where two strips meet is filled as where strips that are crossed alike meet. -/
theorem fills (alike : first.Alike second) {column other : Strip Number}
    (columns : column.Alike other) (gridSize : Nat) :
    Strip.fills gridSize first column = Strip.fills gridSize second other := by
  unfold Strip.fills
  rw [alike.windingBeyond, alike.crossesWindow, columns.crossesWindow, columns.center,
    columns.start, alike.start]

end Alike

end Strip

namespace Rasterizer

theorem strips_eq (rasterizer : Rasterizer) {segments : List Segment} {origin : Int}
    {strip : Nat → Strip Number}
    (made : ∀ index, Strip.make segments rasterizer.gridSize origin index = .ok (strip index))
    (count : Nat) :
    rasterizer.strips Number segments origin count = .ok ((range count).map strip) := by
  unfold strips
  rw [exceptMapM_of_forall_mem fun index _ => made index]
  rfl

theorem strips_alike (rasterizer : Rasterizer) {segments others : List Segment}
    (same : segments ~ others) (origin : Int) (count : Nat) :
    ∃ strips again, rasterizer.strips Number segments origin count = .ok strips ∧
      rasterizer.strips Number others origin count = .ok again ∧
      Forall₂ Strip.Alike strips again := by
  choose strip again made madeAgain alike using fun index =>
    (Strip.make_alike same rasterizer.gridSize origin index : ∃ strip again : Strip Number, _)
  refine ⟨(range count).map strip, (range count).map again, rasterizer.strips_eq made count,
    rasterizer.strips_eq madeAgain count, ?_⟩
  rw [forall₂_map_left_iff, forall₂_map_right_iff, forall₂_same]
  exact fun index _ => alike index

/-- Strips that are crossed alike fill the same cells. -/
theorem cells_alike {rows rowsAgain columns columnsAgain : List (Strip Number)}
    (rowsAlike : Forall₂ Strip.Alike rows rowsAgain)
    (columnsAlike : Forall₂ Strip.Alike columns columnsAgain) (gridSize : Nat) :
    (rows.flatMap fun row => columns.map (Strip.fills gridSize row)) =
      rowsAgain.flatMap fun row => columnsAgain.map (Strip.fills gridSize row) := by
  induction rowsAlike with
  | nil => rfl
  | @cons row other rows rowsAgain alike _ ih =>
      rw [flatMap_cons, flatMap_cons, ih]
      congr 1
      clear ih
      induction columnsAlike with
      | nil => rfl
      | cons columns _ ih => rw [map_cons, map_cons, alike.fills columns, ih]

theorem rasterizeIn_redrawn (rasterizer : Rasterizer) {first second : Glyph}
    (redrawn : first.Redrawn second) :
    rasterizer.rasterizeIn Number first = rasterizer.rasterizeIn Number second := by
  obtain ⟨segments, others, firstSegments, secondSegments, same⟩ := Segment.ofGlyph_perm redrawn
  unfold rasterizeIn
  rw [redrawn.metrics, firstSegments, secondSegments]
  by_cases negative : second.metrics.width < 0 ∨ second.metrics.height < 0
  · rw [if_pos negative, if_pos negative]
    rfl
  · rw [if_neg negative, if_neg negative]
    obtain ⟨columns, columnsAgain, columnsMade, columnsMadeAgain, columnsAlike⟩ :
        ∃ columns columnsAgain : List (Strip Number), _ :=
      rasterizer.strips_alike (same.map (·.transpose))
        second.metrics.minX.toInt (rasterizer.cellCount second.metrics.width.toNat)
    obtain ⟨rows, rowsAgain, rowsMade, rowsMadeAgain, rowsAlike⟩ :
        ∃ rows rowsAgain : List (Strip Number), _ :=
      rasterizer.strips_alike same second.metrics.minY.toInt
        (rasterizer.cellCount second.metrics.height.toNat)
    have cells := cells_alike rowsAlike columnsAlike rasterizer.gridSize
    simp only [bind, Except.bind, pure, Except.pure, columnsMade, columnsMadeAgain, rowsMade,
      rowsMadeAgain, cells]

/-- An outline has one mask, however it is drawn. -/
theorem rasterize_redrawn (rasterizer : Rasterizer) {first second : Glyph}
    (redrawn : first.Redrawn second) : rasterizer.rasterize first = rasterizer.rasterize second :=
  rasterizer.rasterizeIn_redrawn redrawn

/-- A loop of control points and a triangle, in the other order and from other points on. -/
theorem rasterize_redrawn_controlLoop :
    let loop : List Point := [⟨0, 0, false⟩, ⟨90, 0, false⟩, ⟨90, 90, false⟩, ⟨0, 90, false⟩]
    let triangle : List Point := [⟨20, 80, false⟩, ⟨20, 20, true⟩, ⟨80, 20, true⟩]
    let first : Glyph := ⟨⟨0, 0, 90, 90⟩, #[], [⟨loop⟩, ⟨triangle⟩]⟩
    let second : Glyph := ⟨⟨0, 0, 90, 90⟩, #[], [⟨triangle.rotate 1⟩, ⟨loop.rotate 3⟩]⟩
    first.Redrawn second ∧ first ≠ second ∧
      (Rasterizer.mk 10).rasterize first = (Rasterizer.mk 10).rasterize second := by
  intro loop triangle first second
  have redrawn : first.Redrawn second :=
    ⟨rfl, [⟨triangle⟩, ⟨loop⟩], .swap _ _ _, .cons ⟨1, rfl⟩ (.cons ⟨3, rfl⟩ .nil)⟩
  exact ⟨redrawn, by decide, rasterize_redrawn ⟨10⟩ redrawn⟩

end Rasterizer

end Raster

end OutlineFont
