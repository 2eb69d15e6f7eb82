import OutlineFont.Proofs.Flattening

/-!
# Drawing a contour

A contour is drawn from one of its on-curve points around to that point again.
On the way every point is passed once and in order: a point on the curve ends a
step, and a point off the curve is the control point of one.
-/

namespace OutlineFont

open List

namespace PathOperation

/-- Where a step ends. -/
def target : PathOperation → Position
  | .moveTo target | .lineTo target | .curveTo _ target => target

def control? : PathOperation → Option Position
  | .curveTo control _ => some control
  | .moveTo _ | .lineTo _ => none

def isCurve (step : PathOperation) : Bool :=
  step.control?.isSome

/-- Whether a step draws anything. -/
def isStroke : PathOperation → Bool
  | .lineTo _ | .curveTo _ _ => true
  | .moveTo _ => false

/-- The places that a step passes, each with whether it lies on the curve. -/
def passed (step : PathOperation) : List (Position × Bool) :=
  step.control?.toList.map (·, false) ++ [(step.target, true)]

end PathOperation

/-- The place of a point with whether it lies on the curve. -/
def Point.passed (point : Point) : Position × Bool :=
  (point.position, point.onCurve)

namespace Contour

namespace Drawn

variable {points : List Point} {steps : List PathOperation}

theorem isStroke (drawn : Drawn points steps) : ∀ step ∈ steps, step.isStroke := by
  induction drawn with
  | finish => exact forall_mem_nil _
  | line _ _ ih => exact forall_mem_cons.mpr ⟨rfl, ih⟩
  | curve _ _ _ ih => exact forall_mem_cons.mpr ⟨rfl, ih⟩

theorem passed (drawn : Drawn points steps) :
    steps.flatMap (·.passed) = points.map (·.passed) := by
  induction drawn with
  | finish => rfl
  | line on _ ih =>
      rw [flatMap_cons, map_cons, ih, Point.passed, on]
      rfl
  | curve off on _ ih =>
      rw [flatMap_cons, map_cons, map_cons, ih, Point.passed, Point.passed, off, on]
      rfl

theorem targets (drawn : Drawn points steps) :
    steps.map (·.target) = (points.filter (·.onCurve)).map (·.position) := by
  induction drawn with
  | finish => rfl
  | line on _ ih =>
      rw [filter_cons_of_pos on, map_cons, map_cons, ih]
      rfl
  | curve off on _ ih =>
      rw [filter_cons_of_neg (by rw [off]; exact Bool.false_ne_true), filter_cons_of_pos on,
        map_cons, map_cons, ih]
      rfl

theorem controls (drawn : Drawn points steps) :
    steps.filterMap (·.control?) = (points.filter (!·.onCurve)).map (·.position) := by
  induction drawn with
  | finish => rfl
  | line on _ ih =>
      rw [filter_cons_of_neg (by rw [on]; exact Bool.false_ne_true), filterMap_cons_none rfl, ih]
  | curve off on _ ih =>
      rw [filter_cons_of_pos (by rw [off]; rfl),
        filter_cons_of_neg (by rw [on]; exact Bool.false_ne_true), filterMap_cons, ih]
      rfl

theorem getLast?_target {front : List Point} {stop : Point} (on : stop.onCurve)
    (drawn : Drawn (front ++ [stop]) steps) :
    steps.getLast?.map (·.target) = some stop.position := by
  rw [← getLast?_map, drawn.targets, filter_append, filter_cons_of_pos on, map_append]
  exact getLast?_concat

end Drawn

/-- Putting points in adds none that lies off the curve. -/
theorem filter_flattenToward (last : Point) (points : List Point) :
    (flattenToward last points).filter (!·.onCurve) = points.filter (!·.onCurve) := by
  induction points with
  | nil => rfl
  | cons point rest ih =>
      have gap : (implied point (rest.headD last)).filter (!·.onCurve) = [] := by
        refine filter_eq_nil_iff.mpr fun inserted among => ?_
        obtain ⟨-, -, rfl⟩ := mem_implied_iff.mp among
        exact Bool.false_ne_true
      simp only [flattenToward_cons, filter_cons, filter_append, gap, ih, nil_append]

theorem filter_flatten {contour : Contour} (drawn : 2 ≤ contour.size) :
    contour.flatten.filter (!·.onCurve) = contour.points.filter (!·.onCurve) := by
  obtain ⟨first, successor, rest, points⟩ := exists_points drawn
  rw [flatten_of_points points, points, filter_flattenToward]

/--
Steps that draw a contour from an on-curve point around to that point again,
past each of the other points once and in order.
-/
structure DrawnFrom (contour : Contour) (start : Point) (others : List Point)
    (steps : List PathOperation) : Prop where
  onCurve : start.onCurve
  around : start :: others ~r contour.flatten
  strokes : ∀ step ∈ steps, step.isStroke
  passed : steps.flatMap (·.passed) = (others ++ [start]).map (·.passed)
  targets : steps.map (·.target) =
    ((others ++ [start]).filter (·.onCurve)).map (·.position)
  controls : steps.filterMap (·.control?) =
    ((others ++ [start]).filter (!·.onCurve)).map (·.position)
  closed : steps.getLast?.map (·.target) = some start.position

namespace DrawnFrom

variable {contour : Contour} {start : Point} {others : List Point} {steps : List PathOperation}

theorem perm (drawnFrom : contour.DrawnFrom start others steps) :
    others ++ [start] ~ contour.flatten :=
  (perm_append_singleton start others).trans drawnFrom.around.perm

theorem countP_isCurve (drawnFrom : contour.DrawnFrom start others steps)
    (drawn : 2 ≤ contour.size) :
    steps.countP (·.isCurve) = contour.points.countP (!·.onCurve) := by
  unfold PathOperation.isCurve
  rw [← length_filterMap_eq_countP, drawnFrom.controls, length_map,
    (drawnFrom.perm.filter _).length_eq, filter_flatten drawn, countP_eq_length_filter]

theorem length_eq (drawnFrom : contour.DrawnFrom start others steps) :
    steps.length = contour.flatten.countP (·.onCurve) := by
  have counted := congrArg length drawnFrom.targets
  rwa [length_map, length_map, (drawnFrom.perm.filter _).length_eq,
    ← countP_eq_length_filter] at counted

end DrawnFrom

/--
Every contour can be drawn.  One of fewer than two points has no steps.  Any
other is drawn from an on-curve point around to it, with one curve for each of
its control points and one step for each point on the curve, beside the move to
the first of them.
-/
theorem operations_drawnFrom (contour : Contour) :
    (contour.size < 2 → contour.operations = .ok []) ∧
    (2 ≤ contour.size → ∃ start others steps,
      contour.operations = .ok (.moveTo start.position :: steps) ∧
      contour.DrawnFrom start others steps ∧
      steps.countP (·.isCurve) = contour.points.countP (!·.onCurve) ∧
      (PathOperation.moveTo start.position :: steps).length =
        1 + contour.flatten.countP (·.onCurve)) := by
  constructor
  · intro few
    unfold operations
    rw [if_pos few]
  · intro drawn
    obtain ⟨start, others, steps, on, around, path, operations⟩ := operations_around drawn
    have drawnFrom : contour.DrawnFrom start others steps :=
      ⟨on, around, path.isStroke, path.passed, path.targets, path.controls,
        path.getLast?_target on⟩
    refine ⟨start, others, steps, operations, drawnFrom, drawnFrom.countP_isCurve drawn, ?_⟩
    rw [length_cons, drawnFrom.length_eq, Nat.add_comm]

/-- Around three control points go three curves, from the middle of the first two. -/
theorem operations_drawnFrom_controlLoop :
    let loop : Contour := ⟨[⟨0, 0, false⟩, ⟨-5, 0, false⟩, ⟨4, 7, false⟩]⟩
    2 ≤ loop.size ∧ ∃ start others steps,
      loop.operations = .ok (.moveTo ⟨-2, 0⟩ :: steps) ∧ loop.DrawnFrom start others steps ∧
      steps.countP (·.isCurve) = 3 := by
  intro loop
  have drawn : 2 ≤ loop.size := by decide
  obtain ⟨start, others, steps, operations, drawnFrom, curves, -⟩ :=
    loop.operations_drawnFrom.2 drawn
  have first : loop.operations = .ok [.moveTo ⟨-2, 0⟩, .curveTo ⟨-5, 0⟩ ⟨0, 3⟩,
      .curveTo ⟨4, 7⟩ ⟨2, 3⟩, .curveTo ⟨0, 0⟩ ⟨-2, 0⟩] := by decide
  obtain ⟨move, -⟩ := cons_eq_cons.mp (Except.ok.inj (operations.symm.trans first))
  rw [move] at operations
  exact ⟨drawn, start, others, steps, operations, drawnFrom, curves.trans (by decide)⟩

end Contour

end OutlineFont
