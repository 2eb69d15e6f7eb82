import Mathlib.Data.List.Cycle
import Mathlib.Data.List.TakeWhile
import OutlineFont.Outline.Contour

/-!
# Contours as closed paths

The points of a contour form a cycle.  With the implied points put in, of two
successive points at least one is on the curve, the last point and the first
one included.  So there is an on-curve point to start from, and from each
on-curve point the contour can be drawn.  A different choice of the first point
only turns the cycle.
-/

namespace OutlineFont

open List

/-- A turned list is cut in two and put together in the other order. -/
theorem exists_append_of_isRotated {α : Type} {first second : List α} (turned : first ~r second) :
    ∃ front back, first = front ++ back ∧ second = back ++ front := by
  obtain ⟨count, within, rfl⟩ := isRotated_iff_mod.mp turned
  exact ⟨first.take count, first.drop count, (take_append_drop count first).symm,
    rotate_eq_drop_append_take within⟩

namespace Contour

/-- Of two neighbours, at least one is on the curve. -/
def Joined (point successor : Point) : Prop :=
  point.onCurve ∨ successor.onCurve

theorem implied_of_joined {point successor : Point} (joined : Joined point successor) :
    implied point successor = [] := by
  unfold implied
  rw [if_pos (Bool.or_eq_true_iff.mpr joined)]

theorem implied_of_not_joined {point successor : Point} (apart : ¬Joined point successor) :
    implied point successor = [point.midpoint successor] := by
  unfold implied
  rw [if_neg fun either => apart (Bool.or_eq_true_iff.mp either)]

theorem flattenToward_cons (last point : Point) (rest : List Point) :
    flattenToward last (point :: rest) =
      point :: (implied point (rest.headD last) ++ flattenToward last rest) := by
  cases rest with
  | nil => exact congrArg (point :: ·) (append_nil _).symm
  | cons successor rest => rfl

/-- The part of a path up to some point is flattened toward that point. -/
theorem flattenToward_append (last point : Point) (front back : List Point) :
    flattenToward last (front ++ point :: back) =
      flattenToward point front ++ flattenToward last (point :: back) := by
  induction front with
  | nil => rfl
  | cons first front ih =>
      have next : (front ++ point :: back).headD last = front.headD point := by cases front <;> rfl
      rw [cons_append, flattenToward_cons, flattenToward_cons, ih, next, cons_append, append_assoc]

theorem exists_points {contour : Contour} (drawn : 2 ≤ contour.size) :
    ∃ first successor rest, contour.points = first :: successor :: rest := by
  obtain ⟨points⟩ := contour
  match points, drawn with
  | [], drawn | [_], drawn =>
      unfold size at drawn
      contradiction
  | first :: successor :: rest, _ => exact ⟨first, successor, rest, rfl⟩

theorem flatten_of_points {contour : Contour} {first successor : Point} {rest : List Point}
    (points : contour.points = first :: successor :: rest) :
    contour.flatten = flattenToward first (first :: successor :: rest) := by
  unfold flatten
  rw [points]

/-- Turning the points of a contour turns its flattened points. -/
theorem flatten_isRotated {first second : Contour} (turned : first.points ~r second.points) :
    first.flatten ~r second.flatten := by
  obtain ⟨front, back, firstPoints, secondPoints⟩ := exists_append_of_isRotated turned
  cases first with | mk firstPath =>
  cases second with | mk secondPath =>
  subst firstPoints secondPoints
  cases front with
  | nil => rw [nil_append, append_nil]
  | cons point front =>
      cases back with
      | nil => rw [nil_append, append_nil]
      | cons other back =>
          have firstFlat : flatten ⟨point :: front ++ other :: back⟩ =
              flattenToward point (point :: front ++ other :: back) := by
            cases front <;> rfl
          have secondFlat : flatten ⟨other :: back ++ point :: front⟩ =
              flattenToward other (other :: back ++ point :: front) := by
            cases back <;> rfl
          rw [firstFlat, secondFlat, flattenToward_append, flattenToward_append]
          exact isRotated_append

/-- No two control points follow each other on a flattened path, up to the point it leads to. -/
theorem isChain_flattenToward (last : Point) (points : List Point) :
    IsChain Joined (flattenToward last points ++ [last]) := by
  induction points with
  | nil => exact isChain_singleton last
  | cons point rest ih =>
      rw [flattenToward_cons, cons_append, append_assoc]
      obtain ⟨remaining, path⟩ : ∃ remaining,
          flattenToward last rest ++ [last] = rest.headD last :: remaining := by
        cases rest with
        | nil => exact ⟨[], rfl⟩
        | cons successor rest => exact ⟨_, by rw [flattenToward_cons]; rfl⟩
      rw [path] at ih ⊢
      by_cases joined : Joined point (rest.headD last)
      · rw [implied_of_joined joined]
        exact .cons_cons joined ih
      · rw [implied_of_not_joined joined]
        exact .cons_cons (.inr rfl) (.cons_cons (.inl rfl) ih)

/-- Around a flattened contour, no two control points follow each other. -/
theorem chain_flatten {contour : Contour} (drawn : 2 ≤ contour.size) :
    Cycle.Chain Joined contour.flatten := by
  obtain ⟨first, successor, rest, points⟩ := exists_points drawn
  have path := isChain_flattenToward first (first :: successor :: rest)
  rw [flatten_of_points points]
  rw [flattenToward_cons] at path ⊢
  exact (Cycle.chain_coe_cons Joined _ _).mpr path

/-- A flattened contour of two points or more has an on-curve point. -/
theorem exists_onCurve {contour : Contour} (drawn : 2 ≤ contour.size) :
    ∃ point ∈ contour.flatten, point.onCurve := by
  obtain ⟨first, successor, rest, points⟩ := exists_points drawn
  rw [flatten_of_points points, flattenToward_cons, flattenToward_cons]
  by_cases joined : Joined first successor
  · rcases joined with on | on
    · exact ⟨first, mem_cons_self, on⟩
    · refine ⟨successor, ?_, on⟩
      exact mem_cons_of_mem _ (mem_append_right _ mem_cons_self)
  · refine ⟨first.midpoint successor, ?_, rfl⟩
    rw [headD_cons, implied_of_not_joined joined]
    exact mem_cons_of_mem _ mem_cons_self

/-! ### Drawing -/

/-- Points behind an on-curve point, and the steps that draw through them to the last one. -/
inductive Drawn : List Point → List PathOperation → Prop where
  | finish : Drawn [] []
  | line {point : Point} {rest : List Point} {steps : List PathOperation}
      (on : point.onCurve) (further : Drawn rest steps) :
      Drawn (point :: rest) (.lineTo point.position :: steps)
  | curve {control target : Point} {rest : List Point} {steps : List PathOperation}
      (off : control.onCurve = false) (on : target.onCurve) (further : Drawn rest steps) :
      Drawn (control :: target :: rest) (.curveTo control.position target.position :: steps)

namespace Drawn

theorem operationsThrough_eq {points : List Point} {steps : List PathOperation}
    (drawn : Drawn points steps) : operationsThrough points = .ok steps := by
  induction drawn with
  | finish => rfl
  | @line point rest steps on further ih =>
      cases rest with
      | nil =>
          cases further
          rw [operationsThrough, if_pos on]
      | cons successor rest =>
          rw [operationsThrough, if_pos on, ih]
          rfl
  | curve off on further ih =>
      rw [operationsThrough, if_neg (by rw [off]; exact Bool.false_ne_true), if_pos on, ih]
      rfl

/-- A path without two control points in a row can be drawn to its on-curve end. -/
theorem exists_of_isChain {stop : Point} (on : stop.onCurve) :
    (points : List Point) → IsChain Joined (points ++ [stop]) →
      ∃ steps, Drawn (points ++ [stop]) steps
  | [], _ => ⟨_, .line on .finish⟩
  | [point], path => by
      by_cases here : point.onCurve
      · exact ⟨_, .line here (.line on .finish)⟩
      · exact ⟨_, .curve (Bool.eq_false_of_not_eq_true here) on .finish⟩
  | point :: successor :: rest, path => by
      obtain ⟨joined, path⟩ := isChain_cons_cons.mp path
      by_cases here : point.onCurve
      · obtain ⟨steps, further⟩ := exists_of_isChain on (successor :: rest) path
        exact ⟨_, .line here further⟩
      · obtain ⟨steps, further⟩ := exists_of_isChain on rest path.tail
        exact ⟨_, .curve (Bool.eq_false_of_not_eq_true here) (joined.resolve_left here) further⟩

end Drawn

/--
A contour of two points or more is drawn around its flattened points, from one
that lies on the curve back to it.
-/
theorem operations_around {contour : Contour} (drawn : 2 ≤ contour.size) :
    ∃ start rest steps, start.onCurve ∧ start :: rest ~r contour.flatten ∧
      Drawn (rest ++ [start]) steps ∧
      contour.operations = .ok (.moveTo start.position :: steps) := by
  have cut := takeWhile_append_dropWhile (p := (!·.onCurve)) (l := contour.flatten)
  cases from_ : contour.flatten.dropWhile (!·.onCurve) with
  | nil =>
      obtain ⟨point, member, on⟩ := exists_onCurve drawn
      have off := dropWhile_eq_nil_iff.mp from_ point member
      rw [on] at off
      contradiction
  | cons start rest =>
      have on : start.onCurve := by
        have stopped := head_dropWhile_not (!·.onCurve) (l := contour.flatten)
          (by rw [from_]; exact cons_ne_nil _ _)
        simpa only [from_, head_cons, Bool.not_eq_false'] using stopped
      have turned : start :: (rest ++ contour.flatten.takeWhile (!·.onCurve)) ~r
          contour.flatten := by
        rw [from_] at cut
        nth_rewrite 2 [← cut]
        exact isRotated_append (l := start :: rest)
      have around := chain_flatten drawn
      rw [← Cycle.coe_eq_coe.mpr turned, Cycle.chain_coe_cons] at around
      obtain ⟨steps, path⟩ := Drawn.exists_of_isChain on _ around.tail
      refine ⟨start, _, steps, on, turned, path, ?_⟩
      unfold operations
      rw [if_neg (Nat.not_lt.mpr drawn)]
      dsimp only
      rw [from_]
      dsimp only
      rw [path.operationsThrough_eq]

end Contour

end OutlineFont
