import Mathlib.Algebra.Order.Ring.Abs
import OutlineFont.Outline.Component
import OutlineFont.Proofs.Flattening

/-!
# Implied points of moved contours

The middle of two coordinates is rounded toward zero, so it depends on where zero
is.  A contour that is moved keeps its implied points if no odd sum of two
coordinates changes its sign on the way, and only then; otherwise the points that
are implied anew differ by one unit.  The stored points are moved exactly.
-/

namespace OutlineFont

open List

namespace Point

/-! ### Middles of coordinates -/

/-- Whether half a sum, rounded toward zero, moves as far as its two terms do. -/
def SteadyHalf (distance sum : Int) : Prop :=
  sum % 2 = 0 ∨ (0 < sum ↔ 0 < sum + 2 * distance)

instance (distance sum : Int) : Decidable (SteadyHalf distance sum) :=
  inferInstanceAs (Decidable (_ ∨ _))

theorem tdiv_two_eq_iff (distance sum : Int) :
    (sum + 2 * distance).tdiv 2 = sum.tdiv 2 + distance ↔ SteadyHalf distance sum := by
  unfold SteadyHalf
  rw [Int.tdiv_eq_ediv, Int.tdiv_eq_ediv, show (2 : Int).sign = 1 from rfl]
  split_ifs <;> omega

/-- Half a moved sum is at most one unit away from where half the sum is moved to. -/
theorem abs_tdiv_two_sub_le (distance sum : Int) :
    |(sum + 2 * distance).tdiv 2 - (sum.tdiv 2 + distance)| ≤ 1 := by
  rw [Int.tdiv_eq_ediv, Int.tdiv_eq_ediv, show (2 : Int).sign = 1 from rfl, abs_le]
  split_ifs <;> omega

/-- A coordinate that an offset takes to another one that can be stored. -/
def CanMove (distance coordinate : Int16) : Prop :=
  -32768 ≤ coordinate.toInt + distance.toInt ∧ coordinate.toInt + distance.toInt ≤ 32767

instance (distance coordinate : Int16) : Decidable (CanMove distance coordinate) :=
  inferInstanceAs (Decidable (_ ∧ _))

section

variable {distance first second : Int16}

theorem toInt_add_of_canMove (fits : CanMove distance first) :
    (first + distance).toInt = first.toInt + distance.toInt := by
  obtain ⟨low, high⟩ := fits
  rw [Int16.toInt_add]
  exact Int.bmod_eq_of_le (by omega) (by omega)

/-- The middle of two coordinates can be moved wherever they can. -/
theorem canMove_middle (fits : CanMove distance first) (fits' : CanMove distance second) :
    CanMove distance (middle first second) := by
  obtain ⟨low, high⟩ := middle_between first second
  unfold CanMove at fits fits' ⊢
  omega

theorem toInt_middle_add (fits : CanMove distance first) (fits' : CanMove distance second) :
    (middle (first + distance) (second + distance)).toInt =
      (first.toInt + second.toInt + 2 * distance.toInt).tdiv 2 := by
  rw [toInt_middle, toInt_add_of_canMove fits, toInt_add_of_canMove fits']
  congr 1
  omega

theorem middle_add_eq_iff (fits : CanMove distance first) (fits' : CanMove distance second) :
    middle (first + distance) (second + distance) = middle first second + distance ↔
      SteadyHalf distance.toInt (first.toInt + second.toInt) := by
  rw [← Int16.toInt_inj, toInt_middle_add fits fits',
    toInt_add_of_canMove (canMove_middle fits fits'), toInt_middle]
  exact tdiv_two_eq_iff _ _

theorem abs_middle_add_sub_le (fits : CanMove distance first) (fits' : CanMove distance second) :
    |(middle (first + distance) (second + distance)).toInt -
      ((middle first second).toInt + distance.toInt)| ≤ 1 := by
  rw [toInt_middle_add fits fits', toInt_middle]
  exact abs_tdiv_two_sub_le _ _

end

/-! ### Implied points -/

/-- A point that an offset takes to another one that can be stored. -/
def Movable (dx dy : Int16) (point : Point) : Prop :=
  CanMove dx point.x ∧ CanMove dy point.y

instance (dx dy : Int16) (point : Point) : Decidable (Movable dx dy point) :=
  inferInstanceAs (Decidable (_ ∧ _))

/-- If two points imply one between them, an offset moves it as far as them. -/
def Steady (dx dy : Int16) (point successor : Point) : Prop :=
  point.onCurve = false → successor.onCurve = false →
    SteadyHalf dx.toInt (point.x.toInt + successor.x.toInt) ∧
      SteadyHalf dy.toInt (point.y.toInt + successor.y.toInt)

instance (dx dy : Int16) (point successor : Point) : Decidable (Steady dx dy point successor) :=
  inferInstanceAs (Decidable (_ → _ → _ ∧ _))

/--
Two points on the curve, the second at most one unit away, on each axis, from
where an offset takes the first.
-/
structure Near (dx dy : Int16) (before after : Point) : Prop where
  onCurve : before.onCurve ∧ after.onCurve
  across : |after.x.toInt - (before.x.toInt + dx.toInt)| ≤ 1
  upward : |after.y.toInt - (before.y.toInt + dy.toInt)| ≤ 1

variable {dx dy : Int16} {point successor : Point}

theorem steady_self (dx dy : Int16) (point : Point) : Steady dx dy point point :=
  fun _ _ => ⟨.inl (by omega), .inl (by omega)⟩

theorem midpoint_translate_eq_iff (movable : point.Movable dx dy)
    (movable' : successor.Movable dx dy) :
    (point.translate dx dy).midpoint (successor.translate dx dy) =
        (point.midpoint successor).translate dx dy ↔
      SteadyHalf dx.toInt (point.x.toInt + successor.x.toInt) ∧
        SteadyHalf dy.toInt (point.y.toInt + successor.y.toInt) := by
  rw [← middle_add_eq_iff movable.1 movable'.1, ← middle_add_eq_iff movable.2 movable'.2]
  simp only [midpoint, translate, mk.injEq, and_true]

theorem midpoint_near (movable : point.Movable dx dy) (movable' : successor.Movable dx dy) :
    Near dx dy (point.midpoint successor)
      ((point.translate dx dy).midpoint (successor.translate dx dy)) where
  onCurve := ⟨rfl, rfl⟩
  across := abs_middle_add_sub_le movable.1 movable'.1
  upward := abs_middle_add_sub_le movable.2 movable'.2

end Point

namespace Contour

open Point (Movable Steady Near)

/-- A contour moved by an offset; coordinates wrap. -/
def translate (dx dy : Int16) (contour : Contour) : Contour :=
  ⟨contour.points.map (.translate dx dy)⟩

/-! ### Moved paths -/

section

variable {dx dy : Int16} {point successor last : Point} {points : List Point}

theorem implied_translate_eq_iff (movable : point.Movable dx dy)
    (movable' : successor.Movable dx dy) :
    implied (point.translate dx dy) (successor.translate dx dy) =
        (implied point successor).map (.translate dx dy) ↔ Steady dx dy point successor := by
  by_cases joined : Joined point successor
  · have joined' : Joined (point.translate dx dy) (successor.translate dx dy) := joined
    rw [implied_of_joined joined, implied_of_joined joined']
    refine iff_of_true rfl fun off off' => ?_
    rcases joined with on | on
    · cases off.symm.trans on
    · cases off'.symm.trans on
  · have apart : ¬Joined (point.translate dx dy) (successor.translate dx dy) := joined
    obtain ⟨off, off'⟩ := not_or.mp joined
    rw [implied_of_not_joined joined, implied_of_not_joined apart, map_singleton,
      singleton_inj, Point.midpoint_translate_eq_iff movable movable']
    exact ⟨fun steady _ _ => steady,
      fun steady => steady (Bool.not_eq_true _ ▸ off) (Bool.not_eq_true _ ▸ off')⟩

theorem forall₂_implied (movable : point.Movable dx dy) (movable' : successor.Movable dx dy) :
    Forall₂ (Near dx dy) (implied point successor)
      (implied (point.translate dx dy) (successor.translate dx dy)) := by
  by_cases joined : Joined point successor
  · have joined' : Joined (point.translate dx dy) (successor.translate dx dy) := joined
    rw [implied_of_joined joined, implied_of_joined joined']
    exact .nil
  · have apart : ¬Joined (point.translate dx dy) (successor.translate dx dy) := joined
    rw [implied_of_not_joined joined, implied_of_not_joined apart]
    exact .cons (Point.midpoint_near movable movable') .nil

theorem headD_map_translate (rest : List Point) :
    (rest.map (.translate dx dy)).headD (last.translate dx dy) =
      (rest.headD last).translate dx dy := by
  cases rest <;> rfl

/-- The points of a path and the one that follows it can be moved. -/
theorem movable_headD (movable : ∀ point ∈ points, point.Movable dx dy)
    (movable' : last.Movable dx dy) : (points.headD last).Movable dx dy := by
  cases points with
  | nil => exact movable'
  | cons point rest => exact movable point mem_cons_self

/-- A moved path keeps what it implies if each step of it does, and only then. -/
theorem flattenToward_translate_eq_iff (movable : ∀ point ∈ points, point.Movable dx dy)
    (movable' : last.Movable dx dy) :
    flattenToward (last.translate dx dy) (points.map (.translate dx dy)) =
        (flattenToward last points).map (.translate dx dy) ↔
      IsChain (Steady dx dy) (points ++ [last]) := by
  induction points with
  | nil => exact iff_of_true rfl (isChain_singleton last)
  | cons point rest ih =>
      obtain ⟨here, later⟩ := forall_mem_cons.mp movable
      have step := implied_translate_eq_iff here (movable_headD later movable')
      have length := (forall₂_implied here (movable_headD later movable')).length_eq
      have chain : IsChain (Steady dx dy) (point :: (rest ++ [last])) ↔
          Steady dx dy point (rest.headD last) ∧ IsChain (Steady dx dy) (rest ++ [last]) := by
        cases rest <;> exact isChain_cons_cons
      rw [map_cons, flattenToward_cons, flattenToward_cons, headD_map_translate, map_cons,
        map_append, cons_inj_right, cons_append, chain, ← step, ← ih later]
      constructor
      · exact fun same => append_inj same (by rw [length_map, length])
      · exact fun ⟨first, rest⟩ => by rw [first, rest]

theorem forall₂_gapsToward (movable : ∀ point ∈ points, point.Movable dx dy)
    (movable' : last.Movable dx dy) :
    Forall₂ (Forall₂ (Near dx dy)) (gapsToward last points)
      (gapsToward (last.translate dx dy) (points.map (.translate dx dy))) := by
  induction points with
  | nil => exact .nil
  | cons point rest ih =>
      obtain ⟨here, later⟩ := forall_mem_cons.mp movable
      rw [map_cons, gapsToward, gapsToward, headD_map_translate]
      exact .cons (forall₂_implied here (movable_headD later movable')) (ih later)

end

/-! ### Moved contours -/

/-- The points that are implied behind each point of a contour; a single point implies none. -/
def gaps (contour : Contour) : List (List Point) :=
  match contour.points with
  | [] => []
  | [_] => [[]]
  | first :: rest => gapsToward first (first :: rest)

theorem flatten_eq_gaps (contour : Contour) :
    contour.flatten = (zipWith cons contour.points contour.gaps).flatten := by
  obtain ⟨points⟩ := contour
  match points with
  | [] | [_] => rfl
  | first :: successor :: rest => exact flattenToward_eq_gaps first (first :: successor :: rest)

variable {dx dy : Int16} {contour : Contour}

/-- A moved contour keeps what it implies if each of its steps does, from the last point as well. -/
theorem flatten_translate_eq_iff (movable : ∀ point ∈ contour.points, point.Movable dx dy) :
    (contour.translate dx dy).flatten = contour.flatten.map (.translate dx dy) ↔
      Cycle.Chain (Steady dx dy) contour.points := by
  obtain ⟨points⟩ := contour
  match points with
  | [] => exact iff_of_true rfl (Cycle.Chain.nil _)
  | [point] =>
      exact iff_of_true rfl ((Cycle.chain_singleton _ point).mpr (Point.steady_self dx dy point))
  | first :: successor :: rest =>
      rw [Cycle.chain_coe_cons]
      exact flattenToward_translate_eq_iff movable (movable first mem_cons_self)

theorem forall₂_gaps (movable : ∀ point ∈ contour.points, point.Movable dx dy) :
    Forall₂ (Forall₂ (Near dx dy)) contour.gaps (contour.translate dx dy).gaps := by
  obtain ⟨points⟩ := contour
  match points with
  | [] => exact .nil
  | [point] => exact .cons .nil .nil
  | first :: successor :: rest =>
      exact forall₂_gapsToward movable (movable first mem_cons_self)

/-- A component that is only placed, and not transformed, is made of moved contours. -/
theorem placeAll_eq_translate {component : Component} (plain : component.matrix = none)
    (glyph : Glyph) : component.placeAll glyph =
      glyph.contours.map (translate component.dx component.dy) := by
  have place : component.place = .translate component.dx component.dy := by
    funext point
    rw [Component.place, plain]
    rfl
  unfold Component.placeAll
  rw [place]
  rfl

/--
Moving a contour by an offset, as placing a component does, commutes with
flattening exactly if the offset takes no odd sum of coordinates of two control
points that follow each other to the other side of zero, the last and the first
point included.  In any case the stored points are moved exactly, and as many
points are implied behind each of them as before, each of them at most one unit
away from where the earlier one would be moved to.
-/
theorem flatten_translate_iff (movable : ∀ point ∈ contour.points, point.Movable dx dy) :
    let moved := contour.translate dx dy
    (moved.flatten = contour.flatten.map (.translate dx dy) ↔
      Cycle.Chain (Steady dx dy) contour.points) ∧
    contour.flatten = (zipWith cons contour.points contour.gaps).flatten ∧
    moved.flatten = (zipWith cons (contour.points.map (.translate dx dy)) moved.gaps).flatten ∧
    (∀ point ∈ contour.points, (point.translate dx dy).position =
      ⟨point.x.toInt + dx.toInt, point.y.toInt + dy.toInt⟩) ∧
    Forall₂ (Forall₂ (Near dx dy)) contour.gaps moved.gaps ∧
    ∀ (component : Component) (glyph : Glyph), component.matrix = none →
      component.dx = dx → component.dy = dy →
        component.placeAll glyph = glyph.contours.map (translate dx dy) := by
  intro moved
  refine ⟨flatten_translate_eq_iff movable, contour.flatten_eq_gaps, moved.flatten_eq_gaps,
    fun point listed => ?_, forall₂_gaps movable, fun component glyph plain across upward => ?_⟩
  · obtain ⟨x, y⟩ := movable point listed
    rw [Point.position, Point.translate, Point.toInt_add_of_canMove x, Point.toInt_add_of_canMove y]
  · rw [placeAll_eq_translate plain, across, upward]

/-- The seam of this contour has odd sums, none of which changes its sign. -/
theorem flatten_translate_iff_seam :
    let contour : Contour := ⟨[⟨-3, 4, false⟩, ⟨5, 6, true⟩, ⟨-2, 1, false⟩]⟩
    (∀ point ∈ contour.points, point.Movable (-1) 2) ∧
      (contour.translate (-1) 2).flatten = contour.flatten.map (.translate (-1) 2) ∧
      (contour.translate (-1) 2).flatten =
        [⟨-4, 6, false⟩, ⟨4, 8, true⟩, ⟨-3, 3, false⟩, ⟨-3, 4, true⟩] := by
  intro contour
  have movable : ∀ point ∈ contour.points, point.Movable (-1) 2 := by decide
  have steady : Cycle.Chain (Steady (-1) 2) contour.points :=
    (Cycle.chain_coe_cons _ _ _).mpr (by decide)
  exact ⟨movable, (flatten_translate_iff movable).1.mpr steady, by decide⟩

/-- Two control points imply the origin on either side of it, and not a point beside it. -/
theorem flatten_translate_acrossOrigin :
    let pair : Contour := ⟨[⟨0, 0, false⟩, ⟨1, 0, false⟩]⟩
    (∀ point ∈ pair.points, point.Movable (-1) 0) ∧
      (pair.translate (-1) 0).flatten =
        [⟨-1, 0, false⟩, ⟨0, 0, true⟩, ⟨0, 0, false⟩, ⟨0, 0, true⟩] ∧
      pair.flatten.map (Point.translate (-1) 0) =
        [⟨-1, 0, false⟩, ⟨-1, 0, true⟩, ⟨0, 0, false⟩, ⟨-1, 0, true⟩] ∧
      (pair.translate (-1) 0).flatten ≠ pair.flatten.map (Point.translate (-1) 0) := by
  decide

end Contour

end OutlineFont
