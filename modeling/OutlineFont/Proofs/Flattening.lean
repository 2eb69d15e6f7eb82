import OutlineFont.Proofs.ClosedPath

/-!
# Implied points

The points of a contour stay in order when the implied ones are put in.  Behind
each of them comes at most one more, which lies on the curve halfway to the
next, and only if neither of the two does.  After that no points are implied
any more.
-/

namespace OutlineFont

open List

namespace Point

/-- A point on the curve that is not beyond either of two others. -/
structure Between (inserted first second : Point) : Prop where
  onCurve : inserted.onCurve
  left : min first.x.toInt second.x.toInt ≤ inserted.x.toInt
  right : inserted.x.toInt ≤ max first.x.toInt second.x.toInt
  low : min first.y.toInt second.y.toInt ≤ inserted.y.toInt
  high : inserted.y.toInt ≤ max first.y.toInt second.y.toInt

/-- Half a sum lies between its terms, also when it is rounded toward zero. -/
theorem half_between (first second : Int) :
    min first second ≤ (first + second).tdiv 2 ∧ (first + second).tdiv 2 ≤ max first second := by
  rw [Int.tdiv_eq_ediv, show (2 : Int).sign = 1 from rfl]
  split_ifs <;> omega

/-- The middle of two coordinates is a coordinate. -/
theorem toInt_middle (first second : Int16) :
    (middle first second).toInt = (first.toInt + second.toInt).tdiv 2 := by
  have firstLow : -32768 ≤ first.toInt := first.minValue_le_toInt
  have firstHigh : first.toInt ≤ 32767 := first.toInt_le
  have secondLow : -32768 ≤ second.toInt := second.minValue_le_toInt
  have secondHigh : second.toInt ≤ 32767 := second.toInt_le
  obtain ⟨low, high⟩ := half_between first.toInt second.toInt
  rw [middle, Int16.toInt_ofInt_of_le (by omega) (by omega)]

theorem middle_between (first second : Int16) :
    min first.toInt second.toInt ≤ (middle first second).toInt ∧
      (middle first second).toInt ≤ max first.toInt second.toInt := by
  rw [toInt_middle]
  exact half_between first.toInt second.toInt

theorem midpoint_between (first second : Point) : (first.midpoint second).Between first second where
  onCurve := rfl
  left := (middle_between first.x second.x).1
  right := (middle_between first.x second.x).2
  low := (middle_between first.y second.y).1
  high := (middle_between first.y second.y).2

end Point

namespace Contour

/-- The points that are implied behind each point of a path; `last` follows the final one. -/
def gapsToward (last : Point) : List Point → List (List Point)
  | [] => []
  | point :: rest => implied point (rest.headD last) :: gapsToward last rest

theorem length_gapsToward (last : Point) (points : List Point) :
    (gapsToward last points).length = points.length := by
  induction points with
  | nil => rfl
  | cons point rest ih => rw [gapsToward, length_cons, length_cons, ih]

theorem flattenToward_eq_gaps (last : Point) (points : List Point) :
    flattenToward last points = (zipWith cons points (gapsToward last points)).flatten := by
  induction points with
  | nil => rfl
  | cons point rest ih =>
      rw [flattenToward_cons, gapsToward, zipWith_cons_cons, flatten_cons, ih, cons_append]

theorem getElem?_gapsToward {last : Point} {points gap : List Point} {index : Nat}
    (found : (gapsToward last points)[index]? = some gap) :
    ∃ point successor, points[index]? = some point ∧
      (points ++ [last])[index + 1]? = some successor ∧ gap = implied point successor := by
  induction points generalizing index with
  | nil => cases found
  | cons point rest ih =>
      cases index with
      | zero =>
          cases found
          refine ⟨point, rest.headD last, rfl, ?_, rfl⟩
          cases rest <;> rfl
      | succ index => exact ih found

/-- Behind the last point of a contour comes the first one. -/
theorem getElem?_append_singleton_head {points rest : List Point} {first point : Point}
    {index : Nat} (path : first :: rest = points) (here : points[index]? = some point) :
    (points ++ [first])[index + 1]? = points[(index + 1) % points.length]? := by
  obtain ⟨inside, -⟩ := List.getElem?_eq_some_iff.mp here
  rcases Nat.lt_or_ge (index + 1) points.length with further | last
  · rw [Nat.mod_eq_of_lt further, getElem?_append_left further]
  · obtain last : index + 1 = points.length := by omega
    rw [last, Nat.mod_self, getElem?_concat_length, ← path]
    rfl

theorem mem_implied_iff {point successor inserted : Point} :
    inserted ∈ implied point successor ↔
      point.onCurve = false ∧ successor.onCurve = false ∧ inserted = point.midpoint successor := by
  unfold implied
  cases point.onCurve <;> cases successor.onCurve <;> simp

/--
What is put in behind the points of a contour: points on the curve, each of
them between a control point and the control point that follows it around the
contour.
-/
structure Fills (contour : Contour) (gaps : List (List Point)) : Prop where
  length : gaps.length = contour.size
  between : ∀ index gap, gaps[index]? = some gap → ∀ inserted ∈ gap,
    ∃ point successor, contour.points[index]? = some point ∧
      contour.points[(index + 1) % contour.size]? = some successor ∧
      point.onCurve = false ∧ successor.onCurve = false ∧
      inserted = point.midpoint successor ∧ inserted.Between point successor

theorem exists_fills (contour : Contour) :
    ∃ gaps, contour.Fills gaps ∧ contour.flatten = (zipWith cons contour.points gaps).flatten := by
  obtain ⟨points⟩ := contour
  match points with
  | [] => exact ⟨[], ⟨rfl, fun _ _ none => nomatch none⟩, rfl⟩
  | [point] =>
      refine ⟨[[]], ⟨rfl, fun index gap found inserted among => ?_⟩, rfl⟩
      obtain rfl := mem_singleton.mp (mem_of_getElem? found)
      cases among
  | first :: successor :: rest =>
      generalize path : first :: successor :: rest = points
      refine ⟨gapsToward first points, ⟨length_gapsToward first points, ?_⟩, ?_⟩
      · intro index gap found inserted among
        obtain ⟨point, next, here, follows, rfl⟩ := getElem?_gapsToward found
        obtain ⟨off, nextOff, rfl⟩ := mem_implied_iff.mp among
        rw [getElem?_append_singleton_head path here] at follows
        exact ⟨point, next, here, follows, off, nextOff, rfl, point.midpoint_between next⟩
      · rw [← flattenToward_eq_gaps, ← path]
        rfl

/-- A path on which no point is implied is flat. -/
theorem flattenToward_of_isChain {last : Point} {points : List Point}
    (path : IsChain Joined (points ++ [last])) : flattenToward last points = points := by
  induction points with
  | nil => rfl
  | cons point rest ih =>
      have next : Joined point (rest.headD last) := by
        cases rest with
        | nil => exact (isChain_cons_cons.mp path).1
        | cons successor rest => exact (isChain_cons_cons.mp path).1
      rw [flattenToward_cons, implied_of_joined next, ih path.tail, nil_append]

/-- Points put in behind others leave those in order. -/
theorem sublist_zipWith_cons {points : List Point} {gaps : List (List Point)}
    (length : gaps.length = points.length) : points <+ (zipWith cons points gaps).flatten := by
  induction points generalizing gaps with
  | nil => exact nil_sublist _
  | cons point rest ih =>
      cases gaps with
      | nil => cases length
      | cons gap gaps =>
          rw [zipWith_cons_cons, flatten_cons, cons_append]
          exact .cons_cons point ((ih (Nat.succ.inj length)).trans (sublist_append_right gap _))

theorem sublist_flattenToward (last : Point) (points : List Point) :
    points <+ flattenToward last points := by
  rw [flattenToward_eq_gaps]
  exact sublist_zipWith_cons (length_gapsToward last points)

/-- What is flattened is flat: flattening it again puts nothing in. -/
theorem flatten_flatten (contour : Contour) : flatten ⟨contour.flatten⟩ = contour.flatten := by
  obtain ⟨points⟩ := contour
  match points with
  | [] => rfl
  | [point] => rfl
  | first :: successor :: rest =>
      have path := isChain_flattenToward first (first :: successor :: rest)
      have long : 2 ≤ (Contour.mk (flattenToward first (first :: successor :: rest))).size := by
        have kept := (sublist_flattenToward first (first :: successor :: rest)).length_le
        exact (Nat.le_add_left 2 rest.length).trans kept
      obtain ⟨head, next, more, flat⟩ := exists_points long
      rw [flatten_of_points rfl]
      have same := flat
      rw [flattenToward_cons] at same
      obtain rfl := (cons_eq_cons.mp same).1
      rw [flatten_of_points flat, ← flat]
      exact flattenToward_of_isChain path

/--
Flattening keeps the points of a contour in order and puts in points on the
curve, each between two control points that follow each other around the
contour.  If there are two points or more, some point then lies on the curve,
and no two control points follow each other, the last and the first included.
Flattening again changes nothing.
-/
theorem flatten_refines (contour : Contour) :
    contour.points <+ contour.flatten ∧
    (∃ gaps, contour.Fills gaps ∧
      contour.flatten = (zipWith cons contour.points gaps).flatten) ∧
    (2 ≤ contour.size → (∃ point ∈ contour.flatten, point.onCurve) ∧
      Cycle.Chain Joined contour.flatten) ∧
    flatten ⟨contour.flatten⟩ = contour.flatten := by
  obtain ⟨gaps, fills, flat⟩ := contour.exists_fills
  refine ⟨?_, ⟨gaps, fills, flat⟩, ?_, contour.flatten_flatten⟩
  · rw [flat]
    exact sublist_zipWith_cons fills.length
  · exact fun drawn => ⟨exists_onCurve drawn, chain_flatten drawn⟩

/-- Of two control points, each one follows the other, and so a point is put in twice. -/
theorem flatten_refines_controlPair :
    let pair : Contour := ⟨[⟨-3, 0, false⟩, ⟨0, 5, false⟩]⟩
    2 ≤ pair.size ∧
      pair.flatten = [⟨-3, 0, false⟩, ⟨-1, 2, true⟩, ⟨0, 5, false⟩, ⟨-1, 2, true⟩] ∧
      Cycle.Chain Joined pair.flatten := by
  intro pair
  have drawn : 2 ≤ pair.size := by decide
  exact ⟨drawn, by decide, (pair.flatten_refines.2.2.1 drawn).2⟩

end Contour

end OutlineFont
