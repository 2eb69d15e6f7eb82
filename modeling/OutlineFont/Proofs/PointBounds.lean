import OutlineFont.Proofs.CompositeDecoding

/-!
# How many points a glyph has

The points of a simple glyph are numbered by sixteen bits, and the points of the
components of a composite glyph are added up before they are put in place, so that
no decoded glyph has more points than can be numbered.
-/

namespace OutlineFont

namespace SimpleGlyph

theorem lt_of_mem_readEndPoints {id : UInt16} {count : Nat} {seen endPoints : List Nat}
    {cursor next : Cursor} (below : ∀ last ∈ seen, last < 65536)
    (done : readEndPoints id count seen cursor = .ok endPoints next) :
    ∀ last ∈ endPoints, last < 65536 := by
  induction count generalizing seen cursor with
  | zero =>
      cases done
      intro last listed
      exact below last (List.mem_reverse.mp listed)
  | succ count ih =>
      rw [readEndPoints] at done
      obtain ⟨word, between, _, rest⟩ := bind_eq_ok_iff.mp done
      dsimp only at rest
      split at rest
      case isTrue => cases rest
      case isFalse => exact ih (List.forall_mem_cons.mpr ⟨word.toNat_lt, below⟩) rest

/-- Flags are read for all points, if there are enough rounds. -/
theorem length_readFlags {id : UInt16} {rounds missing : Nat} {seen flags : List PointFlag}
    {cursor next : Cursor} (enough : missing ≤ rounds)
    (done : readFlags id rounds missing seen cursor = .ok flags next) :
    flags.length = seen.length + missing := by
  induction rounds generalizing missing seen cursor with
  | zero =>
      obtain rfl := Nat.le_zero.mp enough
      cases done
      rw [List.length_reverse, Nat.add_zero]
  | succ rounds ih =>
      cases missing with
      | zero =>
          cases done
          rw [List.length_reverse, Nat.add_zero]
      | succ missing =>
          rw [readFlags] at done
          obtain ⟨flag, between, _, rest⟩ := bind_eq_ok_iff.mp done
          dsimp only at rest
          split at rest
          case isTrue =>
            obtain ⟨count, between, _, rest⟩ := bind_eq_ok_iff.mp rest
            split at rest
            case isTrue => cases rest
            case isFalse room =>
              have same := ih (by omega) rest
              rw [List.length_append, List.length_replicate] at same
              omega
          case isFalse =>
            have same := ih (by omega) rest
            rw [List.length_cons] at same
            omega

theorem length_split_le {id : UInt16} {first : Nat} {endPoints : List Nat} {points : List Point}
    {contours : List Contour} (done : split id first endPoints points = .ok contours) :
    (contours.flatMap (·.points)).length ≤ points.length := by
  induction endPoints generalizing first points contours with
  | nil =>
      cases done
      exact Nat.zero_le _
  | cons last rest ih =>
      rw [SimpleGlyph.split] at done
      split at done
      case isTrue =>
        cases later : SimpleGlyph.split id (last + 1) rest (points.drop (last + 1 - first)) with
        | ok contours =>
            rw [later] at done
            cases done
            have bound := ih later
            rw [List.length_drop] at bound
            rw [List.flatMap_cons, List.length_append, List.length_take]
            omega
        | error failure =>
            rw [later] at done
            cases done
      case isFalse => cases done

theorem length_points_le (flags : List PointFlag) (xs ys : List Int16) :
    (points flags xs ys).length ≤ flags.length := by
  unfold points
  rw [List.length_zipWith]
  exact Nat.min_le_left _ _

/-- A simple glyph has no more points than the number of its last point says. -/
theorem pointCount_read_le {id : UInt16} {count : Nat} {metrics : Metrics} {cursor next : Cursor}
    {glyph : Glyph} (done : SimpleGlyph.read id count metrics cursor = .ok glyph next) :
    glyph.pointCount ≤ pointLimit := by
  unfold SimpleGlyph.read at done
  split at done
  case isTrue =>
    cases done
    exact Nat.zero_le _
  case isFalse =>
    obtain ⟨endPoints, _, ends, rest⟩ := bind_eq_ok_iff.mp done
    obtain ⟨instructions, _, _, rest⟩ := bind_eq_ok_iff.mp rest
    obtain ⟨flags, _, flagged, rest⟩ := bind_eq_ok_iff.mp rest
    obtain ⟨xs, _, _, rest⟩ := bind_eq_ok_iff.mp rest
    obtain ⟨ys, _, _, rest⟩ := bind_eq_ok_iff.mp rest
    obtain ⟨contours, _, accepted, returned⟩ := bind_eq_ok_iff.mp rest
    cases returned
    obtain ⟨cut, _⟩ := Reader.accept_eq_ok_iff.mp accepted
    have last : endPoints.getLast?.elim 0 (· + 1) ≤ pointLimit := by
      cases final : endPoints.getLast? with
      | none => exact Nat.zero_le _
      | some last =>
          exact lt_of_mem_readEndPoints (List.forall_mem_nil _) ends last
            (List.mem_of_getLast? final)
    have total : (contours.flatMap (·.points)).length ≤ pointLimit :=
      calc (contours.flatMap (·.points)).length
        _ ≤ (points flags xs ys).length := length_split_le cut
        _ ≤ flags.length := length_points_le flags xs ys
        _ ≤ endPoints.getLast?.elim 0 (· + 1) := by
            simpa using (length_readFlags (Nat.le_refl _) flagged).le
        _ ≤ pointLimit := last
    rw [← Glyph.length_points]
    exact total

end SimpleGlyph

theorem Component.points_placeAll (component : Component) (glyph : Glyph) :
    (component.placeAll glyph).flatMap (·.points) = glyph.points.map component.place := by
  unfold placeAll Glyph.points
  rw [List.flatMap_map, List.map_flatMap]

namespace Gathers

variable {resolves : UInt16 → Glyph → List Reference → Prop} {composite : UInt16} {points : Nat}
  {components : List Component} {contours : List Contour} {met : List Reference}

/-- The points of components do not go beyond the limit. -/
theorem length_points_le (gathers : Gathers resolves composite points components contours met)
    (within : points ≤ pointLimit) :
    points + (contours.flatMap (·.points)).length ≤ pointLimit := by
  induction gathers with
  | nil => exact within
  | @cons _ component _ glyph _ _ _ _ bounded _ ih =>
      have rest := ih bounded
      rw [List.flatMap_append, List.length_append, Component.points_placeAll, List.length_map,
        Glyph.length_points]
      omega

end Gathers

namespace GlyphTable

variable {table : GlyphTable} {id : UInt16} {glyph : Glyph} {met : List Reference}

theorem ResolvesWith.pointCount_le {resolves : UInt16 → Glyph → List Reference → Prop}
    (answers : table.ResolvesWith resolves id glyph met) : glyph.pointCount ≤ pointLimit := by
  cases answers with
  | blank => exact Nat.zero_le _
  | simple _ _ _ content => exact SimpleGlyph.pointCount_read_le content
  | composite record _ gathers =>
      have bound := gathers.length_points_le (Nat.zero_le _)
      rw [Nat.zero_add] at bound
      rw [← Glyph.length_points]
      exact bound

theorem Resolves.pointCount_le {depth : Nat} (answers : table.Resolves depth id glyph met) :
    glyph.pointCount ≤ pointLimit := by
  cases depth with
  | zero => exact ResolvesWith.pointCount_le answers
  | succ depth => exact ResolvesWith.pointCount_le answers

end GlyphTable

end OutlineFont
