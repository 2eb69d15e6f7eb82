import OutlineFont.Proofs.ScanLines

/-!
# Cells along an axis

The cells of a row or of a column begin at multiples of their size from the lower
end of the box on, so each of them ends where the next begins.  Whatever lies
along the cells, then, lies in exactly one of them, whichever of its two ends
belongs to a cell.
-/

namespace OutlineFont.Raster

def cellStart (gridSize : Nat) (origin : Int) (index : Nat) : Int :=
  origin + (index * gridSize : Nat)

section CellStart

variable (gridSize : Nat) (origin : Int)

theorem cellStart_zero : cellStart gridSize origin 0 = origin := by
  rw [cellStart, Nat.zero_mul, Int.natCast_zero, Int.add_zero]

theorem cellStart_succ (index : Nat) :
    cellStart gridSize origin (index + 1) = cellStart gridSize origin index + gridSize := by
  rw [cellStart, cellStart, Nat.succ_mul, Int.natCast_add, Int.add_assoc]

theorem monotone_cellStart : Monotone (cellStart gridSize origin) := by
  refine monotone_nat_of_le_succ fun index => ?_
  rw [cellStart_succ]
  omega

end CellStart

/--
Between rising bounds, whatever lies above the first and not above the last lies
in exactly one window that begins behind one bound and ends at the next.
-/
theorem existsUnique_window {Place : Type} [LinearOrder Place] {bound : Nat → Place}
    (rising : Monotone bound) {count : Nat} {place : Place} (above : bound 0 < place)
    (below : place ≤ bound count) :
    ∃! index, index < count ∧ bound index < place ∧ place ≤ bound (index + 1) := by
  obtain ⟨index, within, behind, before⟩ :
      ∃ index < count, bound index < place ∧ place ≤ bound (index + 1) := by
    induction count with
    | zero => exact absurd below above.not_ge
    | succ count ih =>
        rcases le_or_gt place (bound count) with earlier | last
        · obtain ⟨index, within, window⟩ := ih earlier
          exact ⟨index, within.trans (Nat.lt_succ_self count), window⟩
        · exact ⟨count, Nat.lt_succ_self count, last, below⟩
  refine ⟨index, ⟨within, behind, before⟩, fun other ⟨_, otherBehind, otherBefore⟩ => ?_⟩
  rcases lt_trichotomy other index with less | same | greater
  · exact absurd (otherBefore.trans (rising less)) behind.not_ge
  · exact same
  · exact absurd (before.trans (rising greater)) otherBehind.not_ge

/-- Every integer along the cells lies in exactly one of them. -/
theorem existsUnique_cell {gridSize count : Nat} {origin place : Int} (above : origin ≤ place)
    (below : place < cellStart gridSize origin count) :
    ∃! index, index < count ∧ cellStart gridSize origin index ≤ place ∧
      place < cellStart gridSize origin index + gridSize := by
  have rising := monotone_cellStart gridSize origin
  -- A cell has its lower end and not its upper one, so it is the window of the next integer.
  have first : cellStart gridSize origin 0 < place + 1 := by
    rw [cellStart_zero]
    omega
  obtain ⟨index, ⟨within, behind, before⟩, unique⟩ :=
    existsUnique_window rising first (Int.add_one_le_of_lt below)
  rw [cellStart_succ] at before
  refine ⟨index, ⟨within, by omega, by omega⟩, fun other ⟨otherWithin, otherLow, otherHigh⟩ => ?_⟩
  apply unique other
  rw [cellStart_succ]
  exact ⟨otherWithin, by omega, by omega⟩

namespace Rasterizer

variable {rasterizer : Rasterizer} (pos : 0 < rasterizer.gridSize)

include pos

/-- There is one cell more than are needed to cover a length. -/
theorem cellCount_le_iff (length count : Nat) :
    rasterizer.cellCount length ≤ count + 1 ↔ length ≤ count * rasterizer.gridSize := by
  unfold cellCount
  rw [Nat.add_le_add_iff_right, Nat.div_le_iff_le_mul_add_pred pos, Nat.mul_comm]
  omega

/-- The last cell ends behind the length that the cells cover. -/
theorem lt_cellCount_mul (length : Nat) :
    length < rasterizer.cellCount length * rasterizer.gridSize := by
  obtain ⟨count, same⟩ : ∃ count, rasterizer.cellCount length = count + 1 := ⟨_, rfl⟩
  have enough := (cellCount_le_iff pos length count).mp same.le
  rw [same, Nat.succ_mul]
  omega

/-- Cells cover the places before the end of an interval if at most one of them is missing. -/
theorem covers_iff {low high : Int} (sound : low ≤ high) (count : Nat) :
    (∀ place, low ≤ place → place < high → ∃ index < count,
      cellStart rasterizer.gridSize low index ≤ place ∧
        place < cellStart rasterizer.gridSize low index + rasterizer.gridSize) ↔
      rasterizer.cellCount (high - low).toNat ≤ count + 1 := by
  rw [cellCount_le_iff pos]
  constructor
  · intro covered
    rcases sound.eq_or_lt with rfl | longer
    · omega
    -- The last place of the interval is in a cell only if the cells reach its end.
    · obtain ⟨index, within, _, before⟩ := covered (high - 1) (by omega) (by omega)
      rw [← cellStart_succ] at before
      have ends := monotone_cellStart rasterizer.gridSize low (Nat.succ_le_of_lt within)
      have last : high - 1 < cellStart rasterizer.gridSize low count := before.trans_le ends
      unfold cellStart at last
      omega
  · intro enough place above below
    have before : place < cellStart rasterizer.gridSize low count := by
      unfold cellStart
      omega
    obtain ⟨index, ⟨within, holds⟩, _⟩ := existsUnique_cell above before
    exact ⟨index, within, holds⟩

end Rasterizer

end OutlineFont.Raster
