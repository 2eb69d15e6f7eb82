import OutlineFont.CharacterMap.Segments
import OutlineFont.Proofs.StoredNumbers

/-!
# Looking characters up in segments

A segment map is read whenever its four arrays lie inside its bytes.  Where the
segments ascend, a character lies in one of them at most, and the first that
holds it is the first that ends at or after it, unless that one starts too late.
So the order of the segments does not matter, nor how that one is searched for.
-/

namespace OutlineFont

/-- The number without a sign whose bits are those of a signed one. -/
theorem Int16.toNat_toUInt16 (value : Int16) :
    (value.toUInt16.toNat : Int) = value.toInt % 65536 := by
  have same : value.toInt = (value.toUInt16.toNat : Int).bmod (2 ^ 16) :=
    BitVec.toInt_eq_toNat_bmod value.toBitVec
  have below := value.toUInt16.toNat_lt
  rw [Int.bmod_def] at same
  omega

/-- A way to choose an index in a range that is not empty. -/
structure Pivot where
  index (low high : Nat) : Nat
  low_le {low high : Nat} (some : low < high) : low ≤ index low high
  lt_high {low high : Nat} (some : low < high) : index low high < high

namespace Pivot

/-- The index in the middle. -/
def halfway : Pivot where
  index low high := (low + high) / 2
  low_le some := by omega
  lt_high some := by omega

/-- The least index in a range that passes a test, where all behind it pass the test as well. -/
def bisect (pivot : Pivot) (passes : Nat → Bool) (low high : Nat) : Nat :=
  if some : low < high then
    if passes (pivot.index low high) then
      pivot.bisect passes low (pivot.index low high)
    else
      pivot.bisect passes (pivot.index low high + 1) high
  else
    low
termination_by high - low
decreasing_by
  all_goals
    have least := pivot.low_le some
    have greatest := pivot.lt_high some
    omega

/-- The range that is searched never loses the least index. -/
theorem bisect_eq (pivot : Pivot) {passes : Nat → Bool} {low high least : Nat}
    (before : ∀ index < least, passes index = false)
    (behind : ∀ index < high, least ≤ index → passes index = true)
    (low_le : low ≤ least) (le_high : least ≤ high) :
    pivot.bisect passes low high = least := by
  fun_induction bisect pivot passes low high with
  | case1 low high some passed ih =>
      have inside := pivot.lt_high some
      have reached : least ≤ pivot.index low high := by
        by_contra short
        rw [before _ (by omega)] at passed
        cases passed
      exact ih (fun index below => behind index (by omega)) low_le reached
  | case2 low high some failed ih =>
      have inside := pivot.lt_high some
      have short : pivot.index low high < least := by
        by_contra reached
        exact failed (behind _ inside (by omega))
      exact ih behind short le_high
  | case3 low high none => omega

end Pivot

namespace Segment

/-- The segment at an index of the four arrays of a byte string. -/
def storedAt (data : Bytes) (count index : Nat) : Segment where
  start := .ofNat (Bytes.stored data (16 + 2 * count + 2 * index) 2)
  stop := .ofNat (Bytes.stored data (14 + 2 * index) 2)
  delta := .ofNat (Bytes.stored data (16 + 4 * count + 2 * index) 2)
  rangeOffset := .ofNat (Bytes.stored data (16 + 6 * count + 2 * index) 2)

/-- Segments that follow one another: each ends before the next one starts. -/
structure Ascending (segments : List Segment) : Prop where
  upright : ∀ segment ∈ segments, segment.start ≤ segment.stop
  apart : segments.IsChain fun lower upper => lower.stop < upper.start

/-- The glyph of a character in a segment that may start behind it. -/
def mapped? (segment : Segment) (character : UInt16) : Option UInt16 :=
  if segment.start ≤ character ∧ segment.rangeOffset = 0 then
    some (.ofNat ((character.toNat + segment.delta.toInt) % 65536).toNat)
  else
    none

theorem covers_iff {segment : Segment} {character : UInt16} :
    segment.covers character = true ↔
      segment.start ≤ character ∧ character ≤ segment.stop := by
  rw [covers, Bool.and_eq_true, decide_eq_true_eq, decide_eq_true_eq]

/-- Adding a difference to a character wraps around. -/
theorem add_delta (segment : Segment) (character : UInt16) :
    character + segment.delta.toUInt16 =
      .ofNat ((character.toNat + segment.delta.toInt) % 65536).toNat := by
  have difference := Int16.toNat_toUInt16 segment.delta
  apply UInt16.toNat_inj.mp
  rw [UInt16.toNat_add, UInt16.toNat_ofNat']
  omega

theorem mapped?_eq (segment : Segment) (character : UInt16) :
    segment.mapped? character =
      if segment.start ≤ character then segment.glyph? character else none := by
  rw [mapped?, glyph?, add_delta]
  split_ifs <;> grind

namespace Ascending

variable {segments : List Segment}

theorem tail {first : Segment} {rest : List Segment} (ascending : Ascending (first :: rest)) :
    Ascending rest :=
  ⟨fun segment listed => ascending.upright segment (List.mem_cons_of_mem _ listed),
    ascending.apart.tail⟩

/-- A segment ends before all later ones start. -/
theorem pairwise (ascending : Ascending segments) :
    segments.Pairwise fun lower upper => lower.stop < upper.start := by
  induction segments with
  | nil => exact .nil
  | cons first rest ih =>
      have later := ih ascending.tail
      refine .cons ?_ later
      cases rest with
      | nil => simp
      | cons second rest =>
          have next : first.stop < second.start := (List.isChain_cons_cons.mp ascending.apart).1
          have upright : second.start ≤ second.stop := ascending.upright second (by simp)
          intro other listed
          rcases List.mem_cons.mp listed with rfl | behind
          · exact next
          · have beyond : second.stop < other.start := List.rel_of_pairwise_cons later behind
            grind

/-- The first segment that holds a character is the first that ends at or after it, or none. -/
theorem find?_covers (ascending : Ascending segments) (character : UInt16) :
    segments.find? (·.covers character) =
      (segments.find? (character ≤ ·.stop)).filter (·.start ≤ character) := by
  induction segments with
  | nil => rfl
  | cons first rest ih =>
      by_cases reached : character ≤ first.stop
      · have later : rest.find? (·.covers character) = none := by
          rw [List.find?_eq_none]
          intro other listed
          have beyond := List.rel_of_pairwise_cons ascending.pairwise listed
          rw [covers_iff]
          grind
        by_cases started : first.start ≤ character
        · rw [List.find?_cons_of_pos (by exact covers_iff.mpr ⟨started, reached⟩),
            List.find?_cons_of_pos (by exact decide_eq_true reached), Option.filter_some,
            if_pos (decide_eq_true started)]
        · rw [List.find?_cons_of_neg (by exact fun held => started (covers_iff.mp held).1), later,
            List.find?_cons_of_pos (by exact decide_eq_true reached), Option.filter_some,
            if_neg (by simp [started])]
      · rw [List.find?_cons_of_neg (by exact fun held => reached (covers_iff.mp held).2),
          List.find?_cons_of_neg (by simp [reached]), ih ascending.tail]

/-- No character lies in two segments. -/
theorem subsingleton_covers (ascending : Ascending segments) (character : UInt16) :
    {segment ∈ segments | segment.covers character}.Subsingleton := by
  let Apart (lower upper : Segment) : Prop := ¬(lower.covers character ∧ upper.covers character)
  have symmetric : Std.Symm Apart := ⟨fun _ _ apart both => apart both.symm⟩
  have apart : segments.Pairwise Apart := by
    refine ascending.pairwise.imp ?_
    rintro lower upper below ⟨low, high⟩
    rw [covers_iff] at low high
    grind
  rintro lower ⟨lowerListed, lowerHolds⟩ upper ⟨upperListed, upperHolds⟩
  by_contra different
  exact apart.forall lowerListed upperListed different ⟨lowerHolds, upperHolds⟩

theorem stop_le (ascending : Ascending segments) {lower upper : Nat} (order : lower ≤ upper)
    (inside : upper < segments.length) :
    segments[lower].stop ≤ segments[upper].stop := by
  rcases Nat.eq_or_lt_of_le order with rfl | before
  · exact UInt16.le_refl _
  · have below :=
      List.pairwise_iff_getElem.mp ascending.pairwise lower upper (by omega) inside before
    have upright := ascending.upright _ (List.getElem_mem inside)
    grind

/-- Whatever indices are probed, the first segment that ends at or after a character is found. -/
theorem bisect_eq (ascending : Ascending segments) (pivot : Pivot) (character : UInt16) :
    pivot.bisect (fun index => segments[index]?.any (character ≤ ·.stop)) 0 segments.length =
      segments.findIdx (character ≤ ·.stop) := by
  refine pivot.bisect_eq ?_ ?_ (Nat.zero_le _) List.findIdx_le_length
  · intro index below
    have missed := List.not_of_lt_findIdx below
    rw [List.getElem?_eq_getElem]
    exact missed
  · intro index inside reached
    have found := List.findIdx_getElem (w := reached.trans_lt inside)
    have later := ascending.stop_le reached inside
    rw [decide_eq_true_eq] at found
    rw [List.getElem?_eq_getElem inside, Option.any_some, decide_eq_true_eq]
    exact UInt16.le_trans found later

end Ascending

end Segment

namespace SegmentMap

variable {table data : Bytes} {number : UInt16} {segments : List Segment}

theorem segmentAt_extract {count index : Nat} (room : 16 + 8 * count ≤ table.size)
    (below : index < count) :
    segmentAt (table.extract 0 (16 + 8 * count)) count index =
      .ok (Segment.storedAt table count index) := by
  have size : (table.extract 0 (16 + 8 * count)).size = 16 + 8 * count := by
    rw [Array.size_extract]
    omega
  have same (offset : Nat) (inside : offset + 2 ≤ 16 + 8 * count) :
      Bytes.stored (table.extract 0 (16 + 8 * count)) offset 2 = Bytes.stored table offset 2 := by
    rw [Bytes.stored_extract (by omega), Nat.zero_add]
  have unsigned (offset : Nat) (inside : offset + 2 ≤ 16 + 8 * count) :
      Bytes.u16At (table.extract 0 (16 + 8 * count)) offset =
        .ok (.ofNat (Bytes.stored table offset 2)) := by
    rw [Bytes.u16At_of_le (by omega), same offset inside]
  have signed (offset : Nat) (inside : offset + 2 ≤ 16 + 8 * count) :
      Bytes.i16At (table.extract 0 (16 + 8 * count)) offset =
        .ok (.ofNat (Bytes.stored table offset 2)) :=
    exceptMap_eq_ok_iff.mpr
      ⟨_, Bytes.number_eq_ok_iff.mpr ⟨by omega, (same offset inside).symm⟩, rfl⟩
  unfold segmentAt
  rw [unsigned _ (by omega), unsigned _ (by omega), signed _ (by omega), unsigned _ (by omega)]
  rfl

/-- Once its four arrays are there, no read of a segment fails. -/
theorem parse_of_arrays (marked : Bytes.u16At table 0 = .ok format)
    (counted : Bytes.u16At table 6 = .ok number)
    (arrays : Bytes.slice table 0 (16 + 8 * (number.toNat / 2)) = .ok data) :
    parse table = .ok ⟨(List.range (number.toNat / 2)).map
      (Segment.storedAt table (number.toNat / 2))⟩ ∧
    ∀ index < number.toNat / 2, segmentAt data (number.toNat / 2) index =
      .ok (Segment.storedAt table (number.toNat / 2) index) := by
  obtain ⟨room, rfl⟩ := Bytes.slice_eq_ok_iff.mp arrays
  rw [Nat.zero_add] at room arrays ⊢
  have each (index : Nat) (below : index < number.toNat / 2) := segmentAt_extract room below
  refine ⟨?_, each⟩
  have read := exceptMapM_of_forall_mem fun index listed => each index (List.mem_range.mp listed)
  unfold parse
  rw [marked, counted]
  simp only [bind, Except.bind, ne_eq, not_true_eq_false, if_false, arrays, read]
  rfl

theorem glyph?_eq (ascending : Segment.Ascending segments) (character : UInt16) :
    glyph? ⟨segments⟩ character =
      (segments.find? (character ≤ ·.stop)).bind (·.mapped? character) := by
  unfold glyph? segment?
  rw [ascending.find?_covers]
  cases segments.find? (character ≤ ·.stop) with
  | none => rfl
  | some segment =>
      rw [Option.filter_some, Option.bind_some, Segment.mapped?_eq]
      split_ifs <;> simp_all

/-- Where segments ascend, all orders of them give a character the same glyph. -/
theorem glyph?_perm (ascending : Segment.Ascending segments) {others : List Segment}
    (perm : others.Perm segments) (character : UInt16) :
    glyph? ⟨others⟩ character = glyph? ⟨segments⟩ character := by
  have same : segments.find? (·.covers character) = others.find? (·.covers character) :=
    List.find?_eq_find?_of_perm perm.symm (ascending.subsingleton_covers character)
  unfold glyph? segment?
  rw [same]

/--
Once the four arrays of a segment map are there, it is read, and reading any of its
segments succeeds.  Where segments ascend, a character has the glyph that the first
segment ending at or after it gives it, if this one starts at or before it and has
no array of its own.  Every way to halve the indices finds that segment, and
segments in any other order answer alike.
-/
theorem glyph?_eq_search :
    (∀ (table data : Bytes) (number : UInt16), Bytes.u16At table 0 = .ok format →
      Bytes.u16At table 6 = .ok number →
      Bytes.slice table 0 (16 + 8 * (number.toNat / 2)) = .ok data →
        ∃ segments, parse table = .ok ⟨segments⟩ ∧ segments.length = number.toNat / 2 ∧
          ∀ (index : Nat) (inside : index < segments.length),
            segmentAt data (number.toNat / 2) index = .ok segments[index]) ∧
    ∀ segments : List Segment, Segment.Ascending segments → ∀ character : UInt16,
      glyph? ⟨segments⟩ character =
        (segments.find? (character ≤ ·.stop)).bind (·.mapped? character) ∧
      (∀ pivot : Pivot, glyph? ⟨segments⟩ character =
        segments[pivot.bisect (fun index => segments[index]?.any (character ≤ ·.stop)) 0
          segments.length]?.bind (·.mapped? character)) ∧
      ∀ others : List Segment, others.Perm segments →
        glyph? ⟨others⟩ character = glyph? ⟨segments⟩ character := by
  constructor
  · intro table data number marked counted arrays
    obtain ⟨parsed, each⟩ := parse_of_arrays marked counted arrays
    refine ⟨_, parsed, by simp, ?_⟩
    intro index inside
    rw [List.length_map, List.length_range] at inside
    rw [each index inside]
    simp
  · intro segments ascending character
    refine ⟨glyph?_eq ascending character, ?_, ?_⟩
    · intro pivot
      rw [ascending.bisect_eq, ← List.find?_eq_getElem?_findIdx, glyph?_eq ascending]
    · intro others perm
      exact glyph?_perm ascending perm character

/-- A segment that wraps around, one with an array of its own, and one that ends with the last. -/
def mixedSegments : List Segment :=
  [⟨10, 20, -15, 0⟩, ⟨30, 40, 0, 2⟩, ⟨0xfff0, 0xffff, 20, 0⟩]

/-- A table that holds these segments, with an odd number of bytes for each array. -/
def mixedSegmentTable : Bytes :=
  #[0, 4, 0, 40, 0, 0, 0, 7, 0, 0, 0, 0, 0, 0, 0, 20, 0, 40, 255, 255, 0, 0, 0, 10, 0, 30, 255, 240,
    255, 241, 0, 0, 0, 20, 0, 0, 0, 2, 0, 0]

/--
The first segment counts below zero for character 10 and starts behind character 5;
the second gives no glyph, and the third counts beyond all glyph numbers.
-/
theorem glyph?_eq_search_mixedSegments :
    parse mixedSegmentTable = .ok ⟨mixedSegments⟩ ∧
      segmentAt mixedSegmentTable 3 1 = .ok ⟨30, 40, 0, 2⟩ ∧ Segment.Ascending mixedSegments ∧
      glyph? ⟨mixedSegments⟩ 5 = none ∧ glyph? ⟨mixedSegments⟩ 10 = some 65531 ∧
      glyph? ⟨mixedSegments⟩ 35 = none ∧
      mixedSegments[Pivot.halfway.bisect (fun index =>
        mixedSegments[index]?.any (0xffff ≤ ·.stop)) 0 3]?.bind (·.mapped? 0xffff) = some 19 ∧
      glyph? ⟨mixedSegments.reverse⟩ 0xffff = some 19 := by
  obtain ⟨reads, lookup⟩ := glyph?_eq_search
  obtain ⟨segments, parsed, -, each⟩ := reads mixedSegmentTable mixedSegmentTable 7
    (by decide +kernel) (by decide +kernel) (by decide +kernel)
  have same : parse mixedSegmentTable = .ok ⟨mixedSegments⟩ := by decide +kernel
  cases parsed.symm.trans same
  have ascending : Segment.Ascending mixedSegments := ⟨by decide, by decide⟩
  have last := lookup mixedSegments ascending 0xffff
  have found : glyph? ⟨mixedSegments⟩ 0xffff = some 19 := last.1
  refine ⟨parsed, each 1 (by decide), ascending, (lookup _ ascending 5).1,
    (lookup _ ascending 10).1, (lookup _ ascending 35).1, ?_, ?_⟩
  · exact (last.2.1 Pivot.halfway).symm.trans found
  · exact (last.2.2 _ mixedSegments.reverse_perm).trans found

end SegmentMap

end OutlineFont
