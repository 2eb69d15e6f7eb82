import OutlineFont.Proofs.SegmentLookup

/-!
# Listing the characters of segments

Where segments ascend, their characters are listed in ascending order, each once,
up to the mark after the last segment.  The list and the lookup agree, but for the
last of all characters and for segments that are not supported.
-/

namespace OutlineFont

namespace Segment

variable {segment : Segment} {segments : List Segment} {character : UInt16}

theorem mem_characters_iff :
    character ∈ segment.characters ↔ segment.start ≤ character ∧ character ≤ segment.stop := by
  rw [characters, List.mem_map, UInt16.le_iff_toNat_le, UInt16.le_iff_toNat_le]
  constructor
  · rintro ⟨number, listed, rfl⟩
    have inside := List.mem_range'_1.mp listed
    have below := segment.stop.toNat_lt
    rw [UInt16.toNat_ofNat_of_lt' (by simp only [UInt16.size]; omega)]
    omega
  · rintro ⟨least, greatest⟩
    refine ⟨character.toNat, ?_, UInt16.ofNat_toNat⟩
    rw [List.mem_range'_1]
    omega

/-- The characters of a segment ascend, also where the last of all characters is among them. -/
theorem pairwise_characters (segment : Segment) : segment.characters.Pairwise (· < ·) := by
  rw [characters, List.pairwise_map]
  refine (List.pairwise_lt_range' 1).imp_of_mem ?_
  intro lower upper low high less
  have inside := List.mem_range'_1.mp low
  have further := List.mem_range'_1.mp high
  have below := segment.stop.toNat_lt
  rw [UInt16.lt_iff_toNat_lt, UInt16.toNat_ofNat_of_lt' (by simp only [UInt16.size]; omega),
    UInt16.toNat_ofNat_of_lt' (by simp only [UInt16.size]; omega)]
  exact less

theorem isFinal_iff :
    segment.isFinal = true ↔ segment.start = 0xffff ∧ segment.stop = 0xffff := by
  rw [isFinal, Bool.and_eq_true, beq_iff_eq, beq_iff_eq]

namespace Ascending

/-- Nothing comes behind the final mark. -/
theorem takeWhile_eq_filter (ascending : Ascending segments) :
    segments.takeWhile (!·.isFinal) = segments.filter (!·.isFinal) := by
  induction segments with
  | nil => rfl
  | cons first rest ih =>
      by_cases final : first.isFinal
      · have none : rest = [] := by
          rw [List.eq_nil_iff_forall_not_mem]
          intro other listed
          have beyond := List.rel_of_pairwise_cons ascending.pairwise listed
          rw [(isFinal_iff.mp final).2, UInt16.lt_iff_toNat_lt] at beyond
          have below := other.start.toNat_lt
          simp at beyond
          omega
        simp [none, final]
      · simp [final, ih ascending.tail]

/-- All characters of a segment come before those of the later ones. -/
theorem pairwise_flatMap_characters (ascending : Ascending segments) :
    (segments.flatMap (·.characters)).Pairwise (· < ·) := by
  refine List.pairwise_flatMap.mpr ⟨fun segment _ => segment.pairwise_characters, ?_⟩
  refine ascending.pairwise.imp ?_
  intro lower upper below character low another high
  have ends := (mem_characters_iff.mp low).2
  have starts := (mem_characters_iff.mp high).1
  exact UInt16.lt_of_le_of_lt ends (UInt16.lt_of_lt_of_le below starts)

end Ascending

end Segment

namespace SegmentMap

variable {map : SegmentMap} {character : UInt16}

theorem pairwise_characters (ascending : Segment.Ascending map.segments) :
    map.characters.Pairwise (· < ·) := by
  refine ascending.pairwise_flatMap_characters.sublist ?_
  exact (List.takeWhile_sublist _).flatMap _

theorem mem_characters_iff (ascending : Segment.Ascending map.segments) :
    character ∈ map.characters ↔
      ∃ segment ∈ map.segments, ¬(segment.start = 0xffff ∧ segment.stop = 0xffff) ∧
        segment.start ≤ character ∧ character ≤ segment.stop := by
  rw [characters, ascending.takeWhile_eq_filter, List.mem_flatMap]
  constructor
  · rintro ⟨segment, listed, inside⟩
    obtain ⟨among, kept⟩ := List.mem_filter.mp listed
    refine ⟨segment, among, ?_, Segment.mem_characters_iff.mp inside⟩
    rw [← Segment.isFinal_iff]
    simpa using kept
  · rintro ⟨segment, among, kept, inside⟩
    refine ⟨segment, List.mem_filter.mpr ⟨among, ?_⟩, Segment.mem_characters_iff.mpr inside⟩
    rw [← Segment.isFinal_iff] at kept
    simpa using kept

theorem of_segment? {segment : Segment} (found : map.segment? character = some segment) :
    segment ∈ map.segments ∧ segment.start ≤ character ∧ character ≤ segment.stop := by
  rw [segment?] at found
  have holds := List.find?_some found
  exact ⟨List.mem_of_find?_eq_some found, Segment.covers_iff.mp holds⟩

theorem exists_covers_of_glyph? (mapped : (map.glyph? character).isSome) :
    ∃ segment ∈ map.segments, segment.start ≤ character ∧ character ≤ segment.stop := by
  cases found : map.segment? character with
  | none => simp [glyph?, found] at mapped
  | some segment => exact ⟨segment, of_segment? found⟩

theorem isSome_glyph?_or {segment : Segment} (among : segment ∈ map.segments)
    (inside : segment.start ≤ character ∧ character ≤ segment.stop) :
    (map.glyph? character).isSome ∨ ∃ other ∈ map.segments,
      other.start ≤ character ∧ character ≤ other.stop ∧ other.rangeOffset ≠ 0 := by
  cases found : map.segment? character with
  | none =>
      have missed := List.find?_eq_none.mp found segment among
      exact absurd (Segment.covers_iff.mpr inside) missed
  | some other =>
      obtain ⟨listed, least, greatest⟩ := of_segment? found
      by_cases direct : other.rangeOffset = 0
      · simp [glyph?, found, Segment.glyph?, direct]
      · exact .inr ⟨other, listed, least, greatest, direct⟩

/--
Where segments ascend, the list of characters ascends strictly, and it holds those
of all segments but a final mark.  So it misses a character that has a glyph only
if this is the last of all characters, and it lists one without a glyph only for a
segment that has an array of its own.
-/
theorem characters_enumerate (map : SegmentMap) (ascending : Segment.Ascending map.segments) :
    map.characters.Pairwise (· < ·) ∧
    (∀ character, character ∈ map.characters ↔
      ∃ segment ∈ map.segments, ¬(segment.start = 0xffff ∧ segment.stop = 0xffff) ∧
        segment.start ≤ character ∧ character ≤ segment.stop) ∧
    (∀ character, (map.glyph? character).isSome → character ≠ 0xffff →
      character ∈ map.characters) ∧
    ∀ character ∈ map.characters, (map.glyph? character).isSome ∨
      ∃ segment ∈ map.segments,
        segment.start ≤ character ∧ character ≤ segment.stop ∧ segment.rangeOffset ≠ 0 := by
  refine ⟨pairwise_characters ascending, fun _ => mem_characters_iff ascending, ?_, ?_⟩
  · intro character mapped notLast
    obtain ⟨segment, among, least, greatest⟩ := exists_covers_of_glyph? mapped
    refine (mem_characters_iff ascending).mpr ⟨segment, among, ?_, least, greatest⟩
    rintro ⟨start, stop⟩
    rw [start] at least
    rw [stop] at greatest
    exact notLast (UInt16.le_antisymm greatest least)
  · intro character listed
    obtain ⟨segment, among, -, inside⟩ := (mem_characters_iff ascending).mp listed
    exact isSome_glyph?_or among inside

/--
The last of all characters is listed, as its segment starts before it.  The list
holds character 35, which has no glyph, but not character 25 between two segments.
-/
theorem characters_enumerate_mixedSegments :
    Segment.Ascending mixedSegments ∧ (characters ⟨mixedSegments⟩).Pairwise (· < ·) ∧
      0xffff ∈ characters ⟨mixedSegments⟩ ∧ 10 ∈ characters ⟨mixedSegments⟩ ∧
      35 ∈ characters ⟨mixedSegments⟩ ∧ glyph? ⟨mixedSegments⟩ 35 = none ∧
      (∃ segment ∈ mixedSegments,
        segment.start ≤ 35 ∧ 35 ≤ segment.stop ∧ segment.rangeOffset ≠ 0) ∧
      25 ∉ characters ⟨mixedSegments⟩ := by
  have ascending : Segment.Ascending mixedSegments := ⟨by decide, by decide⟩
  obtain ⟨ordered, covered, listed, served⟩ := characters_enumerate ⟨mixedSegments⟩ ascending
  have last := (covered 0xffff).mpr ⟨⟨0xfff0, 0xffff, 20, 0⟩, by decide, by decide, by decide⟩
  have array := (covered 35).mpr ⟨⟨30, 40, 0, 2⟩, by decide, by decide, by decide⟩
  have missing : glyph? ⟨mixedSegments⟩ 35 = none := rfl
  refine ⟨ascending, ordered, last, listed 10 rfl (by decide), array, missing, ?_, ?_⟩
  · exact (served 35 array).resolve_left (by simp [missing])
  · rw [covered]
    decide

/-- A final mark is not listed. -/
example : characters ⟨[⟨10, 12, 5, 0⟩, ⟨0xffff, 0xffff, 1, 0⟩]⟩ = [10, 11, 12] := by decide

end SegmentMap

end OutlineFont
