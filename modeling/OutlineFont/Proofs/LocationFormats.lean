import OutlineFont.Outline.GlyphTable
import OutlineFont.Proofs.ReaderLaws
import OutlineFont.Proofs.Sequencing

/-!
# Formats of locations

Locations are stored halved in two bytes, or whole in four.  Wherever both can be
used the ranges are the same, also of the last glyph and where locations descend.
A glyph is decoded from ranges alone, on every level of its components, so it does
not depend on the format.
-/

namespace OutlineFont

/-- Numbers that are stored one after the other are found at the multiples of their width. -/
theorem Bytes.number_flatMap (before after : List Nat) {width value : Nat}
    (fits : value < 256 ^ width) (behind : List UInt8) :
    number ((before ++ value :: after).flatMap (bigEndianBytes width) ++ behind).toArray
      (before.length * width) width = .ok value := by
  have start : (before.flatMap (bigEndianBytes width)).length = before.length * width := by
    rw [List.length_flatMap, List.map_congr_left fun number _ => length_bigEndianBytes width number]
    simp
  have slice := Reader.Takes.slice_append (before.flatMap (bigEndianBytes width))
    (bigEndianBytes width value) (after.flatMap (bigEndianBytes width) ++ behind)
  rw [start, length_bigEndianBytes] at slice
  rw [number, List.flatMap_append, List.flatMap_cons, List.append_assoc, List.append_assoc,
    ← List.append_assoc, slice]
  exact congrArg Except.ok (bigEndian_bigEndianBytes fits)

namespace GlyphLocations

/-! ### Ranges -/

section

variable {locations : GlyphLocations} {glyph : UInt16}

/-- The range of a glyph lies between its location and the next one. -/
theorem range_eq_ok_iff {range : ByteRange} : locations.range glyph = .ok range ↔
    glyph < locations.glyphCount ∧ locations.location glyph.toNat = .ok range.start ∧
      locations.location (glyph.toNat + 1) = .ok range.stop ∧ range.start ≤ range.stop := by
  unfold GlyphLocations.range
  by_cases above : locations.glyphCount ≤ glyph
  · rw [if_pos above]
    refine iff_of_false nofun ?_
    rintro ⟨below, _⟩
    exact absurd above (UInt16.not_le.mpr below)
  · rw [if_neg above]
    constructor
    · intro found
      obtain ⟨start, first, found⟩ := exceptBind_eq_ok_iff.mp found
      obtain ⟨stop, second, found⟩ := exceptBind_eq_ok_iff.mp found
      split at found
      · cases found
      · next ascends =>
          cases found
          exact ⟨UInt16.not_le.mp above, first, second, Nat.not_lt.mp ascends⟩
    · rintro ⟨_, start, stop, ascends⟩
      refine exceptBind_eq_ok_iff.mpr ⟨_, start, exceptBind_eq_ok_iff.mpr ⟨_, stop, ?_⟩⟩
      rw [if_neg (Nat.not_lt.mpr ascends)]
      rfl

/-- Neighbours share a location, so their ranges meet. -/
theorem stop_eq_start {first second : ByteRange} (found : locations.range glyph = .ok first)
    (next : locations.range (glyph + 1) = .ok second) : first.stop = second.start := by
  obtain ⟨below, -, stop, -⟩ := range_eq_ok_iff.mp found
  obtain ⟨-, start, -, -⟩ := range_eq_ok_iff.mp next
  have neighbour : (glyph + 1).toNat = glyph.toNat + 1 := by
    have bound := locations.glyphCount.toNat_lt
    rw [UInt16.lt_iff_toNat_lt] at below
    rw [UInt16.toNat_add]
    exact Nat.mod_eq_of_lt (by show glyph.toNat + 1 < 65536; omega)
  rw [neighbour, stop] at start
  exact Except.ok.inj start

/-- Tables with as many glyphs and the same locations of these have the same ranges. -/
theorem range_congr {other : GlyphLocations} (count : locations.glyphCount = other.glyphCount)
    (same : ∀ position ≤ locations.glyphCount.toNat,
      locations.location position = other.location position) (glyph : UInt16) :
    locations.range glyph = other.range glyph := by
  unfold GlyphLocations.range
  rw [← count]
  by_cases above : locations.glyphCount ≤ glyph
  · rw [if_pos above, if_pos above]
    rfl
  · rw [UInt16.le_iff_toNat_le, Nat.not_le] at above
    rw [same _ (Nat.le_of_lt above), same _ above]

end

/-! ### Stored locations -/

/-- The bytes of a table of locations in a format, given by the halves of these. -/
def encode (format : LocationFormat) (halves : List UInt16) : List UInt8 :=
  match format with
  | .short => (halves.map (·.toNat)).flatMap (bigEndianBytes 2)
  | .long => (halves.map (2 * ·.toNat)).flatMap (bigEndianBytes 4)

/-- A table of locations in a format, with whatever comes behind the last one. -/
def store (format : LocationFormat) (glyphCount : UInt16) (halves : List UInt16)
    (behind : List UInt8) : GlyphLocations :=
  ⟨(encode format halves ++ behind).toArray, format, glyphCount⟩

variable {glyphCount glyph : UInt16} {halves : List UInt16}

/-- A location is twice its half in either format. -/
theorem location_store (format : LocationFormat) {position : Nat}
    (below : position < halves.length) (behind : List UInt8) :
    (store format glyphCount halves behind).location position =
      .ok (2 * halves[position].toNat) := by
  have parts := List.take_append_drop position halves
  rw [← List.getElem_cons_drop below] at parts
  have length : (halves.take position).length = position := List.length_take_of_le below.le
  generalize halves[position] = half at parts ⊢
  generalize halves.take position = before at parts length
  generalize halves.drop (position + 1) = after at parts
  subst parts length
  have bound : half.toNat < 65536 := half.toNat_lt
  cases format with
  | short =>
      have found := Bytes.number_flatMap (before.map (·.toNat)) (after.map (·.toNat))
        (show half.toNat < 256 ^ 2 from bound) behind
      rw [List.length_map] at found
      simp only [location, store, encode, Bytes.u16At, List.map_append, List.map_cons, found,
        Except.map, UInt16.ofNat_toNat, Nat.mul_comm 2]
  | long =>
      have small : 2 * half.toNat < 256 ^ 4 := by omega
      have found := Bytes.number_flatMap (before.map (2 * ·.toNat)) (after.map (2 * ·.toNat))
        small behind
      rw [List.length_map] at found
      simp only [location, store, encode, Bytes.u32At, List.map_append, List.map_cons, found,
        Except.map, UInt32.toNat_ofNat_of_lt' small]

/-- Two locations that do not descend make a range, in either format. -/
theorem range_store_eq_ok_iff (format : LocationFormat)
    (stored : halves.length = glyphCount.toNat + 1) (behind : List UInt8) {range : ByteRange} :
    (store format glyphCount halves behind).range glyph = .ok range ↔
      ∃ start stop, glyph < glyphCount ∧ halves[glyph.toNat]? = some start ∧
        halves[glyph.toNat + 1]? = some stop ∧ start ≤ stop ∧
          range = ⟨2 * start.toNat, 2 * stop.toNat⟩ := by
  rw [range_eq_ok_iff]
  constructor
  · rintro ⟨below, first, second, ascends⟩
    have inside : glyph.toNat < glyphCount.toNat := UInt16.lt_iff_toNat_lt.mp below
    have here : glyph.toNat < halves.length := stored ▸ Nat.lt_succ_of_lt inside
    have next : glyph.toNat + 1 < halves.length := stored ▸ Nat.succ_lt_succ inside
    rw [location_store format here] at first
    rw [location_store format next] at second
    obtain ⟨start, stop⟩ := range
    obtain rfl := Except.ok.inj first
    obtain rfl := Except.ok.inj second
    refine ⟨_, _, below, List.getElem?_eq_getElem _, List.getElem?_eq_getElem _, ?_, rfl⟩
    rw [UInt16.le_iff_toNat_le]
    exact Nat.le_of_mul_le_mul_left ascends (by decide)
  · rintro ⟨start, stop, below, first, second, ascends, rfl⟩
    obtain ⟨inside, rfl⟩ := List.getElem?_eq_some_iff.mp first
    obtain ⟨insideToo, rfl⟩ := List.getElem?_eq_some_iff.mp second
    rw [UInt16.le_iff_toNat_le] at ascends
    exact ⟨below, location_store format inside behind, location_store format insideToo behind,
      Nat.mul_le_mul_left 2 ascends⟩

/-- The format of a table makes no difference to its ranges. -/
theorem range_store_eq (format other : LocationFormat)
    (stored : halves.length = glyphCount.toNat + 1) (behind after : List UInt8) (glyph : UInt16) :
    (store format glyphCount halves behind).range glyph =
      (store other glyphCount halves after).range glyph := by
  have count : (store format glyphCount halves behind).glyphCount =
    (store other glyphCount halves after).glyphCount := rfl
  refine range_congr count (fun position within => ?_) glyph
  have below : position < halves.length := stored ▸ Nat.lt_succ_of_le within
  rw [location_store format below, location_store other below]

end GlyphLocations

/-! ### Glyphs at the same ranges -/

namespace GlyphTable

section

variable {table other : GlyphTable} (data : table.data = other.data)
  (ranges : ∀ glyph, table.locations.range glyph = other.locations.range glyph)

include data ranges

theorem resolveWith_congr (resolve? : Option (UInt16 → Resolver Glyph)) :
    table.resolveWith resolve? = other.resolveWith resolve? := by
  funext glyph
  unfold resolveWith record?
  rw [data, ranges]

/-- The same records at the same ranges are resolved alike, however deep components nest. -/
theorem resolve_congr (depth : Nat) : table.resolve depth = other.resolve depth := by
  induction depth with
  | zero =>
      unfold resolve
      exact resolveWith_congr data ranges none
  | succ depth ih =>
      unfold resolve
      rw [ih]
      exact resolveWith_congr data ranges _

theorem decodeTracing_congr (glyph : UInt16) :
    table.decodeTracing glyph = other.decodeTracing glyph := by
  unfold decodeTracing
  rw [resolve_congr data ranges]

end

/--
Locations that are even and small enough for both formats mean the same in either.
Every glyph has the same range, which lies between two locations that do not
descend, or it has none for the same reason.  So every glyph is decoded alike, to a
value or to a failure and with the same components met, and so are the components
of a composite glyph at any depth.  In both formats, and with any locations, a
range ends where the next one begins.
-/
theorem decode_formats (records : Bytes) (glyphCount : UInt16) (halves : List UInt16)
    (stored : halves.length = glyphCount.toNat + 1) (behind after : List UInt8) :
    let short := GlyphTable.mk records (.store .short glyphCount halves behind)
    let long := GlyphTable.mk records (.store .long glyphCount halves after)
    (∀ glyph, short.locations.range glyph = long.locations.range glyph) ∧
    (∀ glyph range, short.locations.range glyph = .ok range ↔
      ∃ start stop, glyph < glyphCount ∧ halves[glyph.toNat]? = some start ∧
        halves[glyph.toNat + 1]? = some stop ∧ start ≤ stop ∧
          range = ⟨2 * start.toNat, 2 * stop.toNat⟩) ∧
    (∀ glyph, short.decode glyph = long.decode glyph) ∧
    (∀ glyph, short.decodeTracing glyph = long.decodeTracing glyph) ∧
    (∀ depth glyph, short.resolve depth glyph = long.resolve depth glyph) ∧
    ∀ (locations : GlyphLocations) (glyph : UInt16) (first second : ByteRange),
      locations.range glyph = .ok first → locations.range (glyph + 1) = .ok second →
        first.stop = second.start := by
  intro short long
  have ranges (glyph : UInt16) : short.locations.range glyph = long.locations.range glyph :=
    GlyphLocations.range_store_eq .short .long stored behind after glyph
  have same : short.data = long.data := rfl
  refine ⟨ranges, fun _ _ => GlyphLocations.range_store_eq_ok_iff .short stored behind,
    fun glyph => ?_, decodeTracing_congr same ranges, fun depth => ?_, ?_⟩
  · rw [decode, decode, decodeTracing_congr same ranges]
  · exact congrFun (resolve_congr same ranges depth)
  · exact fun _ _ _ _ => GlyphLocations.stop_eq_start

/-- A point, placed in a composite glyph that another one places, and a location that descends. -/
theorem decode_formats_nested :
    let records : Bytes := #[0, 1, 0, 0, 0, 0, 0, 3, 0, 3, 0, 0, 0, 0, 0x37, 1, 2, 0,
      255, 255, 0, 0, 0, 0, 0, 0, 0, 0, 0, 2, 0, 0, 5, 6,
      255, 255, 0, 0, 0, 0, 0, 0, 0, 0, 0, 2, 0, 1, 1, 1]
    let halves : List UInt16 := [0, 9, 17, 25, 0]
    halves.length = (4 : UInt16).toNat + 1 ∧
    (GlyphTable.mk records (.store .short 4 halves [])).decode 2 =
      (GlyphTable.mk records (.store .long 4 halves [7])).decode 2 ∧
    (GlyphTable.mk records (.store .long 4 halves [7])).decode 2 =
      .ok ⟨⟨0, 0, 0, 0⟩, #[], [⟨[⟨7, 9, true⟩]⟩]⟩ ∧
    (GlyphTable.mk records (.store .short 4 halves [])).decode 3 =
      (GlyphTable.mk records (.store .long 4 halves [7])).decode 3 ∧
    (GlyphTable.mk records (.store .long 4 halves [7])).decode 3 =
      .error (.malformedGlyph 3 .locationsDescend) := by
  intro records halves
  have stored : halves.length = (4 : UInt16).toNat + 1 := rfl
  obtain ⟨-, -, decoded, -⟩ := decode_formats records 4 halves stored [] [7]
  exact ⟨stored, decoded 2, by decide +kernel, decoded 3, by decide +kernel⟩

end GlyphTable

end OutlineFont
