import OutlineFont.Proofs.CellGrid

/-!
# The geometry of a mask

A mask lies over the box of a glyph, with one cell more on each axis than are
needed to cover the box.  Its cells are looked up, counted and written out row by
row, and these three views of it agree.
-/

namespace OutlineFont

open List

namespace Mask

/-! ### Views of the cells -/

/-- The cells of a mask are as many as its sides ask for. -/
def Full (mask : Mask) : Prop :=
  mask.cells.size = mask.width * mask.height

def filledAt (mask : Mask) (x y : Nat) : Bool :=
  mask.get? x y = some true

theorem filledAt_iff (mask : Mask) (x y : Nat) :
    mask.filledAt x y = true ↔ mask.get? x y = some true :=
  decide_eq_true_iff

def row (mask : Mask) (y : Nat) : List Bool :=
  (range mask.width).map fun x => mask.filledAt x y

namespace Full

variable {mask : Mask} (full : mask.Full)

include full

theorem exists_get? {x y : Nat} (xWithin : x < mask.width) (yWithin : y < mask.height) :
    ∃ filled, mask.get? x y = some filled ∧ mask.cells[y * mask.width + x]? = some filled := by
  have whole := Nat.mul_le_mul_left mask.width (Nat.succ_le_of_lt yWithin)
  have inside : y * mask.width + x < mask.cells.size := by
    rw [full]
    rw [Nat.mul_succ, Nat.mul_comm mask.width y] at whole
    omega
  have found := Array.getElem?_eq_getElem inside
  unfold get?
  rw [if_pos ⟨xWithin, yWithin⟩]
  exact ⟨_, found, found⟩

theorem isSome_get?_iff (x y : Nat) :
    (mask.get? x y).isSome ↔ x < mask.width ∧ y < mask.height := by
  by_cases within : x < mask.width ∧ y < mask.height
  · obtain ⟨filled, found, _⟩ := full.exists_get? within.1 within.2
    rw [found]
    exact iff_of_true rfl within
  · unfold get?
    rw [if_neg within]
    exact iff_of_false Bool.false_ne_true within

theorem getElem?_cells {x y : Nat} (xWithin : x < mask.width) (yWithin : y < mask.height) :
    mask.cells[y * mask.width + x]? = some (mask.filledAt x y) := by
  obtain ⟨filled, found, stored⟩ := full.exists_get? xWithin yWithin
  rw [stored, filledAt, found]
  cases filled <;> rfl

/-- The cells stand row by row. -/
theorem toList_cells : mask.cells.toList =
    (range mask.height ×ˢ range mask.width).map fun place => mask.filledAt place.2 place.1 := by
  have rows : ((range mask.height ×ˢ range mask.width).map fun place =>
        mask.filledAt place.2 place.1) =
      (range mask.height).flatMap fun y => (range mask.width).map fun x => mask.filledAt x y := by
    change ((range mask.height).flatMap fun y => (range mask.width).map (Prod.mk y)).map _ = _
    rw [map_flatMap]
    simp only [map_map]
    rfl
  have length : mask.cells.toList.length =
      ((range mask.height ×ˢ range mask.width).map fun place =>
        mask.filledAt place.2 place.1).length := by
    rw [Array.length_toList, full, length_map, length_product, length_range, length_range,
      Nat.mul_comm]
  apply ext_getElem?
  intro index
  by_cases within : index < mask.height * mask.width
  · have pos : 0 < mask.width := Nat.pos_of_mul_pos_left (Nat.zero_lt_of_lt within)
    have xWithin := Nat.mod_lt index pos
    have yWithin := Nat.div_lt_of_lt_mul (Nat.mul_comm mask.height mask.width ▸ within)
    have found := Raster.getElem?_flatMap_map (fun y x => mask.filledAt x y) (range mask.height)
      (range mask.width) (index / mask.width) (by rwa [length_range])
    rw [length_range, getElem?_range xWithin, getElem?_range yWithin] at found
    have stored := full.getElem?_cells xWithin yWithin
    rw [Nat.div_add_mod'] at found stored
    rw [rows, found, Array.getElem?_toList, stored]
    rfl
  · rw [getElem?_eq_none (by rw [Array.length_toList, full, Nat.mul_comm]; omega),
      getElem?_eq_none (by rw [← length, Array.length_toList, full, Nat.mul_comm]; omega)]

theorem toList_extract {y : Nat} (within : y < mask.height) :
    (mask.cells.extract (y * mask.width) (y * mask.width + mask.width)).toList = mask.row y := by
  have whole := Nat.mul_le_mul_left mask.width (Nat.succ_le_of_lt within)
  have inside : y * mask.width + mask.width ≤ mask.cells.size := by
    rwa [full, Nat.mul_comm y, ← Nat.mul_succ]
  apply ext_getElem?
  intro x
  rw [Array.getElem?_toList, Array.getElem?_extract, Nat.min_eq_left inside,
    Nat.add_sub_cancel_left, row, getElem?_map]
  by_cases xWithin : x < mask.width
  · rw [if_pos xWithin, full.getElem?_cells xWithin within, getElem?_range xWithin]
    rfl
  · rw [if_neg xWithin, getElem?_eq_none (by rw [length_range]; omega)]
    rfl

/-- As many cells are counted as are filled. -/
theorem filledCount_eq :
    mask.filledCount = {place : Nat × Nat | mask.get? place.1 place.2 = some true}.ncard := by
  -- Places are listed row by row, so each of them has its row first.
  let places := (range mask.height ×ˢ range mask.width).filter fun place =>
    mask.filledAt place.2 place.1
  have distinct : (places.map Prod.swap).Nodup :=
    ((nodup_range.product nodup_range).filter _).map Prod.swap_injective
  have counted : mask.filledCount = (places.map Prod.swap).length := by
    rw [filledCount, ← Array.countP_toList, full.toList_cells, countP_map, length_map,
      ← countP_eq_length_filter]
    rfl
  have same : {place : Nat × Nat | mask.get? place.1 place.2 = some true} =
      ((places.map Prod.swap).toFinset : Set (Nat × Nat)) := by
    ext ⟨x, y⟩
    have within : mask.get? x y = some true → x < mask.width ∧ y < mask.height := by
      intro found
      rw [← full.isSome_get?_iff, found]
      rfl
    rw [Set.mem_ofPred_eq, Finset.mem_coe, mem_toFinset]
    constructor
    · intro found
      obtain ⟨xWithin, yWithin⟩ := within found
      refine mem_map.mpr ⟨(y, x), mem_filter.mpr ⟨?_, ?_⟩, rfl⟩
      · exact mem_product.mpr ⟨mem_range.mpr yWithin, mem_range.mpr xWithin⟩
      · exact (mask.filledAt_iff x y).mpr found
    · intro listed
      obtain ⟨⟨row, column⟩, among, same⟩ := mem_map.mp listed
      cases same
      exact (mask.filledAt_iff _ _).mp (mem_filter.mp among).2
  rw [same, Set.ncard_coe_finset, toFinset_card_of_nodup distinct, counted]

end Full

/-- Lines of characters that show the cells of a mask, the highest row first. -/
structure Shows (lines : List (List Char)) (mask : Mask) : Prop where
  text : mask.text = String.ofList (lines.flatMap (· ++ ['\n']))
  height : lines.length = mask.height
  width : ∀ line ∈ lines, line.length = mask.width
  characters : ∀ line ∈ lines, ∀ character ∈ line, character = '#' ∨ character = '.'
  filled : ∀ x < mask.width, ∀ y < mask.height, ∃ shown character,
    lines[mask.height - 1 - y]? = some shown ∧ shown[x]? = some character ∧
      (character = '#' ↔ mask.get? x y = some true)

/-- A mask is written out line by line. -/
theorem Full.exists_shows {mask : Mask} (full : mask.Full) : ∃ lines, Shows lines mask := by
  let line (y : Nat) : List Char := (mask.row y).map cellCharacter
  have long (y : Nat) : (line y).length = mask.width := by
    rw [length_map, row, length_map, length_range]
  refine ⟨(range mask.height).reverse.map line, ?text, ?height, ?width, ?characters, ?filled⟩
  case text =>
    unfold Mask.text
    rw [flatMap_map]
    congr 1
    refine flatMap_congr fun y listed => ?_
    rw [rowCharacters, full.toList_extract (mem_range.mp (mem_reverse.mp listed))]
  case height => rw [length_map, length_reverse, length_range]
  case width =>
    intro shown listed
    obtain ⟨y, _, rfl⟩ := mem_map.mp listed
    exact long y
  case characters =>
    intro shown listed character among
    obtain ⟨y, _, rfl⟩ := mem_map.mp listed
    obtain ⟨filled, _, rfl⟩ := mem_map.mp among
    cases filled
    · exact .inr rfl
    · exact .inl rfl
  case filled =>
    intro x xWithin y yWithin
    refine ⟨line y, cellCharacter (mask.filledAt x y), ?_, ?_, ?_⟩
    · rw [getElem?_map, getElem?_reverse (by rw [length_range]; omega), length_range,
        show mask.height - 1 - (mask.height - 1 - y) = y by omega, getElem?_range yWithin]
      rfl
    · rw [getElem?_map, row, getElem?_map, getElem?_range xWithin]
      rfl
    · rw [← filledAt_iff]
      cases mask.filledAt x y
      · exact iff_of_false (by decide) Bool.false_ne_true
      · exact iff_of_true rfl rfl

end Mask

namespace Raster

/-! ### Cells over a box -/

/-- Whether an integer can be held in a signed word of thirty-two bits. -/
def IsWord (value : Int) : Prop :=
  Int32.minValue.toInt ≤ value ∧ value ≤ Int32.maxValue.toInt

theorem isWord_of_small {value : Int} (low : -(2 ^ 18) ≤ value) (high : value ≤ 2 ^ 18) :
    IsWord value := by
  have least : Int32.minValue.toInt = -(2 ^ 31) := rfl
  have greatest : Int32.maxValue.toInt = 2 ^ 31 - 1 := rfl
  unfold IsWord
  omega

/-- How the strips of an axis lie over an interval, its ends included. -/
structure Strip.Tile (strip : Nat → Strip Float) (gridSize count : Nat) (low high : Int) :
    Prop where
  offset : ∀ index < count, IsWord (index * gridSize : Nat)
  start : ∀ index < count, IsWord (strip index).start
  center : ∀ index < count, IsWord ((strip index).center gridSize)
  holds : ∀ place, low ≤ place → place ≤ high →
    ∃! index, index < count ∧ (strip index).start ≤ place ∧
      place < (strip index).start + gridSize
  /-- One strip can be spared, and no other, as long as the upper end itself is left out. -/
  least : ∀ fewer, (∀ place, low ≤ place → place < high →
      ∃ index < fewer, (strip index).start ≤ place ∧ place < (strip index).start + gridSize) ↔
    count - 1 ≤ fewer

namespace Rasterizer

/-- The strips over a side of a box of zero or positive size. -/
theorem tile_of_make {rasterizer : Rasterizer}
    (sized : 0 < rasterizer.gridSize ∧ rasterizer.gridSize < 65536) {low high : Int16}
    (sound : low.toInt ≤ high.toInt) {segments : List Segment} {strip : Nat → Strip Float}
    (made : ∀ index, Strip.make segments rasterizer.gridSize low.toInt index = .ok (strip index)) :
    Strip.Tile strip rasterizer.gridSize (rasterizer.cellCount (high.toInt - low.toInt).toNat)
      low.toInt high.toInt := by
  obtain ⟨pos, bounded⟩ := sized
  have starts (index : Nat) :
      (strip index).start = cellStart rasterizer.gridSize low.toInt index :=
    Strip.start_of_make (made index)
  have lowBound : -32768 ≤ low.toInt := low.minValue_le_toInt
  have highBound : high.toInt ≤ 32767 := high.toInt_le
  refine ⟨?offset, ?start, ?center, ?holds, ?least⟩
  case offset =>
    intro index within
    have begins := index_mul_le pos within
    exact isWord_of_small (by omega) (by omega)
  case start =>
    intro index within
    have begins := index_mul_le pos within
    rw [starts]
    unfold cellStart
    exact isWord_of_small (by omega) (by omega)
  case center =>
    intro index within
    have begins := index_mul_le pos within
    unfold Strip.center
    rw [starts]
    unfold cellStart
    exact isWord_of_small (by omega) (by omega)
  case holds =>
    intro place above below
    have before : place < cellStart rasterizer.gridSize low.toInt
        (rasterizer.cellCount (high.toInt - low.toInt).toNat) := by
      have ends := lt_cellCount_mul pos (high.toInt - low.toInt).toNat
      unfold cellStart
      omega
    simp only [starts]
    exact existsUnique_cell above before
  case least =>
    intro fewer
    simp only [starts]
    rw [covers_iff pos sound, Nat.sub_le_iff_le_add]

theorem full_maskOf (rasterizer : Rasterizer) (metrics : Metrics) (row column : Nat → Strip Float) :
    (rasterizer.maskOf metrics row column).Full := by
  unfold Mask.Full maskOf
  rw [size_toArray, length_flatMap]
  simp only [length_map, length_range, map_const', sum_replicate, smul_eq_mul]
  exact Nat.mul_comm _ _

/--
The strips of a mask lie over the box of the glyph in words of thirty-two bits:
every integer of the box lies in one row and in one column, and no more than the
last of each can be spared.  The mask has the cells that its sides say, as many
filled ones as are counted, and it is written out as it is looked up.
-/
theorem rasterize_geometry {gridSize : Nat} {unitsPerEm : UInt16} {rasterizer : Rasterizer}
    (created : create gridSize unitsPerEm = .ok rasterizer) {glyph : Glyph}
    (wide : 0 ≤ glyph.metrics.width) (tall : 0 ≤ glyph.metrics.height) :
    ∃ mask segments, ∃ row column : Nat → Strip Float,
      rasterizer.rasterize glyph = .ok mask ∧
      Segment.ofGlyph glyph = .ok segments ∧
      (∀ index, Strip.make segments gridSize glyph.metrics.minY.toInt index = .ok (row index)) ∧
      (∀ index, Strip.make (segments.map (·.transpose)) gridSize glyph.metrics.minX.toInt index =
        .ok (column index)) ∧
      Strip.Tile row gridSize mask.height glyph.metrics.minY.toInt glyph.metrics.maxY.toInt ∧
      Strip.Tile column gridSize mask.width glyph.metrics.minX.toInt glyph.metrics.maxX.toInt ∧
      (∀ x y, (mask.get? x y).isSome ↔ x < mask.width ∧ y < mask.height) ∧
      mask.filledCount =
        {place : Nat × Nat | mask.get? place.1 place.2 = some true}.ncard ∧
      ∃ lines, Mask.Shows lines mask := by
  have sized := gridSize_of_create created
  obtain rfl : rasterizer.gridSize = gridSize := gridSize_eq_of_create created
  have sound : ¬(glyph.metrics.width < 0 ∨ glyph.metrics.height < 0) := by omega
  obtain ⟨segments, found, _⟩ := Segment.exists_ofGlyph_stored glyph
  obtain ⟨row, column, rowMade, columnMade, made⟩ : ∃ row column : Nat → Strip Float, _ :=
    rasterizer.exists_rasterizeIn_eq_maskOf sound found
  have full := rasterizer.full_maskOf glyph.metrics row column
  exact ⟨_, segments, row, column, made, found, rowMade, columnMade,
    tile_of_make sized (Int.sub_nonneg.mp tall) rowMade,
    tile_of_make sized (Int.sub_nonneg.mp wide) columnMade, full.isSome_get?_iff,
    full.filledCount_eq, full.exists_shows⟩

/-- A glyph without an outline whose box reaches as far as boxes can. -/
def vastBlank : Glyph :=
  ⟨⟨-32768, -32768, 32767, 32767⟩, #[], []⟩

/-- The largest cells over the largest box. -/
theorem rasterize_geometry_vastBlank :
    create 65535 65535 = .ok ⟨65535⟩ ∧ 0 ≤ vastBlank.metrics.width ∧
    0 ≤ vastBlank.metrics.height ∧
    ∃ mask, ∃ row column : Nat → Strip Float, rasterize ⟨65535⟩ vastBlank = .ok mask ∧
      Strip.Tile row 65535 mask.height (-32768) 32767 ∧
      Strip.Tile column 65535 mask.width (-32768) 32767 ∧
      (∀ x y, (mask.get? x y).isSome ↔ x < mask.width ∧ y < mask.height) ∧
      mask.filledCount = {place : Nat × Nat | mask.get? place.1 place.2 = some true}.ncard ∧
      ∃ lines, Mask.Shows lines mask := by
  have created : create 65535 65535 = .ok ⟨65535⟩ := rfl
  have wide : 0 ≤ vastBlank.metrics.width := by decide
  have tall : 0 ≤ vastBlank.metrics.height := by decide
  obtain ⟨mask, _, row, column, made, _, _, _, rows, columns, views⟩ :=
    rasterize_geometry created wide tall
  exact ⟨created, wide, tall, mask, row, column, made, rows, columns, views⟩

end Rasterizer

end Raster

end OutlineFont
