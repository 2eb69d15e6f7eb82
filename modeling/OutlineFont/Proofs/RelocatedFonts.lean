import OutlineFont.Font
import OutlineFont.Proofs.DirectoryLayout

/-!
# Fonts that were moved into a collection

A collection can hold a copy of a font file, in which the directory points at the
places that the tables have in the collection.  All tables are found again, and
so the font is read as before, and does what it did before.
-/

namespace OutlineFont

/-- The record of a table that lies further on. -/
def TableRecord.movedBy (base : Nat) (entry : TableRecord) : TableRecord :=
  { entry with offset := .ofNat (entry.start + base) }

@[simp] theorem TableRecord.length_movedBy (base : Nat) (entry : TableRecord) :
    (entry.movedBy base).length = entry.length :=
  rfl

namespace Directory

def size (directory : Directory) : Nat :=
  headerSize + recordSize * directory.records.length

/-- The directory of a font that lies further on. -/
def movedBy (base : Nat) (directory : Directory) : Directory :=
  { directory with
    start := directory.start + base
    records := directory.records.map (·.movedBy base) }

theorem find?_movedBy (directory : Directory) (base : Nat) (tag : Tag) :
    (directory.movedBy base).find? tag = (directory.find? tag).map (·.movedBy base) :=
  List.find?_map

/-- Whether a byte is one of those that tell the offsets of the first tables. -/
def IsOffsetByte (count place : Nat) : Prop :=
  ∃ index < count, 20 + 16 * index ≤ place ∧ place < 24 + 16 * index

instance (count place : Nat) : Decidable (IsOffsetByte count place) :=
  inferInstanceAs (Decidable (∃ index < count, _))

end Directory

/--
A file holds a font file from some place on, but for the offsets of so many
tables, which tell where the tables lie in the file that holds it.
-/
structure HoldsMoved (file data : Bytes) (base count : Nat) : Prop where
  room : base + data.size ≤ file.size
  same : ∀ place < data.size, ¬Directory.IsOffsetByte count place →
    file[base + place]? = data[place]?
  moved : ∀ index < count, (Bytes.word file (base + (20 + 16 * index))).toNat =
    (Bytes.word data (20 + 16 * index)).toNat + base

namespace HoldsMoved

variable {file data : Bytes} {base count : Nat}

theorem extract_eq (holds : HoldsMoved file data base count) {start stop : Nat}
    (inside : stop ≤ data.size)
    (apart : ∀ place, start ≤ place → place < stop → ¬Directory.IsOffsetByte count place) :
    file.extract (base + start) (base + stop) = data.extract start stop :=
  Bytes.extract_congr fun place low high => holds.same place (by omega) (apart place low high)

theorem stored_eq (holds : HoldsMoved file data base count) {offset width : Nat}
    (inside : offset + width ≤ data.size)
    (apart : ∀ place, offset ≤ place → place < offset + width →
      ¬Directory.IsOffsetByte count place) :
    Bytes.stored file (base + offset) width = Bytes.stored data offset width := by
  rw [Bytes.stored, Bytes.stored, Nat.add_assoc, holds.extract_eq inside apart]

theorem word_eq (holds : HoldsMoved file data base count) {offset : Nat}
    (inside : offset + 4 ≤ data.size)
    (apart : ∀ place, offset ≤ place → place < offset + 4 →
      ¬Directory.IsOffsetByte count place) :
    Bytes.word file (base + offset) = Bytes.word data offset := by
  rw [Bytes.word, Bytes.word, holds.stored_eq inside apart]

/-- The numbers of a record are the same, but for the third one. -/
theorem field_eq (holds : HoldsMoved file data base count) (index field : Nat)
    (inside : 16 + field + 16 * index ≤ data.size) (within : field ≤ 12)
    (other : field + 4 ≤ 8 ∨ 12 ≤ field) :
    Bytes.word file (base + (12 + field + 16 * index)) =
      Bytes.word data (12 + field + 16 * index) := by
  refine holds.word_eq (by omega) ?_
  rintro place _ _ ⟨another, _, _, _⟩
  omega

/-- Of a record only the offset differs. -/
theorem record_eq (holds : HoldsMoved file data base count) {index : Nat} (below : index < count)
    (inside : 12 + 16 * count ≤ data.size) :
    TableRecord.storedAt file (base + (12 + 16 * index)) =
      (TableRecord.storedAt data (12 + 16 * index)).movedBy base := by
  have tag := holds.field_eq index 0 (by omega) (by omega) (by omega)
  have checksum := holds.field_eq index 4 (by omega) (by omega) (by omega)
  have length := holds.field_eq index 12 (by omega) (by omega) (by omega)
  have offset : Bytes.word file (base + (20 + 16 * index)) =
      .ofNat ((Bytes.word data (20 + 16 * index)).toNat + base) := by
    rw [← holds.moved index below, UInt32.ofNat_toNat]
  have onward (start : Nat) (width : Nat) :
      base + (start + 16 * index) + width = base + (start + width + 16 * index) := by omega
  unfold TableRecord.storedAt TableRecord.movedBy TableRecord.start
  simp only [onward, Nat.add_right_comm 12, tag, checksum, length, offset]

theorem storedCount_eq (holds : HoldsMoved file data base count) (inside : 12 ≤ data.size) :
    Directory.storedCount file base = Directory.storedCount data 0 := by
  refine holds.stored_eq (by omega) ?_
  rintro place _ _ ⟨index, _, _, _⟩
  omega

end HoldsMoved

namespace Directory

variable {file data : Bytes} {base : Nat}

theorem storedAt_of_holdsMoved (holds : HoldsMoved file data base (storedCount data 0))
    (sound : WellFormed data 0) : storedAt file base = (storedAt data 0).movedBy base := by
  have room := sound.room
  have version : Bytes.word file (base + 0) = Bytes.word data 0 := by
    refine holds.word_eq (by omega) ?_
    rintro place _ _ ⟨index, _, _, _⟩
    omega
  rw [Nat.add_zero] at version
  have records : TableRecord.storedFrom file (base + 12) (storedCount data 0) =
      (TableRecord.storedFrom data 12 (storedCount data 0)).map (·.movedBy base) := by
    unfold TableRecord.storedFrom
    rw [List.map_map]
    apply List.map_congr_left
    intro index listed
    rw [Nat.add_assoc]
    exact holds.record_eq (List.mem_range.mp listed) (by omega)
  unfold storedAt movedBy
  rw [holds.storedCount_eq (by omega), version, records, Nat.zero_add]

/-- The offset that a record has in the file is not cut off. -/
theorem start_of_holdsMoved (holds : HoldsMoved file data base (storedCount data 0))
    {entry : TableRecord} (listed : entry ∈ (storedAt data 0).records) :
    (entry.movedBy base).start = entry.start + base := by
  obtain ⟨index, below, rfl⟩ := List.mem_map.mp listed
  have below := List.mem_range.mp below
  have moved := holds.moved index below
  have offset : 0 + 12 + 16 * index + 8 = 20 + 16 * index := by omega
  simp only [TableRecord.movedBy, TableRecord.start, TableRecord.storedAt, offset]
  rw [← moved, UInt32.ofNat_toNat]

theorem wellFormed_of_holdsMoved (holds : HoldsMoved file data base (storedCount data 0))
    (sound : WellFormed data 0) : WellFormed file base := by
  have room := sound.room
  have larger := holds.room
  have same := storedAt_of_holdsMoved holds sound
  have version : Bytes.word file base = Bytes.word data 0 := congrArg Directory.version same
  have records : TableRecord.storedFrom file (base + 12) (storedCount file base) =
      (storedAt data 0).records.map (·.movedBy base) := congrArg Directory.records same
  refine ⟨version ▸ sound.known, ?_, ?_⟩
  · rw [holds.storedCount_eq (by omega)]
    omega
  · intro moved among
    rw [records] at among
    obtain ⟨entry, listed, rfl⟩ := List.mem_map.mp among
    have inside := sound.inside entry listed
    have start := start_of_holdsMoved holds listed
    unfold TableRecord.stop at inside ⊢
    rw [start, TableRecord.length_movedBy]
    omega

/-- The bytes of a table are the same, if the table was apart from its directory. -/
theorem slice_of_holdsMoved (holds : HoldsMoved file data base (storedCount data 0))
    (sound : WellFormed data 0) {entry : TableRecord} (listed : entry ∈ (storedAt data 0).records)
    (apart : ∀ place, entry.start ≤ place → place < entry.stop → (storedAt data 0).size ≤ place) :
    Bytes.slice file (entry.movedBy base).start (entry.movedBy base).length.toNat =
      Bytes.slice data entry.start entry.length.toNat := by
  have inside := sound.inside entry listed
  have larger := holds.room
  have size : (storedAt data 0).size = 12 + 16 * storedCount data 0 := by
    simp [Directory.size, storedAt, TableRecord.storedFrom, headerSize, recordSize]
  have same := holds.extract_eq inside fun place low high => by
    rintro ⟨index, below, _, _⟩
    have := apart place low high
    omega
  have within : entry.start + base + entry.length.toNat ≤ file.size := by
    unfold TableRecord.stop at inside
    omega
  rw [start_of_holdsMoved holds listed, TableRecord.length_movedBy, Bytes.slice_of_le inside,
    Bytes.slice_of_le within, Nat.add_comm entry.start, Nat.add_assoc]
  exact congrArg Except.ok same

theorem table_of_holdsMoved (holds : HoldsMoved file data base (storedCount data 0))
    (sound : WellFormed data 0)
    (apart : ∀ entry ∈ (storedAt data 0).records, ∀ place, entry.start ≤ place →
      place < entry.stop → (storedAt data 0).size ≤ place) (tag : Tag) :
    ((storedAt data 0).movedBy base).table file tag = (storedAt data 0).table data tag ∧
      ((storedAt data 0).movedBy base).optionalTable file tag =
        (storedAt data 0).optionalTable data tag := by
  unfold table optionalTable
  rw [find?_movedBy]
  cases found : (storedAt data 0).find? tag with
  | none => exact ⟨rfl, rfl⟩
  | some entry =>
      have listed := List.mem_of_find?_eq_some found
      have same := slice_of_holdsMoved holds sound listed (apart entry listed)
      exact ⟨same, same⟩

end Directory

/-- The only font of a file that is not a collection starts with the file. -/
theorem Locates.eq_zero {data : Bytes} {index start : Nat} (located : Locates data index start)
    (single : isFontVersion (Bytes.word data 0)) : start = 0 := by
  cases located with
  | single => rfl
  | shared tagged =>
      rw [tagged] at single
      cases single

theorem Locates.of_offsets {file : Bytes} {starts : List UInt32} {index : Nat} {start : UInt32}
    (tagged : Bytes.word file 0 = collectionVersion)
    (listed : Collection.offsets file = .ok starts) (nth : starts[index]? = some start) :
    Locates file index start.toNat := by
  obtain ⟨sound, rfl⟩ := Collection.offsets_eq_ok_iff.mp listed
  obtain ⟨below, rfl⟩ := List.getElem?_eq_some_iff.mp nth
  simp only [Collection.storedOffsets, List.length_map, List.length_range] at below
  simp only [Collection.storedOffsets, List.getElem_map, List.getElem_range]
  exact .shared tagged sound below

/-! ### Fonts over their tables -/

namespace Noted

variable {α β : Type}

theorem outcome_map (change : α → β) (work : Noted α) :
    (change <$> work).outcome = work.outcome.map change := by
  simp only [outcome, Functor.map, EStateM.map]
  cases work .silent <;> rfl

/-- Without notes, only the directory is left of reading one. -/
theorem outcome_directory_bind (data : Bytes) (index : Nat) (next : Directory → Noted β) :
    (directory data index >>= next).outcome =
      (Directory.parse data index).bind fun directory => (next directory).outcome := by
  unfold outcome directory
  cases found : Directory.parse data index <;> rfl

end Noted

namespace Font

/-- Read the tables of a font, wherever they come from. -/
def assemble (table optionalTable : Tag → Except FontError Bytes) (directory : Directory) :
    Noted Font := do
  let header ← Noted.accept (FontHeader.parse (← Noted.accept (table .head)))
  let profile ← Noted.accept (MaximumProfile.parse (← Noted.accept (table .maxp)))
  let characters ← Noted.characterMap (← Noted.accept (table .cmap))
  let locations := ⟨← Noted.accept (table .loca), header.locationFormat, profile.glyphCount⟩
  let glyphs := ⟨← Noted.accept (table .glyf), locations⟩
  let controlValues ← Noted.accept
    (ControlValues.parse (← Noted.accept (optionalTable .cvt)))
  let fontProgram ← Noted.accept (optionalTable .fpgm)
  let controlValueProgram ← Noted.accept (optionalTable .prep)
  return ⟨directory, header, profile, characters, glyphs, controlValues, fontProgram,
    controlValueProgram⟩

theorem read_eq (data : Bytes) (index : Nat) :
    read data index = Noted.directory data index >>= fun directory =>
      assemble (directory.table data) (directory.optionalTable data) directory :=
  rfl

/-- The directory is kept with the font, and plays no part beyond its tables. -/
theorem assemble_eq_map (table optionalTable : Tag → Except FontError Bytes)
    (directory other : Directory) :
    assemble table optionalTable other =
      (fun font => { font with directory := other }) <$>
        assemble table optionalTable directory := by
  simp only [assemble, map_bind, map_pure]

/-- A font whose tables are found elsewhere is the same font, but for its directory. -/
theorem parse_eq_map {data file : Bytes} {index position : Nat} {directory other : Directory}
    (here : Directory.parse data index = .ok directory)
    (there : Directory.parse file position = .ok other)
    (tables : ∀ tag, other.table file tag = directory.table data tag ∧
      other.optionalTable file tag = directory.optionalTable data tag) :
    parse file position =
      (parse data index).map fun font => { font with directory := other } := by
  unfold parse
  rw [read_eq, read_eq, Noted.outcome_directory_bind, Noted.outcome_directory_bind, here, there]
  simp only [Except.bind]
  rw [funext fun tag => (tables tag).1, funext fun tag => (tables tag).2,
    assemble_eq_map _ _ directory other, Noted.outcome_map]

/--
A font file, whose tables are apart from its directory, was copied into a
collection where the collection says, and its directory points at the tables
there.  Then this directory is read, with the same version, and with the same
records in the same order but for the offsets, which are larger.  Every table
has the bytes that it had.  The font cannot be read for the same reasons as
before, and if it can then it maps characters, decodes and draws as before.
-/
theorem parse_of_holdsMoved {data file : Bytes} {directory : Directory}
    (single : isFontVersion (Bytes.word data 0)) (parsed : Directory.parse data 0 = .ok directory)
    (apart : ∀ entry ∈ directory.records, ∀ place, entry.start ≤ place → place < entry.stop →
      directory.size ≤ place)
    {starts : List UInt32} {index : Nat} {start : UInt32}
    (tagged : Bytes.word file 0 = collectionVersion)
    (listed : Collection.offsets file = .ok starts) (nth : starts[index]? = some start)
    (holds : HoldsMoved file data start.toNat directory.records.length) :
    ∃ other : Directory, Directory.parse file index = .ok other ∧
      other.start = start.toNat ∧ other.version = directory.version ∧
      other.records = directory.records.map (fun entry =>
        { entry with offset := .ofNat (entry.offset.toNat + start.toNat) }) ∧
      (∀ entry ∈ directory.records, entry.offset.toNat + start.toNat < 2 ^ 32) ∧
      (∀ tag, other.table file tag = directory.table data tag ∧
        other.optionalTable file tag = directory.optionalTable data tag) ∧
      (∀ failure, parse file index = .error failure ↔ parse data 0 = .error failure) ∧
      (∀ copy, parse file index = .ok copy ↔
        ∃ font, parse data 0 = .ok font ∧ copy = { font with directory := other }) ∧
      ∀ font copy, parse data 0 = .ok font → parse file index = .ok copy →
        copy.glyph? = font.glyph? ∧ copy.decode = font.decode ∧
          copy.renderGlyph = font.renderGlyph ∧ copy.render = font.render := by
  obtain ⟨origin, located, sound, rfl⟩ := Directory.parse_eq_ok_iff.mp parsed
  obtain rfl : origin = 0 := located.eq_zero single
  have count : (Directory.storedAt data 0).records.length = Directory.storedCount data 0 := by
    simp [Directory.storedAt, TableRecord.storedFrom]
  rw [count] at holds
  have same := Directory.storedAt_of_holdsMoved holds sound
  have found : Directory.parse file index =
      .ok ((Directory.storedAt data 0).movedBy start.toNat) :=
    Directory.parse_eq_ok_iff.mpr ⟨_, .of_offsets tagged listed nth,
      Directory.wellFormed_of_holdsMoved holds sound, same.symm⟩
  have tables := Directory.table_of_holdsMoved holds sound apart
  have fonts := parse_eq_map parsed found tables
  refine ⟨_, found, Nat.zero_add _, rfl, rfl, ?_, tables, ?_, ?_, ?_⟩
  · intro entry listed
    have moved := Directory.start_of_holdsMoved holds listed
    have small := (entry.movedBy start.toNat).offset.toNat_lt
    unfold TableRecord.start at moved
    omega
  · intro failure
    rw [fonts]
    cases parse data 0 <;> simp [Except.map]
  · intro copy
    rw [fonts]
    cases parse data 0 <;> simp [Except.map, eq_comm]
  · intro font copy before after
    rw [fonts, before] at after
    cases after
    exact ⟨rfl, rfl, rfl, rfl⟩

/-- A font of two glyphs, the second of which is drawn for a letter, at a place of a file. -/
def smallFontAt (base : UInt8) : List UInt8 :=
  [0, 1, 0, 0, 0, 5, 0, 0, 0, 0, 0, 0,
    0x63, 0x6d, 0x61, 0x70, 0, 0, 0, 0, 0, 0, 0, base + 92, 0, 0, 0, 40,
    0x67, 0x6c, 0x79, 0x66, 0, 0, 0, 0, 0, 0, 0, base + 132, 0, 0, 0, 24,
    0x68, 0x65, 0x61, 0x64, 0, 0, 0, 0, 0, 0, 0, base + 156, 0, 0, 0, 54,
    0x6c, 0x6f, 0x63, 0x61, 0, 0, 0, 0, 0, 0, 0, base + 210, 0, 0, 0, 6,
    0x6d, 0x61, 0x78, 0x70, 0, 0, 0, 0, 0, 0, 0, base + 216, 0, 0, 0, 6,
    0, 0, 0, 1, 0, 3, 0, 10, 0, 0, 0, 12,
    0, 12, 0, 0, 0, 0, 0, 28, 0, 0, 0, 0, 0, 0, 0, 1, 0, 0, 0, 65, 0, 0, 0, 65, 0, 0, 0, 1,
    0, 1, 0, 0, 0, 0, 0, 6, 0, 6, 0, 2, 0, 1, 0x21, 0x37, 0x37, 0x37, 1, 2, 3, 1, 3, 2,
    0, 1, 0, 0, 0, 0, 0, 0, 0, 0, 0, 0, 0x5f, 0x0f, 0x3c, 0xf5, 0, 0, 3, 232,
    0, 0, 0, 0, 0, 0, 0, 0, 0, 0, 0, 0, 0, 0, 0, 0, 0, 0, 0, 0, 0, 0, 0, 0, 0, 0, 0, 0, 0, 0, 0, 0,
    0, 0,
    0, 0, 0, 0, 0, 12,
    0, 0, 0x50, 0, 0, 2]

/-- The font as a file of its own. -/
def smallFont : Bytes :=
  (smallFontAt 0).toArray

/-- The header of a collection of two fonts, of which the second one comes next. -/
def collectionHeader : List UInt8 :=
  [0x74, 0x74, 0x63, 0x66, 0, 1, 0, 0, 0, 0, 0, 2, 0, 0, 0, 99, 0, 0, 0, 20]

/-- The font inside a collection. -/
def smallCollection : Bytes :=
  (collectionHeader ++ smallFontAt 20).toArray

/-- The small font is found in the collection, where it has the same table and draws the same. -/
theorem parse_of_holdsMoved_smallFont :
    ∃ directory font copy, Directory.parse smallCollection 1 = .ok directory ∧
      directory.table smallCollection .loca = .ok #[0, 0, 0, 0, 0, 12] ∧
      parse smallFont 0 = .ok font ∧ (font.glyph? 65 0).outcome = .ok (some 1) ∧
      parse smallCollection 1 = .ok copy ∧ copy.render = font.render := by
  have sound : Directory.WellFormed smallFont 0 :=
    ⟨by decide +kernel, by decide +kernel, by decide +kernel⟩
  have parsed : Directory.parse smallFont 0 = .ok (.storedAt smallFont 0) :=
    Directory.parse_eq_ok_iff.mpr
      ⟨0, .single (by decide +kernel) (by decide +kernel), sound, rfl⟩
  have apart : ∀ entry ∈ (Directory.storedAt smallFont 0).records,
      (Directory.storedAt smallFont 0).size ≤ entry.start := by decide +kernel
  have listed : Collection.offsets smallCollection = .ok [99, 20] := by decide +kernel
  have same : ∀ place < 222, ¬Directory.IsOffsetByte 5 place →
      (smallFontAt 20)[place]? = (smallFontAt 0)[place]? := by decide +kernel
  have holds : HoldsMoved smallCollection smallFont 20
      (Directory.storedAt smallFont 0).records.length := by
    have size : smallFont.size = 222 := by decide +kernel
    have count : (Directory.storedAt smallFont 0).records.length = 5 := by decide +kernel
    rw [count]
    refine ⟨by decide +kernel, fun place below apart => ?_, by decide +kernel⟩
    rw [size] at below
    have behind : collectionHeader.length ≤ 20 + place := Nat.le_add_right 20 place
    have inside : 20 + place - collectionHeader.length = place := Nat.add_sub_cancel_left 20 place
    rw [smallCollection, smallFont, List.getElem?_toArray, List.getElem?_toArray,
      List.getElem?_append_right behind, inside]
    exact same place below apart
  obtain ⟨directory, found, -, -, -, -, tables, -, fonts, behaviour⟩ :=
    parse_of_holdsMoved (by decide +kernel) parsed
      (fun entry listed _ low _ => (apart entry listed).trans low)
      (by decide +kernel) listed (show [99, 20][1]? = some 20 from rfl) holds
  have table : (Directory.storedAt smallFont 0).table smallFont .loca =
      .ok #[0, 0, 0, 0, 0, 12] := by decide +kernel
  have mapped : ((parse smallFont 0).bind fun font => (font.glyph? 65 0).outcome) =
      .ok (some 1) := by decide +kernel
  obtain ⟨font, read, glyph⟩ := exceptBind_eq_ok_iff.mp mapped
  have copied := (fonts _).mpr ⟨font, read, rfl⟩
  exact ⟨directory, font, _, found, (tables .loca).1.trans table, read, glyph, copied,
    (behaviour _ _ read copied).2.2.2⟩

end Font

end OutlineFont
