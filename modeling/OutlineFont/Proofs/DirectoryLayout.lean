import OutlineFont.Directory
import OutlineFont.Proofs.StoredNumbers

/-!
# The layout of table directories

A directory is read exactly when a fixed layout of numbers lies inside the file:
a header that tells where it starts, as many records as it counts, and the bytes
that each of its records claims.
-/

namespace OutlineFont

namespace TableRecord

/-- The record whose first byte is at an offset. -/
def storedAt (data : Bytes) (offset : Nat) : TableRecord where
  tag := ⟨Bytes.word data offset⟩
  checksum := Bytes.word data (offset + 4)
  offset := Bytes.word data (offset + 8)
  length := Bytes.word data (offset + 12)

/-- Records stored one after the other. -/
def storedFrom (data : Bytes) (offset count : Nat) : List TableRecord :=
  (List.range count).map fun index => storedAt data (offset + 16 * index)

theorem storedFrom_succ (data : Bytes) (offset count : Nat) :
    storedFrom data offset (count + 1) =
      storedAt data offset :: storedFrom data (offset + 16) count :=
  Bytes.map_range_succ (storedAt data) offset 16 count

variable {cursor next : Cursor}

/-- A record is read when it lies inside the file, and its table does. -/
theorem read_eq_ok_iff {entry : TableRecord} :
    read cursor = .ok entry next ↔
      cursor.offset + 16 ≤ cursor.data.size ∧ entry = storedAt cursor.data cursor.offset ∧
        entry.stop ≤ cursor.data.size ∧ next = { cursor with offset := cursor.offset + 16 } := by
  unfold read
  simp only [bind_eq_ok_iff, Reader.u32_eq_ok_iff, get_eq_ok_iff, guard_eq_ok_iff, pure_eq_ok_iff]
  constructor
  · rintro ⟨_, _, ⟨_, rfl, rfl⟩, _, _, ⟨_, rfl, rfl⟩, _, _, ⟨_, rfl, rfl⟩, _, _, ⟨room, rfl, rfl⟩,
      _, _, ⟨rfl, rfl⟩, inside, rfl, rfl⟩
    exact ⟨room, rfl, Nat.not_lt.mp inside, rfl⟩
  · rintro ⟨room, rfl, inside, rfl⟩
    have tag : cursor.offset + 4 ≤ cursor.data.size := by omega
    have checksum : cursor.offset + 4 + 4 ≤ cursor.data.size := by omega
    have offset : cursor.offset + 4 + 4 + 4 ≤ cursor.data.size := by omega
    exact ⟨_, _, ⟨tag, rfl, rfl⟩, _, _, ⟨checksum, rfl, rfl⟩, _, _, ⟨offset, rfl, rfl⟩, _, _,
      ⟨room, rfl, rfl⟩, _, _, ⟨rfl, rfl⟩, Nat.not_lt.mpr inside, rfl, rfl⟩

/-- Records in a row are read when all their tables lie inside the file. -/
theorem times_read_eq_ok_iff {count : Nat} {entries : List TableRecord}
    (room : cursor.offset + 16 * count ≤ cursor.data.size) :
    Reader.times count read cursor = .ok entries next ↔
      entries = storedFrom cursor.data cursor.offset count ∧
        (∀ entry ∈ entries, entry.stop ≤ cursor.data.size) ∧
        next = { cursor with offset := cursor.offset + 16 * count } := by
  induction count generalizing cursor entries with
  | zero =>
      rw [Reader.times, List.replicate_zero, List.mapM_nil, pure_eq_ok_iff]
      constructor
      · rintro ⟨rfl, rfl⟩
        exact ⟨rfl, fun _ none => absurd none List.not_mem_nil, rfl⟩
      · rintro ⟨rfl, _, rfl⟩
        exact ⟨rfl, rfl⟩
  | succ count ih =>
      have onward : cursor.offset + 16 + 16 * count = cursor.offset + 16 * (count + 1) := by omega
      unfold Reader.times at ih ⊢
      rw [List.replicate_succ, List.mapM_cons, storedFrom_succ, ← onward]
      simp only [bind_eq_ok_iff, read_eq_ok_iff, pure_eq_ok_iff]
      constructor
      · rintro ⟨_, _, ⟨_, rfl, inside, rfl⟩, others, _, following, rfl, rfl⟩
        obtain ⟨rfl, others, rfl⟩ := (ih (onward ▸ room)).mp following
        exact ⟨rfl, List.forall_mem_cons.mpr ⟨inside, others⟩, rfl⟩
      · rintro ⟨rfl, inside, rfl⟩
        obtain ⟨first, others⟩ := List.forall_mem_cons.mp inside
        exact ⟨_, _, ⟨by omega, rfl, first, rfl⟩, _, _,
          (ih (onward ▸ room)).mpr ⟨rfl, others, rfl⟩, rfl, rfl⟩

end TableRecord

namespace Directory

def storedCount (data : Bytes) (start : Nat) : Nat :=
  Bytes.stored data (start + 4) 2

/-- A directory of a known version, with all its records and all their tables inside the file. -/
structure WellFormed (data : Bytes) (start : Nat) : Prop where
  known : isFontVersion (Bytes.word data start)
  room : start + 12 + 16 * storedCount data start ≤ data.size
  inside : ∀ entry ∈ TableRecord.storedFrom data (start + 12) (storedCount data start),
    entry.stop ≤ data.size

/-- The directory that is stored at an offset. -/
def storedAt (data : Bytes) (start : Nat) : Directory where
  start := start
  version := Bytes.word data start
  records := TableRecord.storedFrom data (start + 12) (storedCount data start)

theorem read_eq_ok_iff {data : Bytes} {start : Nat} {directory : Directory} {next : Cursor} :
    read ⟨data, start⟩ = .ok directory next ↔
      WellFormed data start ∧ directory = storedAt data start ∧
        next = ⟨data, start + 12 + 16 * storedCount data start⟩ := by
  unfold read
  simp only [bind_eq_ok_iff, Reader.u32_eq_ok_iff, Reader.u16_eq_ok_iff, Reader.skip_eq_ok_iff,
    get_eq_ok_iff, guard_eq_ok_iff, pure_eq_ok_iff]
  constructor
  · rintro ⟨_, _, ⟨rfl, rfl⟩, _, _, ⟨_, rfl, rfl⟩, known, count, _, ⟨_, same, rfl⟩, _, _, ⟨_, rfl⟩,
      _, _, ⟨rfl, rfl⟩, room, records, _, following, rfl, rfl⟩
    have same : count.toNat = storedCount data start := same
    have room : start + 12 + 16 * storedCount data start ≤ data.size := by
      unfold headerSize recordSize at room
      dsimp only at room
      omega
    rw [same] at following
    obtain ⟨rfl, inside, rfl⟩ := (TableRecord.times_read_eq_ok_iff room).mp following
    exact ⟨⟨by simpa using known, room, inside⟩, rfl, rfl⟩
  · rintro ⟨⟨known, room, inside⟩, rfl, rfl⟩
    have count : (UInt16.ofNat (storedCount data start)).toNat = storedCount data start :=
      UInt16.toNat_ofNat_of_lt' (Bytes.stored_lt data (start + 4) 2)
    have header : start + 12 ≤ data.size := by omega
    refine ⟨_, _, ⟨rfl, rfl⟩, _, _, ⟨by dsimp only; omega, rfl, rfl⟩, by simpa using known,
      .ofNat (storedCount data start), _, ⟨by dsimp only; omega, count, rfl⟩, (), _,
      ⟨header, rfl⟩, _, _, ⟨rfl, rfl⟩, ?_, _, _, ?_, rfl, rfl⟩
    · unfold headerSize recordSize
      rw [count]
      dsimp only
      omega
    · rw [count]
      exact (TableRecord.times_read_eq_ok_iff room).mpr ⟨rfl, inside, rfl⟩

end Directory

namespace Collection

def storedOffsets (data : Bytes) : List UInt32 :=
  (List.range (Bytes.word data 8).toNat).map fun index => Bytes.word data (12 + 4 * index)

/-- A collection of a known version, with its list inside the file. -/
structure WellFormed (data : Bytes) : Prop where
  known : Bytes.word data 4 = 0x00010000 ∨ Bytes.word data 4 = 0x00020000
  room : 12 + 4 * (Bytes.word data 8).toNat ≤ data.size

/-- The numbers of a list are found in the bytes that were taken for it. -/
theorem mapM_u32At_extract {data : Bytes} {start count : Nat}
    (room : start + 4 * count ≤ data.size) :
    (List.range count).mapM (fun index =>
        Bytes.u32At (data.extract start (start + count * 4)) (4 * index)) =
      .ok ((List.range count).map fun index => Bytes.word data (start + 4 * index)) := by
  apply exceptMapM_of_forall_mem
  intro index below
  have below := List.mem_range.mp below
  rw [Bytes.u32At_eq_ok_iff_word, Array.size_extract, Bytes.word, Bytes.word,
    Bytes.stored_extract (by omega)]
  exact ⟨by omega, rfl⟩

theorem offsets_eq_ok_iff {data : Bytes} {starts : List UInt32} :
    offsets data = .ok starts ↔ WellFormed data ∧ starts = storedOffsets data := by
  unfold offsets readOffsets
  simp only [Reader.outcome_eq_ok_iff, bind_eq_ok_iff, Reader.u32_eq_ok_iff,
    Reader.bytes_eq_ok_iff, guard_eq_ok_iff, Reader.accept_eq_ok_iff, ne_eq, ← not_or, not_not]
  constructor
  · rintro ⟨_, _, _, ⟨_, rfl, rfl⟩, known, _, _, ⟨_, rfl, rfl⟩, _, _, ⟨room, rfl, rfl⟩, found, rfl⟩
    have room : 12 + 4 * (Bytes.word data 8).toNat ≤ data.size := by
      rw [Nat.mul_comm]
      exact room
    cases found.symm.trans (mapM_u32At_extract room)
    exact ⟨⟨known, room⟩, rfl⟩
  · rintro ⟨⟨known, room⟩, rfl⟩
    have version : 4 + 4 ≤ data.size := by omega
    have counted : 4 + 4 + 4 ≤ data.size := by omega
    have listed : 4 + 4 + 4 + (Bytes.word data 8).toNat * 4 ≤ data.size := by omega
    exact ⟨_, _, _, ⟨version, rfl, rfl⟩, known, _, _, ⟨counted, rfl, rfl⟩, _, _,
      ⟨listed, rfl, rfl⟩, mapM_u32At_extract room, rfl⟩

end Collection

/-! ### Where directories start -/

/-- Where the fonts of a file start; a single font starts with the file. -/
def fontStarts (data : Bytes) : Except FontError (List Nat) := do
  let version ← Bytes.u32At data 0
  if version = collectionVersion then
    return (← Collection.offsets data).map (·.toNat)
  else if isFontVersion version then
    return [0]
  else
    throw (.malformedHeader .unknownVersion)

theorem fontCount_eq (data : Bytes) : fontCount data = (fontStarts data).map List.length := by
  unfold fontCount fontStarts
  cases Bytes.u32At data 0 with
  | error failure => rfl
  | ok version =>
      simp only [bind, Except.bind]
      split
      · cases Collection.offsets data with
        | error failure => rfl
        | ok starts => exact congrArg Except.ok (List.length_map ..).symm
      · split
        · rfl
        · rfl

theorem directoryOffset_eq (data : Bytes) (index : Nat) :
    directoryOffset data index = (fontStarts data).bind fun starts =>
      match starts[index]? with
      | some start => .ok start
      | none => .error (.outOfRange .font index starts.length) := by
  unfold directoryOffset fontStarts
  cases Bytes.u32At data 0 with
  | error failure => rfl
  | ok version =>
      simp only [bind, Except.bind]
      split
      · cases Collection.offsets data with
        | error failure => rfl
        | ok starts =>
            simp only [pure, Except.pure, List.getElem?_map, List.length_map]
            cases starts[index]? <;> rfl
      · split
        · cases index <;> rfl
        · rfl

/-- The font of a file at an index has its directory at an offset. -/
inductive Locates (data : Bytes) : (index start : Nat) → Prop where
  | single (room : 4 ≤ data.size) (known : isFontVersion (Bytes.word data 0)) : Locates data 0 0
  | shared {index : Nat} (tagged : Bytes.word data 0 = collectionVersion)
      (sound : Collection.WellFormed data) (below : index < (Bytes.word data 8).toNat) :
      Locates data index (Bytes.word data (12 + 4 * index)).toNat

theorem fontStarts_eq_ok_iff {data : Bytes} {starts : List Nat} :
    fontStarts data = .ok starts ↔
      4 ≤ data.size ∧
        ((Bytes.word data 0 = collectionVersion ∧ Collection.WellFormed data ∧
            starts = (Collection.storedOffsets data).map (·.toNat)) ∨
          (isFontVersion (Bytes.word data 0) ∧ starts = [0])) := by
  unfold fontStarts
  simp only [exceptBind_eq_ok_iff, Bytes.u32At_eq_ok_iff_word]
  constructor
  · rintro ⟨version, ⟨room, rfl⟩, found⟩
    refine ⟨room, ?_⟩
    split at found
    next tagged =>
      obtain ⟨offsets, listed, found⟩ := exceptBind_eq_ok_iff.mp found
      obtain ⟨sound, rfl⟩ := Collection.offsets_eq_ok_iff.mp listed
      cases found
      exact .inl ⟨tagged, sound, rfl⟩
    next =>
      split at found
      next known =>
        cases found
        exact .inr ⟨known, rfl⟩
      next => cases found
  · rintro ⟨room, ⟨tagged, sound, rfl⟩ | ⟨known, rfl⟩⟩
    · refine ⟨_, ⟨room, rfl⟩, ?_⟩
      rw [if_pos tagged, Collection.offsets_eq_ok_iff.mpr ⟨sound, rfl⟩]
      rfl
    · refine ⟨_, ⟨room, rfl⟩, ?_⟩
      have single : Bytes.word data 0 ≠ collectionVersion := by
        intro tagged
        rw [tagged] at known
        cases known
      rw [if_neg single, if_pos known]
      rfl

theorem directoryOffset_eq_ok_iff {data : Bytes} {index start : Nat} :
    directoryOffset data index = .ok start ↔ Locates data index start := by
  rw [directoryOffset_eq]
  constructor
  · intro found
    obtain ⟨starts, listed, found⟩ := exceptBind_eq_ok_iff.mp found
    cases nth : starts[index]? with
    | none =>
        rw [nth] at found
        cases found
    | some other =>
        rw [nth] at found
        cases found
        obtain ⟨room, ⟨tagged, sound, rfl⟩ | ⟨known, rfl⟩⟩ := fontStarts_eq_ok_iff.mp listed
        · obtain ⟨below, same⟩ := List.getElem?_eq_some_iff.mp nth
          simp only [Collection.storedOffsets, List.length_map, List.length_range] at below
          simp only [Collection.storedOffsets, List.getElem_map, List.getElem_range] at same
          exact same ▸ .shared tagged sound below
        · obtain ⟨below, same⟩ := List.getElem?_eq_some_iff.mp nth
          obtain rfl : index = 0 := Nat.lt_one_iff.mp below
          cases same
          exact .single room known
  · rintro (⟨room, known⟩ | ⟨tagged, sound, below⟩)
    · rw [fontStarts_eq_ok_iff.mpr ⟨room, .inr ⟨known, rfl⟩⟩]
      rfl
    · have room := sound.room
      rw [fontStarts_eq_ok_iff.mpr ⟨by omega, .inl ⟨tagged, sound, rfl⟩⟩]
      simp [Except.bind, Collection.storedOffsets, below]

/-! ### Failures -/

/-- Whether a failure is one of reading a header. -/
def FontError.concernsHeader : FontError → Bool
  | .malformedHeader _ | .truncated _ => true
  | _ => false

/-- A reader that can only fail as the reading of a header fails. -/
abbrev Reader.ReadsHeader {α : Type} (reader : Reader α) : Prop :=
  FailsWith (fun failure => FontError.concernsHeader failure) reader

namespace Reader

theorem readsHeader_u32 : ReadsHeader u32 :=
  failsWith_u32 fun _ => rfl

theorem readsHeader_u16 : ReadsHeader u16 :=
  failsWith_u16 fun _ => rfl

theorem readsHeader_bytes (length : Nat) : ReadsHeader (bytes length) :=
  failsWith_bytes (fun _ => rfl) length

theorem readsHeader_skip (length : Nat) : ReadsHeader (skip length) :=
  failsWith_skip (fun _ => rfl) length

end Reader

theorem TableRecord.readsHeader_read : Reader.ReadsHeader read :=
  Reader.readsHeader_u32.bind fun _ => Reader.readsHeader_u32.bind fun _ =>
    Reader.readsHeader_u32.bind fun _ => Reader.readsHeader_u32.bind fun _ =>
      FailsWith.get.bind fun _ => .guard rfl (.pure _)

theorem Directory.readsHeader_read : Reader.ReadsHeader read :=
  FailsWith.get.bind fun _ => Reader.readsHeader_u32.bind fun _ =>
    .guard rfl <| Reader.readsHeader_u16.bind fun _ => (Reader.readsHeader_skip 6).bind fun _ =>
      FailsWith.get.bind fun _ => .guard rfl <|
        (FailsWith.mapM (fun _ => TableRecord.readsHeader_read) _).bind fun _ => .pure _

theorem Collection.readsHeader_readOffsets : Reader.ReadsHeader readOffsets := by
  refine Reader.readsHeader_u32.bind fun _ => .guard rfl <| Reader.readsHeader_u32.bind fun count =>
    (Reader.readsHeader_bytes _).bind fun stored => ?_
  intro cursor failure next failed
  unfold Reader.accept at failed
  split at failed
  next => cases failed
  next fault found =>
    cases failed
    obtain ⟨_, _, short⟩ := exists_of_exceptMapM_eq_error found
    exact Bytes.u32At_error short ▸ rfl

theorem fontStarts_error {data : Bytes} {failure : FontError}
    (failed : fontStarts data = .error failure) : failure.concernsHeader := by
  unfold fontStarts at failed
  rcases exceptBind_eq_error_iff.mp failed with short | ⟨version, _, failed⟩
  · exact Bytes.u32At_error short ▸ rfl
  · split at failed
    · rcases exceptBind_eq_error_iff.mp failed with listing | ⟨_, _, impossible⟩
      · obtain ⟨next, listing⟩ := Reader.outcome_eq_error_iff.mp listing
        exact Collection.readsHeader_readOffsets _ _ _ listing
      · cases impossible
    · split at failed
      · cases failed
      · cases failed
        rfl

/-- The directory of a font is out of range exactly when its index is not below the count. -/
theorem directoryOffset_eq_outOfRange_iff {data : Bytes} {index position limit : Nat}
    {what : Indexed} :
    directoryOffset data index = .error (.outOfRange what position limit) ↔
      what = .font ∧ position = index ∧ fontCount data = .ok limit ∧ limit ≤ index := by
  rw [directoryOffset_eq, fontCount_eq]
  cases listed : fontStarts data with
  | error failure =>
      refine iff_of_false (fun failed => ?_) (fun both => nomatch both.2.2.1)
      cases failed
      -- A list of fonts that cannot be read is never reported as an index out of range.
      cases fontStarts_error listed
  | ok starts =>
      simp only [Except.bind, Except.map, Except.ok.injEq]
      cases nth : starts[index]? with
      | some start =>
          have below := (List.getElem?_eq_some_iff.mp nth).1
          exact iff_of_false nofun (fun both => by omega)
      | none =>
          have beyond := List.getElem?_eq_none_iff.mp nth
          constructor
          · intro same
            cases same
            exact ⟨rfl, rfl, rfl, beyond⟩
          · rintro ⟨rfl, rfl, rfl, _⟩
            rfl

namespace Directory

theorem parse_eq_ok_iff {data : Bytes} {index : Nat} {directory : Directory} :
    parse data index = .ok directory ↔
      ∃ start, Locates data index start ∧ WellFormed data start ∧
        directory = storedAt data start := by
  unfold parse
  simp only [exceptBind_eq_ok_iff, directoryOffset_eq_ok_iff, Reader.outcome_eq_ok_iff,
    read_eq_ok_iff]
  constructor
  · rintro ⟨start, located, _, sound, rfl, _⟩
    exact ⟨start, located, sound, rfl⟩
  · rintro ⟨start, located, sound, rfl⟩
    exact ⟨start, located, _, sound, rfl, rfl⟩

theorem parse_eq_outOfRange_iff {data : Bytes} {index position limit : Nat} {what : Indexed} :
    parse data index = .error (.outOfRange what position limit) ↔
      what = .font ∧ position = index ∧ fontCount data = .ok limit ∧ limit ≤ index := by
  rw [← directoryOffset_eq_outOfRange_iff, parse, exceptBind_eq_error_iff]
  constructor
  · rintro (located | ⟨start, _, failed⟩)
    · exact located
    · obtain ⟨next, failed⟩ := Reader.outcome_eq_error_iff.mp failed
      cases readsHeader_read _ _ _ failed
  · exact .inl

/-- A file whose fonts cannot be counted has no directory either, for the same reason. -/
theorem parse_of_fontCount_error {data : Bytes} {failure : FontError}
    (failed : fontCount data = .error failure) (index : Nat) :
    parse data index = .error failure := by
  rw [fontCount_eq] at failed
  unfold parse
  rw [directoryOffset_eq]
  cases listed : fontStarts data with
  | ok starts =>
      rw [listed] at failed
      cases failed
  | error first =>
      rw [listed] at failed
      cases failed
      rfl

/-- The bytes of a table of a well-formed directory can be taken. -/
theorem slice_of_find? {data : Bytes} {start : Nat} (sound : WellFormed data start) {tag : Tag}
    {entry : TableRecord} (found : (storedAt data start).find? tag = some entry) :
    Bytes.slice data entry.start entry.length.toNat = .ok (data.extract entry.start entry.stop) :=
  Bytes.slice_of_le (sound.inside entry (List.mem_of_find?_eq_some found))

/--
A directory is read exactly when the file has one at the index, and this is of
a known version and lies in the file with all its records and their tables.  It
then holds the stored records, and looking a table up takes the bytes that its
first record claims.  An index is reported as out of range exactly when the
fonts can be counted and it is not below their count, and if they cannot be
counted no directory is read for the same reason.
-/
theorem parse_accepts_wellFormed (data : Bytes) (index : Nat) :
    (∀ directory, parse data index = .ok directory ↔
      ∃ start, Locates data index start ∧ WellFormed data start ∧
        directory = storedAt data start) ∧
    (∀ directory, parse data index = .ok directory → ∀ tag,
      match directory.records.find? fun entry => entry.tag = tag with
      | some entry =>
          entry.stop ≤ data.size ∧
          directory.table data tag = .ok (data.extract entry.start entry.stop) ∧
          directory.optionalTable data tag = .ok (data.extract entry.start entry.stop)
      | none =>
          directory.table data tag = .error (.missingTable tag) ∧
          directory.optionalTable data tag = .ok #[]) ∧
    (∀ what position limit,
      parse data index = .error (.outOfRange what position limit) ↔
        what = .font ∧ position = index ∧ fontCount data = .ok limit ∧ limit ≤ index) ∧
    ∀ failure, fontCount data = .error failure → parse data index = .error failure := by
  refine ⟨fun _ => parse_eq_ok_iff, ?_, fun _ _ _ => parse_eq_outOfRange_iff,
    fun _ failed => parse_of_fontCount_error failed index⟩
  intro directory parsed tag
  obtain ⟨start, _, sound, rfl⟩ := parse_eq_ok_iff.mp parsed
  unfold table optionalTable
  rw [← find?]
  cases found : (storedAt data start).find? tag with
  | none => exact ⟨rfl, rfl⟩
  | some entry =>
      have taken := slice_of_find? sound found
      exact ⟨sound.inside entry (List.mem_of_find?_eq_some found), taken, taken⟩

/-- A collection of one font, which has control values and nothing else. -/
def oneFont : Bytes :=
  #[0x74, 0x74, 0x63, 0x66, 0, 1, 0, 0, 0, 0, 0, 1, 0, 0, 0, 16,
    0, 1, 0, 0, 0, 1, 0, 0, 0, 0, 0, 0,
    0x63, 0x76, 0x74, 0x20, 0, 0, 0, 0, 0, 0, 0, 44, 0, 0, 0, 2,
    0xff, 0x38]

/-- The directory of the only font is read, its table is found, and there is no second font. -/
theorem parse_accepts_oneFont :
    (∃ directory, parse oneFont 0 = .ok directory ∧
      directory.table oneFont Tag.cvt = .ok #[0xff, 0x38]) ∧
    parse oneFont 1 = .error (.outOfRange .font 1 1) := by
  have located : Locates oneFont 0 16 :=
    .shared (by decide +kernel) ⟨by decide +kernel, by decide +kernel⟩ (by decide +kernel)
  have sound : WellFormed oneFont 16 :=
    ⟨by decide +kernel, by decide +kernel, by decide +kernel⟩
  obtain ⟨accepts, lookup, -, -⟩ := parse_accepts_wellFormed oneFont 0
  obtain ⟨-, -, outOfRange, -⟩ := parse_accepts_wellFormed oneFont 1
  have parsed := (accepts (storedAt oneFont 16)).mpr ⟨16, located, sound, rfl⟩
  have taken := (lookup _ parsed Tag.cvt).2.1
  exact ⟨⟨_, parsed, taken⟩, (outOfRange _ _ _).mpr ⟨rfl, rfl, by decide +kernel, Nat.le_refl 1⟩⟩

end Directory

end OutlineFont
