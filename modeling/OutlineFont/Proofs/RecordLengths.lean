import OutlineFont.Proofs.EndPoints

/-!
# Where simple records end

How long a simple record is, it says itself: in its end points, in the length of
its program, in its flags and in the forms of its differences.  Nothing that is
read depends on what comes behind the record, and a record that breaks off is
found truncated, whatever the byte at which it does.
-/

namespace OutlineFont

namespace Reader

variable {α β : Type}

/--
A reader takes exactly these bytes, wherever they stand, and finds a byte string
truncated that ends before all of them were there.
-/
structure Delimits (reader : Reader α) (bytes : List UInt8) (value : α) : Prop where
  takes : Takes reader bytes value
  truncated (before shown hidden : List UInt8) (split : bytes = shown ++ hidden)
    (broken : hidden ≠ []) :
    ∃ offset cursor, reader ⟨(before ++ shown).toArray, before.length⟩ =
      .error (.truncated offset) cursor

namespace Delimits

theorem pure (value : α) : Delimits (pure value) [] value where
  takes := .pure value
  truncated _ _ _ split broken := absurd (List.append_eq_nil_iff.mp split.symm).2 broken

/-- Two readers in a row find a string truncated in the bytes of the first or of the second. -/
theorem bind {first : Reader α} {next : α → Reader β} {front back : List UInt8} {value : α}
    {result : β} (delimitsFront : Delimits first front value)
    (delimitsBack : Delimits (next value) back result) :
    Delimits (first >>= next) (front ++ back) result where
  takes := delimitsFront.takes.bind delimitsBack.takes
  truncated before shown hidden split broken := by
    have second (more : List UInt8) (whole : shown = front ++ more) (rest : back = more ++ hidden) :
        ∃ offset cursor, (first >>= next) ⟨(before ++ shown).toArray, before.length⟩ =
          .error (.truncated offset) cursor := by
      have start := delimitsFront.takes before more
      obtain ⟨offset, cursor, failed⟩ :=
        delimitsBack.truncated (before ++ front) more hidden rest broken
      rw [List.length_append] at failed
      rw [whole, ← List.append_assoc]
      exact ⟨offset, cursor, (bind_of_ok start).trans failed⟩
    rcases List.append_eq_append_iff.mp split with ⟨more, whole, rest⟩ | ⟨lost, whole, rest⟩
    · exact second more whole rest
    · rcases List.eq_nil_or_concat lost with none | ⟨others, byte, some⟩
      · subst none
        simp only [List.append_nil, List.nil_append] at whole rest
        exact second [] (by simp [whole]) (by simp [rest])
      · have missing : lost ≠ [] := by simp [some]
        obtain ⟨offset, cursor, failed⟩ :=
          delimitsFront.truncated before shown lost whole missing
        exact ⟨offset, cursor, bind_of_error failed⟩

theorem bytes (content : List UInt8) :
    Delimits (bytes content.length) content content.toArray where
  takes := .bytes content
  truncated before shown hidden split broken := by
    have some := List.length_pos_iff.mpr broken
    have outside : (before ++ shown).toArray.size < before.length + content.length := by
      simp only [List.size_toArray, List.length_append, split]
      omega
    refine ⟨before.length, ⟨(before ++ shown).toArray, before.length⟩, ?_⟩
    simp only [Reader.bytes, Bytes.slice_of_lt outside]

variable {reader : Reader α} {content : List UInt8} {value : α}

theorem outcome_append (delimits : Delimits reader content value) (behind : List UInt8) :
    reader.outcome (content ++ behind).toArray 0 = .ok value :=
  outcome_eq_ok_iff.mpr ⟨_, delimits.takes [] behind⟩

theorem outcome_take (delimits : Delimits reader content value) {size : Nat}
    (less : size < content.length) :
    ∃ offset, reader.outcome (content.take size).toArray 0 = .error (.truncated offset) := by
  have broken : content.drop size ≠ [] := by simp [less]
  obtain ⟨offset, cursor, failed⟩ :=
    delimits.truncated [] _ _ (List.take_append_drop size content).symm broken
  exact ⟨offset, outcome_eq_error_iff.mpr ⟨cursor, failed⟩⟩

end Delimits

/-- Whatever a reader returns, it has moved over bytes that by themselves say where they end. -/
def SelfDelimiting (reader : Reader α) : Prop :=
  Yields reader fun value bytes => Delimits reader bytes value

namespace SelfDelimiting

variable {reader : Reader α}

theorem pure (value : α) : SelfDelimiting (pure value) :=
  Yields.pure (.pure value)

theorem bind {next : α → Reader β} (first : SelfDelimiting reader)
    (second : ∀ value, SelfDelimiting (next value)) : SelfDelimiting (reader >>= next) :=
  Yields.bind first fun value _ delimitsFront =>
    (second value).mono fun _ _ delimitsBack => delimitsFront.bind delimitsBack

theorem map (change : α → β) (first : SelfDelimiting reader) :
    SelfDelimiting (change <$> reader) := by
  rw [map_eq_pure_bind]
  exact first.bind fun value => pure (change value)

/-- A check that fails returns nothing, and one that does not fail reads nothing. -/
theorem guard {fault : Prop} [Decidable fault] {failure : FontError} {never : α → Reader β}
    {work : Reader β} (delimits : SelfDelimiting work) :
    SelfDelimiting (if fault then throw failure >>= never else work) := by
  by_cases found : fault
  · rw [if_pos found]
    intro _ _ _ _ impossible
    cases impossible
  · rw [if_neg found]
    exact delimits

theorem accept (result : Except FontError α) : SelfDelimiting (accept result) := by
  cases result with
  | ok value => exact pure value
  | error failure => exact Yields.throw failure _

theorem bytes (length : Nat) : SelfDelimiting (bytes length) := by
  refine (Yields.bytes length).mono ?_
  rintro _ content ⟨rfl, rfl⟩
  exact .bytes content

theorem number (width : Nat) : SelfDelimiting (number width) := by
  rw [number_eq_map]
  exact (bytes width).map _

theorem u8 : SelfDelimiting u8 :=
  (number 1).map _

theorem u16 : SelfDelimiting u16 :=
  (number 2).map _

theorem i16 : SelfDelimiting i16 :=
  (number 2).map _

end SelfDelimiting

end Reader

open Reader (Delimits SelfDelimiting)

theorem DeltaForm.selfDelimiting_read (form : DeltaForm) : SelfDelimiting form.read := by
  cases form with
  | word => exact .i16
  | zero => exact .pure 0
  | negativeByte => exact SelfDelimiting.u8.map _
  | positiveByte => exact SelfDelimiting.u8.map _

theorem RecordHeader.selfDelimiting_read : SelfDelimiting RecordHeader.read :=
  SelfDelimiting.i16.bind fun _ =>
    (SelfDelimiting.i16.bind fun _ => SelfDelimiting.i16.bind fun _ =>
      SelfDelimiting.i16.bind fun _ => SelfDelimiting.i16.bind fun _ => .pure _).bind
        fun _ => .pure _

namespace SimpleGlyph

theorem selfDelimiting_readEndPoints (id : UInt16) (count : Nat) (seen : List Nat) :
    SelfDelimiting (readEndPoints id count seen) := by
  induction count generalizing seen with
  | zero => exact .pure _
  | succ count ih =>
      rw [readEndPoints]
      exact SelfDelimiting.u16.bind fun last => .guard (ih _)

theorem selfDelimiting_readInstructions : SelfDelimiting readInstructions :=
  SelfDelimiting.u16.bind fun length => .bytes length.toNat

theorem selfDelimiting_readFlags (id : UInt16) (rounds missing : Nat) (seen : List PointFlag) :
    SelfDelimiting (readFlags id rounds missing seen) := by
  induction rounds generalizing missing seen with
  | zero => exact .pure _
  | succ rounds ih =>
      cases missing with
      | zero => exact .pure _
      | succ missing =>
          rw [readFlags]
          refine SelfDelimiting.u8.bind fun flag => ?_
          dsimp only
          split
          · exact SelfDelimiting.u8.bind fun further => .guard (ih _ _)
          · exact ih _ _

theorem selfDelimiting_readCoordinates (forms : List DeltaForm) (previous : Int16)
    (seen : List Int16) : SelfDelimiting (readCoordinates forms previous seen) := by
  induction forms generalizing previous seen with
  | nil => exact .pure _
  | cons form rest ih =>
      rw [readCoordinates]
      exact form.selfDelimiting_read.bind fun difference => ih _ _

/-- No part of a record is read otherwise for what stands behind it. -/
theorem selfDelimiting_read (id : UInt16) (count : Nat) (metrics : Metrics) :
    SelfDelimiting (SimpleGlyph.read id count metrics) := by
  unfold SimpleGlyph.read
  split
  · exact .pure _
  · exact (selfDelimiting_readEndPoints id count []).bind fun endPoints =>
      selfDelimiting_readInstructions.bind fun instructions =>
      (selfDelimiting_readFlags id _ _ []).bind fun flags =>
      (selfDelimiting_readCoordinates _ 0 []).bind fun xs =>
      (selfDelimiting_readCoordinates _ 0 []).bind fun ys =>
      (SelfDelimiting.accept _).bind fun contours => .pure _

/-- Read a simple record from its header on. -/
def readRecord (id : UInt16) : Reader Glyph := do
  let header ← RecordHeader.read
  SimpleGlyph.read id header.contourCount.toInt.toNat header.metrics

theorem selfDelimiting_readRecord (id : UInt16) : SelfDelimiting (readRecord id) :=
  RecordHeader.selfDelimiting_read.bind fun _ => selfDelimiting_read id _ _

theorem exists_header_of_readRecord {id : UInt16} {bytes : List UInt8} {glyph : Glyph}
    (delimits : Delimits (readRecord id) bytes glyph) :
    ∃ (header : RecordHeader) (body : List UInt8), bytes = header.encode ++ body := by
  obtain ⟨header, cursor, start, -⟩ := bind_eq_ok_iff.mp (delimits.takes [] [])
  rw [List.nil_append] at start
  obtain ⟨_, body, split, rfl, -⟩ := RecordHeader.yields_read [] (bytes ++ []) header cursor start
  exact ⟨header, body, by rw [← split, List.append_nil]⟩

end SimpleGlyph

theorem Bytes.extract_append_of_le (front back : List UInt8) {size : Nat}
    (inside : size ≤ front.length) :
    (front ++ back).toArray.extract 0 size = (front.take size).toArray := by
  simp [List.take_append_of_le_length inside]

namespace RecordHeader

theorem length_encode (header : RecordHeader) : header.encode.length = 10 := by
  simp [encode, Metrics.encode, length_bigEndianBytes]

/-- Where a header stands, no other one is read. -/
theorem eq_of_read {header other : RecordHeader} {shown more rest : List UInt8} {cursor : Cursor}
    (start : read ⟨shown.toArray, 0⟩ = .ok other cursor)
    (same : shown ++ more = header.encode ++ rest) : other = header := by
  obtain ⟨_, behind, rfl, rfl, -⟩ := yields_read [] shown other cursor start
  rw [List.append_assoc] at same
  exact (other.takes_read.unique header.takes_read same).1

end RecordHeader

theorem Resolver.readFrom_of_error {α : Type} {reader : Reader α} {cursor next : Cursor}
    {failure : FontError} (failed : reader cursor = .error failure next) (trail : Trail) :
    readFrom cursor reader trail = .error failure trail := by
  simp only [readFrom, failed]

namespace GlyphTable

variable {table : GlyphTable} {id : UInt16} {data : Bytes}

/-- A glyph whose record is not that of a composite glyph is decoded by reading its record. -/
theorem decode_eq_outcome (found : table.record? id = .ok (some data))
    (simple : ∀ header cursor, RecordHeader.read ⟨data, 0⟩ = .ok header cursor →
      0 ≤ header.contourCount) :
    table.decode id = (SimpleGlyph.readRecord id).outcome data 0 := by
  have record : Resolver.accept (table.record? id) .empty = .ok (some data) .empty := by
    rw [found]
    rfl
  unfold decode decodeTracing nestingLimit resolve resolveWith Reader.outcome
    SimpleGlyph.readRecord
  rw [bind_of_ok record]
  dsimp only
  cases start : RecordHeader.read ⟨data, 0⟩ with
  | error failure cursor =>
      rw [bind_of_error start, bind_of_error (Resolver.readFrom_of_error start _)]
  | ok header cursor =>
      rw [bind_of_ok start, bind_of_ok (Resolver.readFrom_eq_ok_iff.mpr ⟨start, rfl⟩)]
      dsimp only
      rw [if_pos (simple header cursor start)]
      cases content : SimpleGlyph.read id header.contourCount.toInt.toNat header.metrics cursor with
      | error failure next =>
          rw [bind_of_error (Resolver.readFrom_of_error content _)]
      | ok glyph next =>
          rw [bind_of_ok (Resolver.readFrom_eq_ok_iff.mpr ⟨content, rfl⟩)]
          rfl

/-- That a record is simple is told by its header, with whatever comes behind or is missing. -/
theorem decode_eq_outcome_of_header {header : RecordHeader} (simple : 0 ≤ header.contourCount)
    {shown more rest : List UInt8} (same : shown ++ more = header.encode ++ rest)
    (found : table.record? id = .ok (some shown.toArray)) :
    table.decode id = (SimpleGlyph.readRecord id).outcome shown.toArray 0 := by
  refine decode_eq_outcome found ?_
  intro other cursor start
  rw [RecordHeader.eq_of_read start same]
  exact simple

/--
A simple record that decodes has a length.  Any record that starts with the bytes
up to there decodes to the same glyph, whatever comes behind them, and any that
ends before is found truncated and nothing else.
-/
theorem decode_selfDelimiting {record : Bytes} {count : Int16} {glyph : Glyph}
    (found : table.record? id = .ok (some record)) (counted : Bytes.i16At record 0 = .ok count)
    (simple : 0 ≤ count) (decoded : table.decode id = .ok glyph) :
    ∃ length, 10 ≤ length ∧ length ≤ record.size ∧
      (∀ (other : GlyphTable) (behind : Bytes),
        other.record? id = .ok (some (record.extract 0 length ++ behind)) →
          other.decode id = .ok glyph) ∧
      ∀ (other : GlyphTable) (size : Nat), size < length →
        other.record? id = .ok (some (record.extract 0 size)) →
          ∃ offset, other.decode id = .error (.truncated offset) := by
  have read := decode_eq_outcome found fun header cursor start =>
    (RecordHeader.of_read start counted).1 ▸ simple
  obtain ⟨next, done⟩ := Reader.outcome_eq_ok_iff.mp (read.symm.trans decoded)
  obtain ⟨bytes, behind, whole, delimits, -⟩ :=
    SimpleGlyph.selfDelimiting_readRecord id [] record.toList glyph next done
  obtain ⟨header, body, rfl⟩ := SimpleGlyph.exists_header_of_readRecord delimits
  have written : record = (header.encode ++ body ++ behind).toArray := by
    rw [← whole]
  have front : 0 ≤ header.contourCount := by
    have start := header.takes_read [] (body ++ behind)
    rw [List.nil_append, ← List.append_assoc, ← written] at start
    rw [(RecordHeader.of_read start counted).1]
    exact simple
  refine ⟨(header.encode ++ body).length, ?_, ?_, ?_, ?_⟩
  · rw [List.length_append, header.length_encode]
    exact Nat.le_add_right _ _
  · simp [written]
  · intro other behind stored
    rw [written, Bytes.extract_append_of_le _ _ (Nat.le_refl _), List.take_length,
      ← behind.toArray_toList, List.append_toArray] at stored
    have same : header.encode ++ body ++ behind.toList ++ [] =
        header.encode ++ (body ++ behind.toList) := by simp
    rw [decode_eq_outcome_of_header front same stored]
    exact delimits.outcome_append behind.toList
  · intro other size less stored
    rw [written, Bytes.extract_append_of_le _ _ less.le] at stored
    rw [decode_eq_outcome_of_header front (List.take_append_drop _ _) stored]
    exact delimits.outcome_take less

/-- The table whose only glyph has this record. -/
def single (record : Bytes) : GlyphTable where
  data := record
  locations := ⟨(bigEndianBytes 4 0 ++ bigEndianBytes 4 record.size).toArray, .long, 1⟩

/-- Any byte string that is not empty is the record of a glyph. -/
theorem record?_single {record : Bytes} (filled : 0 < record.size) (fits : record.size < 2 ^ 32) :
    (single record).record? 0 = .ok (some record) := by
  have size : (UInt32.ofNat record.size).toNat = record.size := UInt32.toNat_ofNat_of_lt' fits
  have first := Bytes.word_append [] 0 (bigEndianBytes 4 record.size)
  have second := Bytes.word_append (bigEndianBytes 4 0) (.ofNat record.size) []
  rw [size, List.append_nil, length_bigEndianBytes] at second
  have start : (single record).locations.location 0 = .ok 0 := by
    have read := Bytes.u32At_eq_ok_iff_word.mpr ⟨by simp [length_bigEndianBytes], first.symm⟩
    exact exceptMap_eq_ok_iff.mpr ⟨0, read, rfl⟩
  have stop : (single record).locations.location 1 = .ok record.size := by
    have read := Bytes.u32At_eq_ok_iff_word.mpr ⟨by simp [length_bigEndianBytes], second.symm⟩
    exact exceptMap_eq_ok_iff.mpr ⟨_, read, size⟩
  have located : (single record).locations.range 0 = .ok ⟨0, record.size⟩ := by
    have known : ¬(single record).locations.glyphCount ≤ 0 := by simp [single]
    have ascends : ¬record.size < 0 := Nat.not_lt_zero _
    rw [GlyphLocations.range, if_neg known]
    refine exceptBind_eq_ok_iff.mpr ⟨0, start, exceptBind_eq_ok_iff.mpr ⟨_, stop, ?_⟩⟩
    rw [if_neg ascends]
    rfl
  refine exceptBind_eq_ok_iff.mpr ⟨_, located, ?_⟩
  rw [if_neg filled.ne]
  simp [single, pure, Except.pure]

/-- A triangle whose flags are one run, with a program of one byte and three bytes behind it. -/
def paddedRecord : Bytes :=
  #[0, 1, 0, 0, 0, 0, 0, 9, 0, 9, 0, 2, 0, 1, 0x4F, 0x3F, 2, 0, 9, 0, 0, 0, 9, 1, 2, 3]

/-- The first nine bytes of the record are a truncated one, and other bytes may follow it. -/
theorem decode_selfDelimiting_paddedRecord :
    ∃ glyph length, (single paddedRecord).decode 0 = .ok glyph ∧ glyph.pointCount = 3 ∧
      10 ≤ length ∧ length ≤ 26 ∧
      (single (paddedRecord.extract 0 length ++ #[7])).decode 0 = .ok glyph ∧
      ∃ offset, (single (paddedRecord.extract 0 9)).decode 0 = .error (.truncated offset) := by
  have found : (single paddedRecord).record? 0 = .ok (some paddedRecord) := by decide +kernel
  have points : ((single paddedRecord).decode 0).map (·.pointCount) = .ok 3 := by decide +kernel
  have counted : Bytes.i16At paddedRecord 0 = .ok 1 := by decide +kernel
  obtain ⟨glyph, decoded, three⟩ := exceptMap_eq_ok_iff.mp points
  obtain ⟨length, least, greatest, continued, broken⟩ :=
    decode_selfDelimiting found counted (by decide) decoded
  refine ⟨glyph, length, decoded, three, least, greatest, ?_, ?_⟩
  · refine continued _ #[7] (record?_single ?_ ?_)
    · simp
    · have size : paddedRecord.size = 26 := rfl
      simp only [Array.size_append, Array.size_extract, size, List.size_toArray, List.length_cons,
        List.length_nil]
      omega
  · exact broken _ 9 least (record?_single (by decide) (by decide))

end GlyphTable

end OutlineFont
