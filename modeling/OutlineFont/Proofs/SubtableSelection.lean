import OutlineFont.CharacterMap
import OutlineFont.Proofs.StoredNumbers

/-!
# The choice of subtables

Records are read one after the other, and of every format the best subtable so
far is kept.  At the end it is the one of the first record for Windows that
points at this format, or if there is none, of the first such record for Unicode.
-/

namespace OutlineFont

/-- The numbers of an encoding record. -/
structure StoredEncoding where
  platform : UInt16
  encoding : UInt16
  start : UInt32
  deriving DecidableEq, Repr

namespace StoredEncoding

/-- The record at an index, in eight bytes after the four of the header. -/
def ofIndex (table : Bytes) (index : Nat) : StoredEncoding where
  platform := .ofNat (Bytes.stored table (4 + 8 * index) 2)
  encoding := .ofNat (Bytes.stored table (6 + 8 * index) 2)
  start := .ofNat (Bytes.stored table (8 + 8 * index) 4)

/-- As many records as the header counts, in file order. -/
def all (table : Bytes) : List StoredEncoding :=
  (List.range (Bytes.stored table 2 2)).map (ofIndex table)

/-- Whether a record is one of the Windows encodings of Unicode. -/
def isWindows (entry : StoredEncoding) : Bool :=
  entry.platform == 3 && (entry.encoding == 1 || entry.encoding == 10)

/-- Whether a record is one of the encodings of the Unicode platform that are used. -/
def isUnicode (entry : StoredEncoding) : Bool :=
  entry.platform == 0 && (entry.encoding == 3 || entry.encoding == 4)

/-- Whether a subtable begins inside the table, with a format number. -/
def hasFormat (table : Bytes) (format : Nat) (entry : StoredEncoding) : Bool :=
  entry.start.toNat + 2 ≤ table.size && Bytes.stored table entry.start.toNat 2 == format

/-- The bytes from the start of a subtable on. -/
def subtable (table : Bytes) (entry : StoredEncoding) : Bytes :=
  table.extract entry.start.toNat table.size

/-- The first record for Windows that points at a format, or else the first one for Unicode. -/
def first? (table : Bytes) (format : Nat) : Option StoredEncoding :=
  ((all table).find? fun entry => entry.isWindows && entry.hasFormat table format).or
    ((all table).find? fun entry => entry.isUnicode && entry.hasFormat table format)

/-- What is read of a record. -/
def toRecord (entry : StoredEncoding) : EncodingRecord :=
  ⟨.ofNumbers entry.platform entry.encoding, entry.start.toNat⟩

end StoredEncoding

theorem Platform.preference?_ofNumbers (platform encoding : UInt16) :
    (ofNumbers platform encoding).preference? =
      if platform = 3 ∧ (encoding = 1 ∨ encoding = 10) then some .preferred
      else if platform = 0 ∧ (encoding = 3 ∨ encoding = 4) then some .fallback
      else none := by
  simp only [← UInt16.toNat_inj]
  unfold ofNumbers UnicodeEncoding.ofNumber WindowsEncoding.ofNumber
  split
  · split <;> simp_all [preference?]
  · simp_all [preference?]
  · simp_all [preference?]
  · split <;> simp_all [preference?]
  · simp_all [preference?]

namespace EncodingRecord

/-- A record inside the table can be read, and any other is missed where it should start. -/
theorem readAt_eq (table : Bytes) (index : Nat) :
    readAt table (4 + size * index) =
      if 4 + 8 * (index + 1) ≤ table.size then
        .ok (StoredEncoding.ofIndex table index).toRecord
      else
        .error (.truncated (4 + 8 * index)) := by
  unfold readAt size
  split
  next inside =>
    have long : 8 ≤ (table.extract (4 + 8 * index) (4 + 8 * index + 8)).size := by
      rw [Array.size_extract]
      omega
    rw [Bytes.slice_of_le (by omega)]
    simp only [bind, Except.bind]
    rw [Bytes.u16At_of_le (by omega), Bytes.u16At_of_le (by omega), Bytes.u32At_of_le (by omega),
      Bytes.stored_extract (by omega), Bytes.stored_extract (by omega),
      Bytes.stored_extract (by omega), Nat.add_right_comm 4 _ 2, Nat.add_right_comm 4 _ 4]
    rfl
  next outside =>
    rw [Bytes.slice_of_lt (by omega)]
    rfl

theorem readAt_eq_ok {table : Bytes} {index : Nat} {entry : EncodingRecord}
    (found : readAt table (4 + size * index) = .ok entry) :
    4 + 8 * (index + 1) ≤ table.size ∧ entry = (StoredEncoding.ofIndex table index).toRecord := by
  rw [readAt_eq] at found
  split at found
  next inside =>
    cases found
    exact ⟨inside, rfl⟩
  next => cases found

theorem format_eq_ok_iff {table : Bytes} {entry : EncodingRecord} {number : UInt16} :
    entry.format table = .ok number ↔
      entry.offset + 2 ≤ table.size ∧ number.toNat = Bytes.stored table entry.offset 2 := by
  unfold format
  by_cases beyond : table.size < entry.offset
  · rw [if_pos beyond]
    exact iff_of_false nofun (fun both => by omega)
  · rw [if_neg beyond, Bytes.u16At_eq_ok_iff, Bytes.stored_extract (by omega), Array.size_extract,
      Nat.add_zero]
    exact and_congr_left' (by omega)

def hasFormat (table : Bytes) (format : UInt16) (entry : EncodingRecord) : Bool :=
  match entry.format table with
  | .ok number => number == format
  | .error _ => false

theorem hasFormat_of_ok {table : Bytes} {entry : EncodingRecord} {number : UInt16}
    (found : entry.format table = .ok number) (format : UInt16) :
    entry.hasFormat table format = (number == format) := by
  rw [hasFormat, found]

theorem hasFormat_toRecord (table : Bytes) (format : UInt16) (entry : StoredEncoding) :
    entry.toRecord.hasFormat table format = entry.hasFormat table format.toNat := by
  unfold hasFormat StoredEncoding.hasFormat
  rw [Bool.eq_iff_iff]
  cases found : entry.toRecord.format table with
  | ok number =>
      obtain ⟨inside, same⟩ := format_eq_ok_iff.mp found
      have inside : entry.start.toNat + 2 ≤ table.size := inside
      have same : number.toNat = Bytes.stored table entry.start.toNat 2 := same
      simp only [inside, ← same, beq_iff_eq, UInt16.toNat_inj, decide_true, Bool.true_and]
  | error failure =>
      refine iff_of_false nofun fun both => ?_
      obtain ⟨inside, _⟩ := Bool.and_eq_true_iff.mp both
      have inside : entry.toRecord.offset + 2 ≤ table.size := of_decide_eq_true inside
      have readable := format_eq_ok_iff.mpr
        ⟨inside, UInt16.toNat_ofNat_of_lt' (Bytes.stored_lt table entry.toRecord.offset 2)⟩
      cases found.symm.trans readable

end EncodingRecord

namespace CharacterMap

/-! ### Standing records -/

section Standing

variable {Entry Map : Type} {offer? : Entry → Option Preference}

/-- The first entry offered as preferred, or else the first one offered as a fallback. -/
def standing? (offer? : Entry → Option Preference) (entries : List Entry) :
    Option (Preference × Entry) :=
  ((entries.find? (offer? · == some .preferred)).map (.preferred, ·)).or
    ((entries.find? (offer? · == some .fallback)).map (.fallback, ·))

theorem standing?_append (entries : List Entry) (entry : Entry) :
    standing? offer? (entries ++ [entry]) =
      match offer? entry with
      | none => standing? offer? entries
      | some preference =>
          if Selection.improves (standing? offer? entries) preference then
            some (preference, entry)
          else
            standing? offer? entries := by
  unfold standing?
  simp only [List.find?_append, List.find?_singleton]
  rcases offer? entry with _ | _ | _ <;>
    cases entries.find? (offer? · == some .preferred) <;>
      cases entries.find? (offer? · == some .fallback) <;> rfl

/-- Subtables are those of the standing records, once read. -/
def Follows (parse : Bytes → Except FontError Map) (table : Bytes)
    (standing : Option (Preference × EncodingRecord)) (chosen : Option (Preference × Map)) : Prop :=
  standing.map (fun found => (found.1, parse (found.2.body table))) =
    chosen.map fun found => (found.1, .ok found.2)

variable {parse : Bytes → Except FontError Map} {table : Bytes}
  {standing : Option (Preference × EncodingRecord)} {chosen : Option (Preference × Map)}

theorem Follows.improves_eq (follows : Follows parse table standing chosen)
    (preference : Preference) :
    Selection.improves standing preference = Selection.improves chosen preference := by
  cases standing with
  | none =>
      cases chosen with
      | none => rfl
      | some => cases follows
  | some found =>
      cases chosen with
      | none => cases follows
      | some map =>
          have same : found.1 = map.1 := congrArg Prod.fst (Option.some.inj follows)
          rw [Selection.improves, Selection.improves, same]

variable {entries : List EncodingRecord} {entry : EncodingRecord}
  {offer? : EncodingRecord → Option Preference}

/-- A record that is not offered leaves the choice as it is. -/
theorem Follows.pass (follows : Follows parse table (standing? offer? entries) chosen)
    (offered : offer? entry = none) :
    Follows parse table (standing? offer? (entries ++ [entry])) chosen := by
  rw [standing?_append, offered]
  exact follows

/-- The subtable of a record that is offered is chosen if it is better, and has to be sound then. -/
theorem Follows.advance {Result : Type}
    (follows : Follows parse table (standing? offer? entries) chosen)
    (finish : Option (Preference × Map) → Result) {result : Result}
    {preference : Preference} (offered : offer? entry = some preference)
    (used : (if Selection.improves chosen preference then do
        let map ← parse (entry.body table)
        return finish (some (preference, map))
      else
        return finish chosen : Except FontError Result) = .ok result) :
    ∃ next, result = finish next ∧
      Follows parse table (standing? offer? (entries ++ [entry])) next := by
  rw [standing?_append, offered]
  simp only [follows.improves_eq]
  split at used
  next improves =>
    obtain ⟨map, parsed, used⟩ := exceptBind_eq_ok_iff.mp used
    cases used
    refine ⟨some (preference, map), rfl, ?_⟩
    rw [if_pos improves, Follows, Option.map_some, Option.map_some, parsed]
  next worse =>
    cases used
    refine ⟨chosen, rfl, ?_⟩
    rw [if_neg worse]
    exact follows

end Standing

/-- The preference of a record whose subtable has a format. -/
def offer? (table : Bytes) (format : UInt16) (entry : EncodingRecord) : Option Preference :=
  if entry.hasFormat table format then entry.platform.preference? else none

def recordsBelow (table : Bytes) (count : Nat) : List EncodingRecord :=
  (List.range count).map fun index => (StoredEncoding.ofIndex table index).toRecord

theorem recordsBelow_succ (table : Bytes) (count : Nat) :
    recordsBelow table (count + 1) =
      recordsBelow table count ++ [(StoredEncoding.ofIndex table count).toRecord] := by
  rw [recordsBelow, List.range_succ, List.map_append]
  rfl

theorem recordsBelow_stored (table : Bytes) :
    recordsBelow table (Bytes.stored table 2 2) =
      (StoredEncoding.all table).map StoredEncoding.toRecord := by
  rw [StoredEncoding.all, List.map_map]
  rfl

/-- What was chosen while reading records is what their order says. -/
structure Serves (table : Bytes) (entries : List EncodingRecord) (selection : Selection) :
    Prop where
  segments : Follows SegmentMap.parse table (standing? (offer? table SegmentMap.format) entries)
    selection.segments
  groups : Follows GroupMap.parse table (standing? (offer? table GroupMap.format) entries)
    selection.groups
  variations : selection.variations = entries.any (·.hasFormat table variationFormat)

namespace Serves

variable {table : Bytes} {entries : List EncodingRecord} {entry : EncodingRecord}
  {selection next : Selection}

theorem nil (table : Bytes) : Serves table [] .none :=
  ⟨rfl, rfl, rfl⟩

theorem variations_append (serves : Serves table entries selection) (entry : EncodingRecord) :
    (selection.variations || entry.hasFormat table variationFormat) =
      (entries ++ [entry]).any (·.hasFormat table variationFormat) := by
  rw [serves.variations, List.any_append, List.any_cons, List.any_nil, Bool.or_false]

theorem useUntrusted_eq (table : Bytes) (selection : Selection) (entry : EncodingRecord) :
    selection.useUntrusted table entry =
      { selection with
        variations := selection.variations || entry.hasFormat table variationFormat } := by
  unfold Selection.useUntrusted EncodingRecord.hasFormat
  cases entry.format table with
  | error => rw [Bool.or_false]
  | ok format =>
      by_cases same : format = variationFormat
      · simp only [same, if_true, beq_self_eq_true, Bool.or_true]
      · simp only [same, if_false, beq_false_of_ne same, Bool.or_false]

/-- A record of another platform is never offered, but it may hold variation sequences. -/
theorem useUntrusted (serves : Serves table entries selection)
    (untrusted : entry.platform.preference? = none) :
    Serves table (entries ++ [entry]) (selection.useUntrusted table entry) := by
  have offered (format : UInt16) : offer? table format entry = none := by
    rw [offer?, untrusted, ite_self]
  rw [useUntrusted_eq]
  exact ⟨serves.segments.pass (offered _), serves.groups.pass (offered _),
    serves.variations_append entry⟩

/-- A record of a trusted platform is offered for the format of its subtable and for no other. -/
theorem useTrusted (serves : Serves table entries selection) {preference : Preference}
    (trusted : entry.platform.preference? = some preference)
    (used : selection.useTrusted table entry preference = .ok next) :
    Serves table (entries ++ [entry]) next := by
  unfold Selection.useTrusted at used
  obtain ⟨number, found, used⟩ := exceptBind_eq_ok_iff.mp used
  have has := EncodingRecord.hasFormat_of_ok found
  -- The three formats are different numbers, so the record is offered for one of them at most.
  have offered (format : UInt16) :
      offer? table format entry = if number = format then some preference else none := by
    simp only [offer?, has, trusted, beq_iff_eq]
  have other {format : UInt16} (apart : number ≠ format) : offer? table format entry = none := by
    rw [offered, if_neg apart]
  have variations := serves.variations_append entry
  rw [has] at variations
  split at used
  next segments =>
    have same := offered SegmentMap.format
    rw [if_pos segments] at same
    rw [segments, show (SegmentMap.format == variationFormat) = false from rfl,
      Bool.or_false] at variations
    obtain ⟨chosen, rfl, follows⟩ :=
      serves.segments.advance ({ selection with segments := · }) same used
    exact ⟨follows, serves.groups.pass (other (segments ▸ by decide)), variations⟩
  next apart =>
    split at used
    next groups =>
      have same := offered GroupMap.format
      rw [if_pos groups] at same
      rw [groups, show (GroupMap.format == variationFormat) = false from rfl,
        Bool.or_false] at variations
      obtain ⟨chosen, rfl, follows⟩ :=
        serves.groups.advance ({ selection with groups := · }) same used
      exact ⟨serves.segments.pass (other apart), follows, variations⟩
    next apart' =>
      have segments := serves.segments.pass (other apart)
      have groups := serves.groups.pass (other apart')
      split at used
      next sequences =>
        cases used
        rw [sequences, beq_self_eq_true, Bool.or_true] at variations
        exact ⟨segments, groups, variations⟩
      next none =>
        cases used
        rw [beq_false_of_ne none, Bool.or_false] at variations
        exact ⟨segments, groups, variations⟩

theorem use (serves : Serves table entries selection)
    (used : selection.use table entry = .ok next) : Serves table (entries ++ [entry]) next := by
  unfold Selection.use at used
  split at used
  next preference trusted => exact serves.useTrusted trusted used
  next untrusted =>
    cases used
    exact serves.useUntrusted untrusted

/-- Reading further records keeps what was chosen in line with their order. -/
theorem survey {index count : Nat} {final : Selection}
    (serves : Serves table (recordsBelow table index) selection)
    (outcome : (survey table selection index count).outcome = .ok final)
    (inside : 4 + 8 * index ≤ table.size) :
    4 + 8 * (index + count) ≤ table.size ∧
      Serves table (recordsBelow table (index + count)) final := by
  induction count generalizing index selection with
  | zero =>
      cases outcome
      exact ⟨inside, serves⟩
  | succ count ih =>
      unfold CharacterMap.survey at outcome
      split at outcome
      next => cases outcome
      next entry found =>
        split at outcome
        next => cases outcome
        next next used =>
          obtain ⟨inside, rfl⟩ := EncodingRecord.readAt_eq_ok found
          have step := serves.use used
          rw [← recordsBelow_succ] at step
          have run := ih step outcome inside
          rwa [Nat.add_right_comm, Nat.add_assoc] at run

end Serves

/-! ### The records of a table -/

theorem offer?_toRecord (table : Bytes) (format : UInt16) (entry : StoredEncoding) :
    offer? table format entry.toRecord =
      if entry.hasFormat table format.toNat then
        if entry.isWindows then some .preferred
        else if entry.isUnicode then some .fallback
        else none
      else
        none := by
  rw [offer?, EncodingRecord.hasFormat_toRecord, StoredEncoding.toRecord,
    Platform.preference?_ofNumbers]
  simp only [StoredEncoding.isWindows, StoredEncoding.isUnicode, Bool.and_eq_true,
    Bool.or_eq_true, beq_iff_eq]

theorem not_isUnicode_of_isWindows {entry : StoredEncoding} (windows : entry.isWindows) :
    entry.isUnicode = false := by
  unfold StoredEncoding.isWindows at windows
  unfold StoredEncoding.isUnicode
  rw [Bool.and_eq_true, beq_iff_eq] at windows
  rw [windows.1]
  rfl

/-- The standing record of a format is the first one for Windows or else for Unicode. -/
theorem standing?_recordsBelow (table : Bytes) (format : UInt16) :
    (standing? (offer? table format) (recordsBelow table (Bytes.stored table 2 2))).map (·.2) =
      (StoredEncoding.first? table format.toNat).map StoredEncoding.toRecord := by
  have preferred : (fun entry : StoredEncoding =>
      offer? table format entry.toRecord == some .preferred) =
      fun entry => entry.isWindows && entry.hasFormat table format.toNat := by
    funext entry
    rw [offer?_toRecord]
    cases entry.hasFormat table format.toNat <;> cases entry.isWindows <;>
      cases entry.isUnicode <;> rfl
  have fallback : (fun entry : StoredEncoding =>
      offer? table format entry.toRecord == some .fallback) =
      fun entry => entry.isUnicode && entry.hasFormat table format.toNat := by
    funext entry
    rw [offer?_toRecord]
    cases windows : entry.isWindows with
    | true =>
        rw [not_isUnicode_of_isWindows windows]
        cases entry.hasFormat table format.toNat <;> rfl
    | false =>
        cases entry.hasFormat table format.toNat <;> cases entry.isUnicode <;> rfl
  rw [recordsBelow_stored, standing?, StoredEncoding.first?, List.find?_map, List.find?_map,
    Function.comp_def, Function.comp_def, preferred, fallback]
  simp only [Option.map_or, Option.map_map, Function.comp_def]

/-- A choice that follows the standing record of a format is read from its first record. -/
theorem Follows.first?_eq {Map : Type} {parse : Bytes → Except FontError Map} {table : Bytes}
    {format : UInt16} {chosen : Option (Preference × Map)}
    (follows : Follows parse table
      (standing? (offer? table format) (recordsBelow table (Bytes.stored table 2 2))) chosen) :
    (StoredEncoding.first? table format.toNat).map (fun entry => parse (entry.subtable table)) =
      (chosen.map (·.2)).map .ok := by
  have read := congrArg (Option.map (·.2)) follows
  have found := congrArg (Option.map fun entry => parse (entry.body table))
    (standing?_recordsBelow table format)
  simp only [Option.map_map, Function.comp_def] at read found ⊢
  exact found.symm.trans read

theorem recordCount_eq_ok {table : Bytes} {count : Nat} (counted : recordCount table = .ok count) :
    4 ≤ table.size ∧ count = Bytes.stored table 2 2 := by
  unfold recordCount at counted
  obtain ⟨version, _, counted⟩ := exceptBind_eq_ok_iff.mp counted
  split at counted
  · cases counted
  · obtain ⟨number, found, counted⟩ := exceptBind_eq_ok_iff.mp counted
    obtain ⟨inside, same⟩ := Bytes.u16At_eq_ok_iff.mp found
    split at counted
    · cases counted
    · cases counted
      exact ⟨inside, same⟩

/-- A table that is accepted has room for its records, and its subtables were chosen from them. -/
theorem exists_serves_of_parse {table : Bytes} {map : CharacterMap}
    (parsed : parse table = .ok map) :
    4 + 8 * Bytes.stored table 2 2 ≤ table.size ∧
      ∃ selection, Serves table (recordsBelow table (Bytes.stored table 2 2)) selection ∧
        map = selection.finish := by
  unfold parse surveyTable at parsed
  cases counted : recordCount table with
  | error failure =>
      rw [counted] at parsed
      cases parsed
  | ok count =>
      obtain ⟨header, rfl⟩ := recordCount_eq_ok counted
      simp only [counted] at parsed
      cases outcome : (survey table .none 0 (Bytes.stored table 2 2)).outcome with
      | error failure =>
          rw [outcome] at parsed
          cases parsed
      | ok selection =>
          rw [outcome] at parsed
          cases parsed
          obtain ⟨inside, serves⟩ := Serves.survey (.nil table) outcome header
          rw [Nat.zero_add] at inside serves
          exact ⟨inside, selection, serves, rfl⟩

/--
In a table that is accepted all records lie inside the table.  The subtable in
use of either format is that of the first record for Windows that points at the
format, or if there is none, of the first such record for Unicode.  And there
are variation sequences if some record points at them, whatever its platform.
-/
theorem parse_selects_first {table : Bytes} {map : CharacterMap} (parsed : parse table = .ok map) :
    4 + 8 * Bytes.stored table 2 2 ≤ table.size ∧
    (StoredEncoding.first? table 4).map (fun entry => SegmentMap.parse (entry.subtable table)) =
      map.segments.map .ok ∧
    (StoredEncoding.first? table 12).map (fun entry => GroupMap.parse (entry.subtable table)) =
      map.groups.map .ok ∧
    (map.variations ↔ ∃ entry ∈ StoredEncoding.all table, entry.hasFormat table 14) := by
  obtain ⟨inside, selection, serves, rfl⟩ := exists_serves_of_parse parsed
  refine ⟨inside, serves.segments.first?_eq, serves.groups.first?_eq, ?_⟩
  have variations := serves.variations
  rw [recordsBelow_stored, List.any_map] at variations
  rw [show selection.finish.variations = selection.variations from rfl, variations,
    List.any_eq_true]
  simp only [Function.comp_apply, EncodingRecord.hasFormat_toRecord]
  rfl

/--
Three records: one for Unicode and one for Windows that point at segment maps,
and one for the Macintosh that points at variation sequences.
-/
def threeRecords : Bytes :=
  #[0, 0, 0, 3,
    0, 0, 0, 3, 0, 0, 0, 28,
    0, 3, 0, 1, 0, 0, 0, 44,
    0, 1, 0, 0, 0, 0, 0, 68,
    0, 4, 0, 16, 0, 0, 0, 0, 0, 0, 0, 0, 0, 0, 0, 0,
    0, 4, 0, 24, 0, 0, 0, 2, 0, 2, 0, 0, 0, 0, 255, 255, 0, 0, 255, 255, 0, 1, 0, 0,
    0, 14]

/-- The segment map for Windows is used, though the one for Unicode comes before it. -/
theorem parse_selects_first_threeRecords :
    StoredEncoding.first? threeRecords 4 = some ⟨3, 1, 44⟩ ∧
    ∃ map, parse threeRecords = .ok map ∧
      some (SegmentMap.parse (threeRecords.extract 44 70)) = map.segments.map .ok ∧
      map.groups = none ∧ map.variations := by
  have parsed : parse threeRecords = .ok ⟨some ⟨[⟨0xffff, 0xffff, 1, 0⟩]⟩, none, true⟩ := by
    rfl
  have first : StoredEncoding.first? threeRecords 4 = some ⟨3, 1, 44⟩ := by decide +kernel
  obtain ⟨-, segments, -, -⟩ := parse_selects_first parsed
  rw [first] at segments
  exact ⟨first, _, parsed, segments, rfl, rfl⟩

end CharacterMap

end OutlineFont
