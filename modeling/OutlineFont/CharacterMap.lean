import OutlineFont.CharacterMap.Groups
import OutlineFont.CharacterMap.Platform
import OutlineFont.CharacterMap.Segments

/-!
# The character map

The map from characters to glyphs comes in subtables, one for each platform
that a font serves.  Of every format the first subtable of the most preferred
platforms is used.  Subtables of other platforms are passed over, so a broken
one does no harm.
-/

namespace OutlineFont

/-- Where the subtable of a platform starts. -/
structure EncodingRecord where
  platform : Platform
  offset : Nat
  deriving DecidableEq, Repr

namespace EncodingRecord

def size : Nat := 8

def readAt (table : Bytes) (offset : Nat) : Except FontError EncodingRecord := do
  let data ← Bytes.slice table offset size
  let platform ← Bytes.u16At data 0
  let encoding ← Bytes.u16At data 2
  let start ← Bytes.u32At data 4
  return ⟨.ofNumbers platform encoding, start.toNat⟩

def describe (entry : EncodingRecord) : String :=
  s!"CMAP Subtable \x7b platform_id: {entry.platform.label}, offset: {entry.offset} \x7d"

def format (table : Bytes) (entry : EncodingRecord) : Except FontError UInt16 :=
  if table.size < entry.offset then
    .error (.truncated entry.offset)
  else
    Bytes.u16At (table.extract entry.offset (entry.offset + 2)) 0

/-- The bytes from the start of a subtable on. -/
def body (table : Bytes) (entry : EncodingRecord) : Bytes :=
  table.extract entry.offset table.size

end EncodingRecord

/-- The subtables in use. -/
structure CharacterMap where
  segments : Option SegmentMap
  groups : Option GroupMap
  /-- Whether there are variation sequences, which are not looked up. -/
  variations : Bool
  deriving DecidableEq, Repr, Inhabited

/-- Why a subtable was passed over. -/
inductive SkippedSubtable where
  | unused (format : UInt16) (platform : Platform)
  | unreadable (platform : Platform) (failure : FontError)
  deriving DecidableEq, Repr

namespace CharacterMap

def variationFormat : UInt16 := 14

/-- The best subtables among the records seen so far. -/
structure Selection where
  segments : Option (Preference × SegmentMap)
  groups : Option (Preference × GroupMap)
  variations : Bool
  deriving DecidableEq, Repr

namespace Selection

/-- Before the first record. -/
def none : Selection :=
  ⟨.none, .none, false⟩

/-- Whether a subtable of a preference replaces the chosen one. -/
def improves {Map : Type} (chosen : Option (Preference × Map)) (preference : Preference) : Bool :=
  match chosen with
  | .none => true
  | some (current, _) => current == .fallback && preference == .preferred

/-- Take a record of a trusted platform into account; such a record has to be sound. -/
def useTrusted (table : Bytes) (selection : Selection) (entry : EncodingRecord)
    (preference : Preference) : Except FontError Selection := do
  let format ← entry.format table
  if format = SegmentMap.format then
    if improves selection.segments preference then
      let map ← SegmentMap.parse (entry.body table)
      return { selection with segments := some (preference, map) }
    else
      return selection
  else if format = GroupMap.format then
    if improves selection.groups preference then
      let map ← GroupMap.parse (entry.body table)
      return { selection with groups := some (preference, map) }
    else
      return selection
  else if format = variationFormat then
    return { selection with variations := true }
  else
    return selection

/-- Take a record of another platform into account, which can only hold variation sequences. -/
def useUntrusted (table : Bytes) (selection : Selection) (entry : EncodingRecord) : Selection :=
  match entry.format table with
  | .ok format =>
      if format = variationFormat then { selection with variations := true } else selection
  | .error _ => selection

def use (table : Bytes) (selection : Selection) (entry : EncodingRecord) :
    Except FontError Selection :=
  match entry.platform.preference? with
  | some preference => selection.useTrusted table entry preference
  | .none => .ok (selection.useUntrusted table entry)

/-- The subtables in use once all records were seen. -/
def finish (selection : Selection) : CharacterMap :=
  ⟨selection.segments.map (·.2), selection.groups.map (·.2), selection.variations⟩

end Selection

/-- The subtable of a record, if it is passed over. -/
def skipped? (table : Bytes) (entry : EncodingRecord) : Option SkippedSubtable :=
  match entry.format table with
  | .ok format =>
      let used := format = variationFormat ∨ (entry.platform.preference?.isSome ∧
        (format = SegmentMap.format ∨ format = GroupMap.format))
      if used then none else some (.unused format entry.platform)
  | .error failure =>
      if entry.platform.preference?.isSome then none
      else some (.unreadable entry.platform failure)

/-- The outcome of reading records, with the subtables that were passed over until then. -/
structure Survey where
  skipped : List SkippedSubtable
  outcome : Except FontError Selection

/-- Read `count` records from the one at `index` on. -/
def survey (table : Bytes) (selection : Selection) (index : Nat) : (count : Nat) → Survey
  | 0 => ⟨[], .ok selection⟩
  | count + 1 =>
      match EncodingRecord.readAt table (4 + EncodingRecord.size * index) with
      | .error failure => ⟨[], .error failure⟩
      | .ok entry =>
          match selection.use table entry with
          | .error failure => ⟨[], .error failure⟩
          | .ok selection =>
              let rest := survey table selection (index + 1) count
              ⟨(skipped? table entry).toList ++ rest.skipped, rest.outcome⟩

def recordCount (table : Bytes) : Except FontError Nat := do
  if (← Bytes.u16At table 0) ≠ 0 then
    throw (.malformedHeader .characterMapVersion)
  let count ← Bytes.u16At table 2
  if count = 0 then
    throw (.malformedHeader .noSubtables)
  return count.toNat

/-- Read the table, and note which subtables are passed over. -/
def surveyTable (table : Bytes) : Survey :=
  match recordCount table with
  | .error failure => ⟨[], .error failure⟩
  | .ok count => survey table .none 0 count

def parse (table : Bytes) : Except FontError CharacterMap :=
  (surveyTable table).outcome.map (·.finish)

def describe (map : CharacterMap) : String :=
  s!"CMAP Table \x7b format4: {map.segments.isSome}, format12: {map.groups.isSome}, " ++
    s!"format14: {map.variations} \x7d"

/-- The glyph that some subtable maps a character to; groups are used if there are any. -/
def mapped? (map : CharacterMap) (character : UInt32) : Except FontError (Option UInt16) :=
  match map.groups, map.segments with
  | some groups, _ => groups.glyph? character
  | none, some segments =>
      .ok (if character.toNat < 65536 then segments.glyph? character.toUInt16 else none)
  | none, none => .ok none

/-- The glyph of a character in its default variation; glyph zero stands for no glyph. -/
def glyph? (map : CharacterMap) (character selector : UInt32) :
    Except FontError (Option UInt16) :=
  if selector = 0 then
    (map.mapped? character).map fun glyph => glyph.filter (· != 0)
  else
    .error (.variationSelector selector)

/-- Whether looking a character up runs into a segment that is not supported. -/
def isUnsupported (map : CharacterMap) (character selector : UInt32) : Bool :=
  selector == 0 && map.groups.isNone && character.toNat < 65536 &&
    map.segments.any (·.isUnsupported character.toUInt16)

end CharacterMap

end OutlineFont
