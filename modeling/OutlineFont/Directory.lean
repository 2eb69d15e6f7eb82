import OutlineFont.Cursor

/-!
# Table directories

A font starts with a directory of its tables.  Several fonts can share a file,
which then starts with a collection header that lists where they start.
-/

namespace OutlineFont

/-- The version tag of fonts with quadratic outlines. -/
def quadraticVersion : UInt32 := 0x00010000

/-- Another version tag of fonts with quadratic outlines. -/
def trueVersion : UInt32 := 0x74727565

def cubicVersion : UInt32 := 0x4f54544f

def collectionVersion : UInt32 := 0x74746366

/-- Whether a version tag is one of a single font. -/
def isFontVersion (version : UInt32) : Bool :=
  version == quadraticVersion || version == trueVersion || version == cubicVersion

namespace Collection

/-- Where the fonts of a collection start. -/
def readOffsets : Reader (List UInt32) := do
  let version ← Reader.u32
  if version ≠ 0x00010000 ∧ version ≠ 0x00020000 then
    throw (.malformedHeader .collectionVersion)
  let count ← Reader.u32
  let stored ← Reader.bytes (count.toNat * 4)
  Reader.accept ((List.range count.toNat).mapM fun index => Bytes.u32At stored (4 * index))

/-- Where the fonts of a collection start, for a file that holds one. -/
def offsets (data : Bytes) : Except FontError (List UInt32) :=
  readOffsets.outcome data 4

end Collection

def fontCount (data : Bytes) : Except FontError Nat := do
  let version ← Bytes.u32At data 0
  if version = collectionVersion then
    return (← Collection.offsets data).length
  else if isFontVersion version then
    return 1
  else
    throw (.malformedHeader .unknownVersion)

def directoryOffset (data : Bytes) (index : Nat) : Except FontError Nat := do
  let version ← Bytes.u32At data 0
  if version = collectionVersion then
    let offsets ← Collection.offsets data
    match offsets[index]? with
    | some offset => return offset.toNat
    | none => throw (.outOfRange .font index offsets.length)
  else if isFontVersion version then
    if index = 0 then
      return 0
    else
      throw (.outOfRange .font index 1)
  else
    throw (.malformedHeader .unknownVersion)

/-- Where a table lies in its file. -/
structure TableRecord where
  tag : Tag
  checksum : UInt32
  offset : UInt32
  length : UInt32
  deriving DecidableEq, Repr, Inhabited

namespace TableRecord

/-- The offset of the first byte. -/
def start (entry : TableRecord) : Nat :=
  entry.offset.toNat

/-- The offset after the last byte. -/
def stop (entry : TableRecord) : Nat :=
  entry.start + entry.length.toNat

/-- Read a record, and check that its table lies inside the file. -/
def read : Reader TableRecord := do
  let entry : TableRecord :=
    ⟨⟨← Reader.u32⟩, ← Reader.u32, ← Reader.u32, ← Reader.u32⟩
  if (← get).data.size < entry.stop then
    throw (.truncated entry.start)
  return entry

end TableRecord

/-- The tables of a font, in file order. -/
structure Directory where
  start : Nat
  version : UInt32
  records : List TableRecord
  deriving DecidableEq, Repr, Inhabited

namespace Directory

/-- The number of bytes before the first record. -/
def headerSize : Nat := 12

def recordSize : Nat := 16

/-- Read a directory.  Six bytes that would help to search it are passed over. -/
def read : Reader Directory := do
  let start := (← get).offset
  let version ← Reader.u32
  if !isFontVersion version then
    throw (.malformedHeader .unknownVersion)
  let count ← Reader.u16
  Reader.skip 6
  if (← get).data.size < start + headerSize + count.toNat * recordSize then
    throw (.truncated (start + headerSize))
  return ⟨start, version, ← Reader.times count.toNat TableRecord.read⟩

def parse (data : Bytes) (index : Nat) : Except FontError Directory := do
  read.outcome data (← directoryOffset data index)

def hasCubicOutlines (directory : Directory) : Bool :=
  directory.version == cubicVersion

/-- The first record of a tag. -/
def find? (directory : Directory) (tag : Tag) : Option TableRecord :=
  directory.records.find? fun entry => entry.tag = tag

def table (directory : Directory) (data : Bytes) (tag : Tag) : Except FontError Bytes :=
  match directory.find? tag with
  | some entry => Bytes.slice data entry.start entry.length.toNat
  | none => .error (.missingTable tag)

/-- The bytes of a table, or none if the font does not have it. -/
def optionalTable (directory : Directory) (data : Bytes) (tag : Tag) : Except FontError Bytes :=
  match directory.find? tag with
  | some entry => Bytes.slice data entry.start entry.length.toNat
  | none => .ok #[]

end Directory

end OutlineFont
