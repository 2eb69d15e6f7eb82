import OutlineFont.Cursor
import OutlineFont.Outline.Glyph

/-!
# The font header

The number of units per em, the bounding box of all glyphs, and the format of
the glyph locations.
-/

namespace OutlineFont

inductive LocationFormat where
  /-- As half the offset, in sixteen bits. -/
  | short
  /-- As the offset, in thirty-two bits. -/
  | long
  deriving DecidableEq, Repr, Inhabited

def LocationFormat.name : LocationFormat → String
  | .short => "Short"
  | .long => "Long"

/-- Facts that hold for a whole font. -/
structure FontHeader where
  unitsPerEm : UInt16
  box : Metrics
  locationFormat : LocationFormat
  deriving DecidableEq, Repr, Inhabited

namespace FontHeader

/-- The number of bytes of the table that are required. -/
def size : Nat := 54

/-- The number that marks the table. -/
def magic : UInt32 := 0x5f0f3cf5

def locationFormatOf (value : Int16) : Except FontError LocationFormat :=
  if value = 0 then
    .ok .short
  else if value = 1 then
    .ok .long
  else
    .error (.malformedHeader .locationFormat)

/-- Read the table; checks come in file order. -/
def parse (table : Bytes) : Except FontError FontHeader := do
  let data ← Bytes.slice table 0 size
  if (← Bytes.u16At data 0) ≠ 1 ∨ (← Bytes.u16At data 2) ≠ 0 then
    throw (.malformedHeader .headVersion)
  if (← Bytes.u32At data 12) ≠ magic then
    throw (.malformedHeader .headMagic)
  let unitsPerEm ← Bytes.u16At data 18
  if unitsPerEm = 0 then
    throw (.malformedHeader .zeroUnitsPerEm)
  let locationFormat ← locationFormatOf (← Bytes.i16At data 50)
  let box : Metrics := ⟨← Bytes.i16At data 36, ← Bytes.i16At data 38, ← Bytes.i16At data 40,
    ← Bytes.i16At data 42⟩
  return ⟨unitsPerEm, box, locationFormat⟩

end FontHeader

end OutlineFont
