import OutlineFont.Table.FontHeader

/-!
# Glyph locations

The record of a glyph lies between its own location and the next one, so a
table for `n` glyphs stores `n + 1` locations.
-/

namespace OutlineFont

/-- A range of offsets, with its start but without its end. -/
structure ByteRange where
  start : Nat
  stop : Nat
  deriving DecidableEq, Repr, Inhabited

structure GlyphLocations where
  data : Bytes
  format : LocationFormat
  glyphCount : UInt16
  deriving DecidableEq, Inhabited

namespace GlyphLocations

def location (locations : GlyphLocations) (position : Nat) : Except FontError Nat :=
  match locations.format with
  | .short => (Bytes.u16At locations.data (position * 2)).map fun half => half.toNat * 2
  | .long => (Bytes.u32At locations.data (position * 4)).map fun offset => offset.toNat

/-- Where the record of a glyph lies; a glyph without an outline has an empty range. -/
def range (locations : GlyphLocations) (glyph : UInt16) : Except FontError ByteRange := do
  if locations.glyphCount ≤ glyph then
    throw (.outOfRange .glyph glyph.toNat locations.glyphCount.toNat)
  let start ← locations.location glyph.toNat
  let stop ← locations.location (glyph.toNat + 1)
  if stop < start then
    throw (.malformedGlyph glyph .locationsDescend)
  return ⟨start, stop⟩

end GlyphLocations

end OutlineFont
