import OutlineFont.Cursor

/-!
# The maximum profile

How many glyphs a font has, and what its programs need.
-/

namespace OutlineFont

/-- Sizes that a font declares. -/
structure MaximumProfile where
  glyphCount : UInt16
  twilightPoints : UInt16
  storage : UInt16
  functions : UInt16
  stackElements : UInt16
  deriving DecidableEq, Repr, Inhabited

namespace MaximumProfile

/-- Read the table; its shorter version stores the number of glyphs alone. -/
def parse (data : Bytes) : Except FontError MaximumProfile := do
  let version ← Bytes.u32At data 0
  let glyphCount ← Bytes.u16At data 4
  if version = 0x00005000 then
    return ⟨glyphCount, 0, 0, 0, 0⟩
  else if version = 0x00010000 then
    return {
      glyphCount := glyphCount
      twilightPoints := ← Bytes.u16At data 16
      storage := ← Bytes.u16At data 18
      functions := ← Bytes.u16At data 20
      stackElements := ← Bytes.u16At data 24 }
  else
    throw (.malformedHeader .profileVersion)

end MaximumProfile

end OutlineFont
