import OutlineFont.Bytes

/-!
# Programs

A font carries three kinds of programs for the hinting machine.
-/

namespace OutlineFont.Hinting

inductive ProgramKind where
  /-- Run once for a font, to define functions. -/
  | font
  /-- Run for every size, to prepare control values. -/
  | controlValue
  /-- Run for one glyph. -/
  | glyph
  deriving DecidableEq, Repr, Inhabited

def ProgramKind.name : ProgramKind → String
  | .font => "Font"
  | .controlValue => "ControlValue"
  | .glyph => "Glyph"

/-- Byte code with its purpose. -/
structure Program where
  kind : ProgramKind
  code : Bytes
  deriving DecidableEq, Inhabited

end OutlineFont.Hinting
