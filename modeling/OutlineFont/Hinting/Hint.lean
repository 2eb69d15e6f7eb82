import OutlineFont.Hinting.Session
import OutlineFont.Outline.Glyph

/-!
# Hinting a glyph

The font program, the control value program and the program of the glyph run
in this order on one machine.  The control value program may keep the last one
from running.
-/

namespace OutlineFont.Hinting

/-- The hinted glyph or the failure, with the notes of all runs. -/
structure Hinted where
  journal : Journal Notice
  outcome : Except FontError Glyph

namespace Session

/-- Give the machine the points of a glyph. -/
def load (session : Session) (glyph : Glyph) : Session :=
  { session with machine := { session.machine with outline := glyph.points.toArray } }

/-- The glyph with the points of the machine, cut into contours of the sizes it had. -/
def unload (session : Session) (glyph : Glyph) : Glyph :=
  { glyph with
    contours := Glyph.cut (glyph.contours.map (·.size)) session.machine.outline.toList }

/-- Run the program of a glyph unless it is inhibited. -/
def runGlyphProgram (journal : Journal Notice) (session : Session) (glyph : Glyph) : Finish :=
  if session.machine.graphics.inhibitsGlyphPrograms then
    ⟨session, journal.record .glyphProgramInhibited, .ok ()⟩
  else
    session.runNoting journal ⟨.glyph, glyph.instructions⟩

/-- Run the font program, the control value program and the program of a glyph. -/
def hintNoting (journal : Journal Notice) (session : Session)
    (fontProgram controlValueProgram : Bytes) (glyph : Glyph) : Hinted :=
  let afterFont := session.runNoting journal ⟨.font, fontProgram⟩
  match afterFont.outcome with
  | .error failure => ⟨afterFont.journal, .error failure⟩
  | .ok () =>
      let afterControl :=
        afterFont.session.runNoting afterFont.journal ⟨.controlValue, controlValueProgram⟩
      match afterControl.outcome with
      | .error failure => ⟨afterControl.journal, .error failure⟩
      | .ok () =>
          let afterGlyph := (afterControl.session.load glyph).runGlyphProgram
            afterControl.journal glyph
          match afterGlyph.outcome with
          | .error failure => ⟨afterGlyph.journal, .error failure⟩
          | .ok () => ⟨afterGlyph.journal, .ok (afterGlyph.session.unload glyph)⟩

/-- Hint a glyph without taking notes. -/
def hint (session : Session) (fontProgram controlValueProgram : Bytes) (glyph : Glyph) :
    Except FontError Glyph :=
  (session.hintNoting .silent fontProgram controlValueProgram glyph).outcome

end Session

end OutlineFont.Hinting
