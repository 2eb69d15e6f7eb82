import OutlineFont.Font.Event
import OutlineFont.Table.ControlValues

/-!
# Fonts

A font of a file, with its tables read, and what can be asked of it: the glyph
of a character, the outline of a glyph, and the mask of a glyph at a size.
-/

namespace OutlineFont

/-- A font with its tables read. -/
structure Font where
  directory : Directory
  header : FontHeader
  profile : MaximumProfile
  characters : CharacterMap
  glyphs : GlyphTable
  controlValues : List Int16
  fontProgram : Bytes
  controlValueProgram : Bytes

inductive HintingPolicy where
  /-- Hint, and fail if that fails. -/
  | strict
  /-- Hint if that succeeds. -/
  | fallback
  /-- Do not hint. -/
  | disabled
  deriving DecidableEq, Repr, Inhabited

structure RenderOptions where
  /-- Pixels per em. -/
  pixelSize : UInt32 := 24
  hinting : HintingPolicy := .strict
  deriving DecidableEq, Repr, Inhabited

structure Rendering where
  glyph : UInt16
  outline : Glyph
  mask : Mask
  deriving DecidableEq, Inhabited

def describeFile (data : Bytes) : String :=
  s!"FontFile \x7b size: {data.size} \x7d"

namespace Font

/-- Read the tables of a font of a file.  Tables that only hinting needs may be absent. -/
def read (data : Bytes) (index : Nat) : Noted Font := do
  let directory ← Noted.directory data index
  let table (tag : Tag) : Noted Bytes := Noted.accept (directory.table data tag)
  let optionalTable (tag : Tag) : Noted Bytes :=
    Noted.accept (directory.optionalTable data tag)
  let header ← Noted.accept (FontHeader.parse (← table .head))
  let profile ← Noted.accept (MaximumProfile.parse (← table .maxp))
  let characters ← Noted.characterMap (← table .cmap)
  let locations := ⟨← table .loca, header.locationFormat, profile.glyphCount⟩
  let glyphs := ⟨← table .glyf, locations⟩
  let controlValues ← Noted.accept (ControlValues.parse (← optionalTable .cvt))
  let fontProgram ← optionalTable .fpgm
  let controlValueProgram ← optionalTable .prep
  return {
    directory := directory
    header := header
    profile := profile
    characters := characters
    glyphs := glyphs
    controlValues := controlValues
    fontProgram := fontProgram
    controlValueProgram := controlValueProgram }

/-- Read a font of a file without taking notes. -/
def parse (data : Bytes) (index : Nat) : Except FontError Font :=
  (read data index).outcome

def describe (font : Font) : String :=
  s!"Font \x7b units_per_em: {font.header.unitsPerEm.toNat}, " ++
  s!"num_glyphs: {font.profile.glyphCount.toNat}, cmap: {font.characters.describe} \x7d"

def glyph? (font : Font) (character selector : UInt32) : Noted (Option UInt16) :=
  Noted.glyph? font.characters character selector

def decode (font : Font) (glyph : UInt16) : Noted Glyph :=
  Noted.decode font.glyphs glyph

/-- The edge length of a cell, in font units, for a number of pixels per em. -/
def gridSize (font : Font) (pixelSize : UInt32) : Except FontError Nat :=
  let size := font.header.unitsPerEm.toNat / pixelSize.toNat
  if size = 0 then .error (.gridSize 0) else .ok size

def hint (font : Font) (glyph : Glyph) (gridSize : Nat) : Noted Glyph := do
  let session ← Noted.session font.profile font.controlValues font.header.unitsPerEm gridSize
  Noted.hint session font.fontProgram font.controlValueProgram glyph

/-- The outline to draw under a policy. -/
def applyHinting (font : Font) (policy : HintingPolicy) (glyph : UInt16) (outline : Glyph)
    (gridSize : Nat) : Noted Glyph :=
  match policy with
  | .disabled => pure outline
  | .strict => font.hint outline gridSize
  | .fallback => do
      match ← (font.hint outline gridSize).attempt with
      | .ok hinted => return hinted
      | .error failure =>
          Noted.note (.hintingFailed glyph failure)
          return outline

def renderGlyph (font : Font) (glyph : UInt16) (options : RenderOptions) : Noted Rendering := do
  let gridSize ← Noted.accept (font.gridSize options.pixelSize)
  let decoded ← font.decode glyph
  let outline ← font.applyHinting options.hinting glyph decoded gridSize
  let rasterizer ← Noted.accept (Raster.Rasterizer.create gridSize font.header.unitsPerEm)
  return ⟨glyph, outline, ← Noted.rasterize rasterizer outline⟩

/-- Draw the glyph of a character, if there is one. -/
def render (font : Font) (character : UInt32) (options : RenderOptions) :
    Noted (Option Rendering) := do
  match ← font.glyph? character 0 with
  | none =>
      Noted.note (.noGlyph character)
      return none
  | some glyph => return some (← font.renderGlyph glyph options)

end Font

end OutlineFont
