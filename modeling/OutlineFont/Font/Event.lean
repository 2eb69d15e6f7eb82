import OutlineFont.CharacterMap
import OutlineFont.Directory
import OutlineFont.Hinting.Hint
import OutlineFont.Outline.GlyphTable
import OutlineFont.Raster.Rasterizer

/-!
# Events

What is worth a note while a font is read and its glyphs are drawn, and work
that takes such notes.
-/

namespace OutlineFont

/-- Something worth a note. -/
inductive Event where
  | directoryRead (directory : Directory)
  | subtableSkipped (skipped : SkippedSubtable)
  | subtablesSelected (map : CharacterMap)
  /-- A character belongs to a segment that is not supported. -/
  | segmentUnsupported (character : UInt16)
  | componentMet (reference : Reference)
  | hinting (notice : Hinting.Notice)
  /-- A glyph is drawn as it is, since it cannot be hinted. -/
  | hintingFailed (glyph : UInt16) (failure : FontError)
  | rasterized (metrics : Metrics) (mask : Mask)
  | noGlyph (character : UInt32)
  deriving DecidableEq

def SkippedSubtable.message : SkippedSubtable → String
  | .unused format platform =>
      s!"Ignoring cmap subtable with format {format.toNat} for {platform.label}"
  | .unreadable platform failure =>
      s!"Ignoring unreadable cmap subtable for {platform.label}: {failure.message}"

def Directory.message (directory : Directory) : String :=
  let tags := String.intercalate ", " (directory.records.map (·.tag.text))
  s!"Parsed table directory at 0x{Text.hex directory.start} with " ++
    s!"{directory.records.length} tables: [{tags}]"

def Reference.message (reference : Reference) : String :=
  let component := reference.component
  s!"Glyph #{reference.composite.toNat} references #{component.glyph.toNat} at " ++
    s!"({component.dx.toInt}, {component.dy.toInt}) with {component.flags.describe}"

instance : Notable Event where
  level
    | .segmentUnsupported _ | .hintingFailed _ _ => .warn
    | .hinting notice => Notable.level notice
    | _ => .debug
  message
    | .directoryRead directory => directory.message
    | .subtableSkipped skipped => skipped.message
    | .subtablesSelected map => s!"Selected cmap subtables: {map.describe}"
    | .segmentUnsupported character =>
        s!"Cannot map 0x{Text.hexPadded 4 character.toNat}: " ++
          "idRangeOffset addressing in cmap format 4 is not supported"
    | .componentMet reference => reference.message
    | .hinting notice => Notable.message notice
    | .hintingFailed glyph failure =>
        s!"Failed to hint glyph #{glyph.toNat} ({failure.message}), rendering it unhinted"
    | .rasterized metrics mask =>
        s!"Rasterized {metrics.width}x{metrics.height} units into a " ++
          s!"{mask.width}x{mask.height} mask (grid size {mask.gridSize})"
    | .noGlyph character => s!"No glyph for codepoint 0x{Text.hex character.toNat}"

/-- Work that takes notes and may fail; a failure keeps the notes. -/
abbrev Noted := EStateM FontError (Journal Event)

namespace Noted

def note (event : Event) : Noted Unit :=
  modify fun journal => journal.record event

def noteAll (events : List Event) : Noted Unit :=
  modify fun journal => journal.recordAll events

def accept {α : Type} (result : Except FontError α) : Noted α := fun journal =>
  match result with
  | .ok value => .ok value journal
  | .error failure => .error failure journal

/-- The result of some work as a value, also if it is a failure. -/
def attempt {α : Type} (work : Noted α) : Noted (Except FontError α) := fun journal =>
  match work journal with
  | .ok value journal => .ok (.ok value) journal
  | .error failure journal => .ok (.error failure) journal

/-- The result of some work, without notes. -/
def outcome {α : Type} (work : Noted α) : Except FontError α :=
  match work .silent with
  | .ok value _ => .ok value
  | .error failure _ => .error failure

def directory (data : Bytes) (index : Nat) : Noted Directory := do
  let directory ← accept (Directory.parse data index)
  note (.directoryRead directory)
  return directory

def characterMap (table : Bytes) : Noted CharacterMap := do
  let survey := CharacterMap.surveyTable table
  noteAll (survey.skipped.map .subtableSkipped)
  let map := (← accept survey.outcome).finish
  note (.subtablesSelected map)
  return map

def segmentGlyph? (map : SegmentMap) (character : UInt16) : Noted (Option UInt16) := do
  if map.isUnsupported character then
    note (.segmentUnsupported character)
  return map.glyph? character

def glyph? (map : CharacterMap) (character selector : UInt32) : Noted (Option UInt16) := do
  if map.isUnsupported character selector then
    note (.segmentUnsupported character.toUInt16)
  accept (map.glyph? character selector)

def decode (table : GlyphTable) (glyph : UInt16) : Noted Glyph := do
  let (outcome, trail) := table.decodeTracing glyph
  noteAll (trail.references.toList.map .componentMet)
  accept outcome

def session (profile : MaximumProfile) (controlValues : List Int16) (unitsPerEm : UInt16)
    (gridSize : Nat) : Noted Hinting.Session := do
  let (session, journal) ← accept
    (Hinting.Session.createNoting (← get).threshold profile controlValues unitsPerEm gridSize)
  noteAll (journal.notes.toList.map .hinting)
  return session

def hint (session : Hinting.Session) (fontProgram controlValueProgram : Bytes) (glyph : Glyph) :
    Noted Glyph := do
  let hinted := session.hintNoting (.opened (← get).threshold) fontProgram
    controlValueProgram glyph
  noteAll (hinted.journal.notes.toList.map .hinting)
  accept hinted.outcome

def rasterize (rasterizer : Raster.Rasterizer) (glyph : Glyph) : Noted Mask := do
  let mask ← accept (rasterizer.rasterize glyph)
  note (.rasterized glyph.metrics mask)
  return mask

end Noted

end OutlineFont
