import OutlineFont.Hinting.Opcode
import OutlineFont.Hinting.Program
import OutlineFont.Tag

/-!
# Failures

Everything that can go wrong between the bytes of a font and a mask of cells.
A failure names its cause; `FontError.message` gives the wording.
-/

namespace OutlineFont

open Hinting

/-- What makes a table or a header malformed. -/
inductive HeaderFault where
  | unknownVersion
  | collectionVersion
  | headVersion
  | headMagic
  | zeroUnitsPerEm
  | locationFormat
  | profileVersion
  | oddControlValues
  | characterMapVersion
  | noSubtables
  | notSegmentMap
  | notGroupMap
  | glyphAboveLimit
  deriving DecidableEq, Repr

def HeaderFault.message : HeaderFault → String
  | .unknownVersion => "unknown sfnt version"
  | .collectionVersion => "unsupported collection version"
  | .headVersion => "unsupported head table version"
  | .headMagic => "invalid head table magic number"
  | .zeroUnitsPerEm => "units per em must not be zero"
  | .locationFormat => "invalid index to loca format"
  | .profileVersion => "unsupported maxp table version"
  | .oddControlValues => "cvt table has an odd length"
  | .characterMapVersion => "unsupported cmap table version"
  | .noSubtables => "cmap table has no subtables"
  | .notSegmentMap => "not a format 4 cmap subtable"
  | .notGroupMap => "not a format 12 cmap subtable"
  | .glyphAboveLimit => "cmap format 12 maps to a glyph id above 65535"

/-- What makes a glyph record malformed. -/
inductive GlyphFault where
  | locationsDescend
  | nestedTooDeeply
  | tooManyComponents
  | tooManyPoints
  | endPointsDescend
  | repeatTooLong
  | pointsMissing
  deriving DecidableEq, Repr

def GlyphFault.message : GlyphFault → String
  | .locationsDescend => "loca offsets are not ascending"
  | .nestedTooDeeply => "composite glyphs are nested too deeply"
  | .tooManyComponents => "composite glyph has too many components"
  | .tooManyPoints => "composite glyph has too many points"
  | .endPointsDescend => "contour end points are not increasing"
  | .repeatTooLong => "flag repeat count exceeds the number of points"
  | .pointsMissing => "point count does not match contour end points"

/-- What makes an outline impossible to draw. -/
inductive GeometryFault where
  | noOnCurvePoint
  | unpairedControlPoint
  | curveOnScanLine
  | negativeBox
  deriving DecidableEq, Repr

def GeometryFault.message : GeometryFault → String
  | .noOnCurvePoint => "contour has no on-curve point"
  | .unpairedControlPoint => "off-curve point is not followed by an on-curve point"
  | .curveOnScanLine => "curve runs along the scan line"
  | .negativeBox => "bounding box has a negative size"

/-- What can be looked up by a number. -/
inductive Indexed where
  | font
  | glyph
  | function
  | storage
  | controlValue
  | point
  deriving DecidableEq, Repr

/-- The word for what was looked up. -/
def Indexed.name : Indexed → String
  | .font => "font"
  | .glyph => "glyph"
  | .function => "function"
  | .storage => "storage"
  | .controlValue => "cvt"
  | .point => "point"

/-- Why byte code cannot be decoded, is not well bracketed, or cannot go on. -/
inductive HintingFault where
  /-- The program ends before `offset`. -/
  | noInstruction (offset : Nat)
  /-- The program ends inside the data of an instruction. -/
  | missingData (opcode : Opcode) (offset : Nat)
  /-- A block gets a second other branch. -/
  | secondElse (offset opened : Nat)
  /-- An other branch belongs to no block. -/
  | strayElse (offset : Nat)
  /-- The end of a block belongs to no block. -/
  | strayEndIf (offset : Nat)
  /-- A definition starts inside another one. -/
  | nestedDefinition (opcode : Opcode) (offset opened : Nat)
  /-- A definition ends while a block inside it is open. -/
  | definitionEndsInBlock (opened : Nat)
  /-- The end of a definition belongs to no definition. -/
  | strayEndFunction (offset : Nat)
  /-- A definition is never closed. -/
  | unclosedDefinition (opened : Nat)
  /-- A block is never closed. -/
  | unclosedIf (opened : Nat)
  /-- The rest of a running block has no end. -/
  | unclosedBlock (start : Nat)
  /-- The rest of a running definition has no end. -/
  | unclosedFunction (start : Nat)
  | stackOverflow
  | popFromEmpty
  | readFromEmpty
  | noStackElement (position : Int32) (depth : Nat)
  | definedTwice (index : Int32) (kind : ProgramKind) (start : Nat)
  | undefinedFunction (index : Int32)
  | nullVector
  | unknownZone (value : Int32)
  | instructionLimit (limit : Nat)
  | callDepth (limit : Nat)
  | endOutsideFunction (offset : Nat)
  | bodyRunsPastEnd
  | loopCount (count : Int32)
  | deltaShift (value : UInt32)
  | controlSelector (selector : Int32)
  | scanFlags (flags : UInt32)
  | divisionByZero
  | jumpLeaves (offset : Nat) (distance : Int32)
  | unknownOpcode (byte : UInt8) (offset : Nat)
  deriving DecidableEq, Repr

def HintingFault.message : HintingFault → String
  | .noInstruction offset => s!"no instruction at offset {offset}"
  | .missingData opcode offset =>
      s!"{opcode.mnemonic} at offset {offset} is missing its inline data"
  | .secondElse offset opened =>
      s!"second ELSE at offset {offset} for the IF at offset {opened}"
  | .strayElse offset => s!"ELSE at offset {offset} without a matching IF"
  | .strayEndIf offset => s!"EIF at offset {offset} without a matching IF"
  | .nestedDefinition opcode offset opened =>
      s!"{opcode.mnemonic} at offset {offset} is nested inside the definition at offset {opened}"
  | .definitionEndsInBlock opened =>
      s!"function defined at offset {opened} ends inside an IF block"
  | .strayEndFunction offset => s!"ENDF at offset {offset} without a matching FDEF"
  | .unclosedDefinition opened =>
      s!"missing ENDF for the function defined at offset {opened}"
  | .unclosedIf opened => s!"missing EIF for the IF at offset {opened}"
  | .unclosedBlock start => s!"missing EIF for the block ending at offset {start}"
  | .unclosedFunction start => s!"missing ENDF for the function starting at offset {start}"
  | .stackOverflow => "stack overflow"
  | .popFromEmpty => "pop from empty stack"
  | .readFromEmpty => "read from empty stack"
  | .noStackElement position depth =>
      s!"stack element {position.toInt} requested but the stack only has {depth} elements"
  | .definedTwice index kind start =>
      s!"function {index.toInt} is defined twice (first in {kind.name} program at offset {start})"
  | .undefinedFunction index => s!"call to undefined function {index.toInt}"
  | .nullVector => "cannot normalize the null vector"
  | .unknownZone value =>
      s!"{value.toInt} is neither the twilight (0) nor the glyph zone (1)"
  | .instructionLimit limit => s!"exceeded the limit of {limit} executed instructions"
  | .callDepth limit => s!"function calls are nested deeper than {limit}"
  | .endOutsideFunction offset => s!"ENDF at offset {offset} outside of a function"
  | .bodyRunsPastEnd => "function body runs past the end of its program"
  | .loopCount count => s!"SLOOP with a count of {count.toInt}"
  | .deltaShift value => s!"delta shift must be at most 6, got {value.toNat}"
  | .controlSelector selector =>
      s!"INSTCTRL selector must be 1, 2 or 3, got {selector.toInt}"
  | .scanFlags flags => s!"unsupported SCANCTRL flags 0x{Text.hex flags.toNat}"
  | .divisionByZero => "division by zero"
  | .jumpLeaves offset distance =>
      s!"jump from offset {offset} by {distance.toInt} leaves the program"
  | .unknownOpcode byte offset =>
      s!"unknown opcode 0x{Text.hexPadded 2 byte.toNat} at offset {offset}"

/-- Why a font cannot be read, a glyph not be decoded, hinted or drawn. -/
inductive FontError where
  /-- A header or a table breaks a rule of its format. -/
  | malformedHeader (fault : HeaderFault)
  /-- The data ends inside something that starts at `offset`. -/
  | truncated (offset : Nat)
  /-- A required table is absent. -/
  | missingTable (tag : Tag)
  /-- An index is not below its limit. -/
  | outOfRange (what : Indexed) (index limit : Nat)
  /-- A glyph record breaks a rule of its format. -/
  | malformedGlyph (glyph : UInt16) (fault : GlyphFault)
  /-- A component is placed by matching points. -/
  | pointMatching (glyph : UInt16)
  /-- A variation other than the default is asked for. -/
  | variationSelector (selector : UInt32)
  /-- An instruction is known but not carried out. -/
  | unimplemented (opcode : Opcode) (offset : Nat)
  /-- Byte code fails. -/
  | hinting (fault : HintingFault)
  /-- An outline cannot be drawn. -/
  | degenerate (fault : GeometryFault)
  /-- A cell would be empty or larger than the em square. -/
  | gridSize (size : Nat)
  deriving DecidableEq, Repr

def FontError.message : FontError → String
  | .malformedHeader fault => s!"malformed header: {fault.message}"
  | .truncated offset => s!"unexpected end of data at offset 0x{Text.hex offset}"
  | .missingTable tag => s!"font does not contain a {tag.text} table"
  | .outOfRange what index limit =>
      s!"{what.name} index {index} is out of range (limit is {limit})"
  | .malformedGlyph glyph fault => s!"malformed glyph {glyph.toNat}: {fault.message}"
  | .pointMatching glyph =>
      s!"composite glyph {glyph.toNat} uses point matching, which is not supported"
  | .variationSelector selector =>
      s!"variation selector 0x{Text.hex selector.toNat} is not supported"
  | .unimplemented opcode offset =>
      s!"instruction {opcode.mnemonic} at offset {offset} is not implemented"
  | .hinting fault => s!"hinting failed: {fault.message}"
  | .degenerate fault => s!"degenerate geometry: {fault.message}"
  | .gridSize size => s!"grid size must be between 1 and units per em, got {size}"

end OutlineFont
