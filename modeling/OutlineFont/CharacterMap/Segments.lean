import OutlineFont.Cursor

/-!
# Segment maps

A segment map covers the characters below two to the sixteenth.  It stores
segments of successive characters in four parallel arrays; a segment moves its
characters by a common distance to their glyphs.
-/

namespace OutlineFont

/-- Successive characters with the distance to their glyphs. -/
structure Segment where
  start : UInt16
  stop : UInt16
  delta : Int16
  /-- Other than zero if glyphs are looked up in an array, which is not supported. -/
  rangeOffset : UInt16
  deriving DecidableEq, Repr, Inhabited

namespace Segment

def covers (segment : Segment) (character : UInt16) : Bool :=
  segment.start ≤ character && character ≤ segment.stop

/-- The glyph of a character of a segment, modulo two to the sixteenth. -/
def glyph? (segment : Segment) (character : UInt16) : Option UInt16 :=
  if segment.rangeOffset = 0 then some (character + segment.delta.toUInt16) else none

/-- Whether a segment is the mark after the last segment. -/
def isFinal (segment : Segment) : Bool :=
  segment.start == 0xffff && segment.stop == 0xffff

/-- The characters of a segment in ascending order. -/
def characters (segment : Segment) : List UInt16 :=
  (List.range' segment.start.toNat (segment.stop.toNat + 1 - segment.start.toNat)).map UInt16.ofNat

end Segment

/-- Segments in file order. -/
structure SegmentMap where
  segments : List Segment
  deriving DecidableEq, Repr, Inhabited

namespace SegmentMap

def format : UInt16 := 4

/-- The segment at an index of the four arrays, which hold `count` entries each. -/
def segmentAt (data : Bytes) (count index : Nat) : Except FontError Segment := do
  let stop ← Bytes.u16At data (14 + 2 * index)
  let start ← Bytes.u16At data (16 + 2 * count + 2 * index)
  let delta ← Bytes.i16At data (16 + 4 * count + 2 * index)
  let rangeOffset ← Bytes.u16At data (16 + 6 * count + 2 * index)
  return ⟨start, stop, delta, rangeOffset⟩

/-- Read a segment map; all four arrays have to be there. -/
def parse (table : Bytes) : Except FontError SegmentMap := do
  if (← Bytes.u16At table 0) ≠ format then
    throw (.malformedHeader .notSegmentMap)
  let count := (← Bytes.u16At table 6).toNat / 2
  let data ← Bytes.slice table 0 (16 + 8 * count)
  return ⟨← (List.range count).mapM (segmentAt data count)⟩

/-- The first segment that holds a character. -/
def segment? (map : SegmentMap) (character : UInt16) : Option Segment :=
  map.segments.find? (·.covers character)

/-- The glyph of a character, from the first segment that holds it. -/
def glyph? (map : SegmentMap) (character : UInt16) : Option UInt16 :=
  (map.segment? character).bind (·.glyph? character)

/-- Whether a character belongs to a segment that is not supported. -/
def isUnsupported (map : SegmentMap) (character : UInt16) : Bool :=
  (map.segment? character).any fun segment => segment.rangeOffset != 0

/-- The characters of all segments before the final mark. -/
def characters (map : SegmentMap) : List UInt16 :=
  (map.segments.takeWhile (!·.isFinal)).flatMap (·.characters)

end SegmentMap

end OutlineFont
