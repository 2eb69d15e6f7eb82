import OutlineFont.Cursor

/-!
# Group maps

A group map covers all characters.  A group maps successive characters to
successive glyphs.
-/

namespace OutlineFont

/-- Successive characters with the glyph of the first one. -/
structure Group where
  start : UInt32
  stop : UInt32
  glyph : UInt32
  deriving DecidableEq, Repr, Inhabited

namespace Group

def size : Nat := 12

def covers (group : Group) (character : UInt32) : Bool :=
  group.start ≤ character && character ≤ group.stop

/-- The glyph of a character of a group, which must be a glyph number. -/
def glyphOf (group : Group) (character : UInt32) : Except FontError UInt16 :=
  let glyph := group.glyph.toNat + (character.toNat - group.start.toNat)
  if glyph < 65536 then
    .ok (UInt16.ofNat glyph)
  else
    .error (.malformedHeader .glyphAboveLimit)

end Group

/-- Groups in file order. -/
structure GroupMap where
  groups : List Group
  deriving DecidableEq, Repr, Inhabited

namespace GroupMap

def format : UInt16 := 12

def groupAt (data : Bytes) (index : Nat) : Except FontError Group := do
  let start ← Bytes.u32At data (Group.size * index)
  let stop ← Bytes.u32At data (Group.size * index + 4)
  let glyph ← Bytes.u32At data (Group.size * index + 8)
  return ⟨start, stop, glyph⟩

/-- Read a group map; all groups have to be there. -/
def parse (table : Bytes) : Except FontError GroupMap := do
  if (← Bytes.u16At table 0) ≠ format then
    throw (.malformedHeader .notGroupMap)
  let count := (← Bytes.u32At table 12).toNat
  let data ← Bytes.slice table 16 (count * Group.size)
  return ⟨← (List.range count).mapM (groupAt data)⟩

/-- The glyph of a character, from the first group that holds it. -/
def glyph? (map : GroupMap) (character : UInt32) : Except FontError (Option UInt16) :=
  match map.groups.find? (·.covers character) with
  | some group => (group.glyphOf character).map some
  | none => .ok none

end GroupMap

end OutlineFont
