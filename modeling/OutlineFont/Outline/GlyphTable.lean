import OutlineFont.Outline.Component
import OutlineFont.Outline.Simple
import OutlineFont.Table.GlyphLocations

/-!
# Decoding glyphs

A glyph is decoded by resolving its components, which may have components of
their own.  References may form cycles, so their depth and their number are
bounded, and so is the number of points.
-/

namespace OutlineFont

/-- The greatest number of composite glyphs that contain one another. -/
def nestingLimit : Nat := 8

/-- The greatest number of components of a glyph, on all levels together. -/
def componentLimit : Nat := 1024

/-- The greatest number of points of a glyph. -/
def pointLimit : Nat := 65536

/-- A component that was met while a glyph was decoded. -/
structure Reference where
  composite : UInt16
  component : Component
  deriving DecidableEq, Repr

/-- What has been met so far: a count of started component records, and those that were read. -/
structure Trail where
  started : Nat
  references : Array Reference
  deriving DecidableEq, Repr

namespace Trail

/-- Before the first component. -/
def empty : Trail :=
  ⟨0, #[]⟩

end Trail

/-- Decoding that meets components and may fail. -/
abbrev Resolver := EStateM FontError Trail

namespace Resolver

def fail {α : Type} (glyph : UInt16) (fault : GlyphFault) : Resolver α :=
  throw (.malformedGlyph glyph fault)

def accept {α : Type} (result : Except FontError α) : Resolver α := fun trail =>
  match result with
  | .ok value => .ok value trail
  | .error failure => .error failure trail

def readFrom {α : Type} (cursor : Cursor) (reader : Reader α) : Resolver (α × Cursor) :=
  fun trail =>
    match reader cursor with
    | .ok value cursor => .ok (value, cursor) trail
    | .error failure _ => .error failure trail

/-- Count a component record, of which there may not be too many. -/
def startComponent (composite : UInt16) : Resolver Unit := do
  modify fun trail => { trail with started := trail.started + 1 }
  if componentLimit < (← get).started then
    fail composite .tooManyComponents

/-- Remember a component. -/
def meet (composite : UInt16) (component : Component) : Resolver Unit :=
  modify fun trail => { trail with references := trail.references.push ⟨composite, component⟩ }

end Resolver

/-- The records of all glyphs, with their locations. -/
structure GlyphTable where
  data : Bytes
  locations : GlyphLocations
  deriving DecidableEq, Inhabited

/-- What all glyph records start with. -/
structure RecordHeader where
  /-- Negative for a composite glyph. -/
  contourCount : Int16
  metrics : Metrics
  deriving DecidableEq, Repr

namespace RecordHeader

def read : Reader RecordHeader :=
  return ⟨← Reader.i16, ← Metrics.read⟩

end RecordHeader

namespace GlyphTable

/-- The record of a glyph; a glyph without an outline has none. -/
def record? (table : GlyphTable) (glyph : UInt16) : Except FontError (Option Bytes) := do
  let range ← table.locations.range glyph
  if range.start = range.stop then
    return none
  else if range.stop ≤ table.data.size then
    return some (table.data.extract range.start range.stop)
  else
    throw (.truncated range.start)

/--
Resolve the components of a composite glyph from a cursor on.  `points` and
`seen` are the number of points and, the latest first, the contours of earlier
components.  The answer holds the flags of the last component, the cursor after
it and all contours.
-/
def resolveComponents (resolve : UInt16 → Resolver Glyph) (composite : UInt16) :
    (rounds : Nat) → Cursor → (points : Nat) → (seen : List Contour) →
      Resolver (ComponentFlags × Cursor × List Contour)
  | 0, _, _, _ => Resolver.fail composite .tooManyComponents
  | rounds + 1, cursor, points, seen => do
      Resolver.startComponent composite
      let (component, cursor) ← Resolver.readFrom cursor (Component.read composite)
      Resolver.meet composite component
      let glyph ← resolve component.glyph
      let points := points + glyph.pointCount
      if pointLimit < points then
        Resolver.fail composite .tooManyPoints
      let seen := (component.placeAll glyph).reverse ++ seen
      if component.flags.isLast then
        return (component.flags, cursor, seen.reverse)
      else
        resolveComponents resolve composite rounds cursor points seen

/-- Read a composite record after its header.  Only the program of its own is kept. -/
def resolveComposite (resolve : UInt16 → Resolver Glyph) (composite : UInt16)
    (metrics : Metrics) (cursor : Cursor) : Resolver Glyph := do
  let (flags, cursor, contours) ← resolveComponents resolve composite componentLimit cursor 0 []
  if flags.hasInstructions then
    let (instructions, _) ← Resolver.readFrom cursor SimpleGlyph.readInstructions
    return ⟨metrics, instructions, contours⟩
  else
    return ⟨metrics, #[], contours⟩

/-- Decode a glyph, given how to resolve components; without that, components are too deep. -/
def resolveWith (table : GlyphTable) (resolve? : Option (UInt16 → Resolver Glyph))
    (glyph : UInt16) : Resolver Glyph := do
  match ← Resolver.accept (table.record? glyph) with
  | none => return .blank
  | some data =>
      let (header, cursor) ← Resolver.readFrom ⟨data, 0⟩ RecordHeader.read
      if 0 ≤ header.contourCount then
        let (decoded, _) ← Resolver.readFrom cursor
          (SimpleGlyph.read glyph header.contourCount.toInt.toNat header.metrics)
        return decoded
      else
        match resolve? with
        | none => Resolver.fail glyph .nestedTooDeeply
        | some resolve => resolveComposite resolve glyph header.metrics cursor

/-- Decode a glyph in which at most `depth` composite glyphs may contain one another. -/
def resolve (table : GlyphTable) : (depth : Nat) → UInt16 → Resolver Glyph
  | 0 => table.resolveWith none
  | depth + 1 => table.resolveWith (some (table.resolve depth))

/-- Decode a glyph, with the components that were met until the end or a failure. -/
def decodeTracing (table : GlyphTable) (glyph : UInt16) : Except FontError Glyph × Trail :=
  match table.resolve nestingLimit glyph .empty with
  | .ok decoded trail => (.ok decoded, trail)
  | .error failure trail => (.error failure, trail)

def decode (table : GlyphTable) (glyph : UInt16) : Except FontError Glyph :=
  (table.decodeTracing glyph).1

end GlyphTable

end OutlineFont
