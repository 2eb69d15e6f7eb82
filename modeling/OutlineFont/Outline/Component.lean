import OutlineFont.Cursor
import OutlineFont.Outline.Glyph

/-!
# Components

A composite glyph is made of other glyphs.  A component record names a glyph
and says how its points are transformed and moved.
-/

namespace OutlineFont

structure ComponentFlags where
  word : UInt16
  deriving DecidableEq, Repr, Inhabited

namespace ComponentFlags

def has (flags : ComponentFlags) (bit : UInt16) : Bool :=
  flags.word &&& bit != 0

/-- Whether the two arguments are words, and not bytes. -/
def wordArguments (flags : ComponentFlags) : Bool :=
  flags.has 0x0001

/-- Whether the two arguments are an offset, and not points to be matched. -/
def offsetArguments (flags : ComponentFlags) : Bool :=
  flags.has 0x0002

/-- Whether one scale follows. -/
def hasScale (flags : ComponentFlags) : Bool :=
  flags.has 0x0008

def isLast (flags : ComponentFlags) : Bool :=
  !flags.has 0x0020

def hasAxisScales (flags : ComponentFlags) : Bool :=
  flags.has 0x0040

def hasMatrix (flags : ComponentFlags) : Bool :=
  flags.has 0x0080

/-- Whether a program follows the last component. -/
def hasInstructions (flags : ComponentFlags) : Bool :=
  flags.has 0x0100

def describe (flags : ComponentFlags) : String :=
  s!"Compound Glyph Flag \x7b arg 1 and 2 are words: {flags.wordArguments}, " ++
  s!"args are xy values: {flags.offsetArguments}, has scale: {flags.hasScale}, " ++
  s!"is last component: {flags.isLast}, has xy scale: {flags.hasAxisScales}, " ++
  s!"has two by two: {flags.hasMatrix}, has instructions: {flags.hasInstructions} \x7d"

end ComponentFlags

/-- A matrix of numbers in 2.14 fixed point. -/
structure Matrix where
  xx : Int16
  xy : Int16
  yx : Int16
  yy : Int16
  deriving DecidableEq, Repr

namespace Matrix

/-- A number in 2.14 fixed point, which single precision holds exactly. -/
def entry (value : Int16) : Float32 :=
  Float32.ofInt value.toInt / 16384

/--
A combination of two coordinates in single precision.  A half is rounded away
from zero, and what does not fit a coordinate becomes the nearest one.
-/
def combine (a b : Int16) (x y : Int16) : Int16 :=
  (entry a * Float32.ofInt x.toInt + entry b * Float32.ofInt y.toInt).round.toInt16

def apply (matrix : Matrix) (point : Point) : Point :=
  { point with
    x := combine matrix.xx matrix.yx point.x point.y
    y := combine matrix.xy matrix.yy point.x point.y }

end Matrix

/-- A glyph inside another one. -/
structure Component where
  flags : ComponentFlags
  glyph : UInt16
  dx : Int16
  dy : Int16
  matrix : Option Matrix
  deriving DecidableEq, Repr

namespace Component

def readOffset (flags : ComponentFlags) : Reader (Int16 × Int16) := do
  if flags.wordArguments then
    return (← Reader.i16, ← Reader.i16)
  else
    return ((← Reader.i8).toInt16, (← Reader.i8).toInt16)

/-- Read the transformation; of several that are flagged only the first is stored. -/
def readMatrix (flags : ComponentFlags) : Reader (Option Matrix) := do
  if flags.hasScale then
    let scale ← Reader.i16
    return some ⟨scale, 0, 0, scale⟩
  else if flags.hasAxisScales then
    return some ⟨← Reader.i16, 0, 0, ← Reader.i16⟩
  else if flags.hasMatrix then
    return some ⟨← Reader.i16, ← Reader.i16, ← Reader.i16, ← Reader.i16⟩
  else
    return none

def read (composite : UInt16) : Reader Component := do
  let flags : ComponentFlags := ⟨← Reader.u16⟩
  let glyph ← Reader.u16
  if !flags.offsetArguments then
    throw (.pointMatching composite)
  let (dx, dy) ← readOffset flags
  return ⟨flags, glyph, dx, dy, ← readMatrix flags⟩

/-- Where a point of the component goes. -/
def place (component : Component) (point : Point) : Point :=
  (component.matrix.elim point fun matrix => matrix.apply point).translate
    component.dx component.dy

/-- The contours of the component's glyph, put in place. -/
def placeAll (component : Component) (glyph : Glyph) : List Contour :=
  glyph.contours.map fun contour => ⟨contour.points.map component.place⟩

end Component

end OutlineFont
