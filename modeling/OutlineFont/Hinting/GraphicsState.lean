import OutlineFont.Hinting.UnitVector

/-!
# The graphics state

The settings that instructions read and change, with the values that hold
before any program has run.
-/

namespace OutlineFont.Hinting

/-- A set of points that instructions can refer to. -/
inductive Zone where
  /-- Points that exist for hinting only. -/
  | twilight
  /-- The points of the glyph. -/
  | glyph
  deriving DecidableEq, Repr, Inhabited

def Zone.name : Zone → String
  | .twilight => "Twilight"
  | .glyph => "Glyph"

def Zone.ofNumber (value : Int32) : Except FontError Zone :=
  if value = 0 then
    .ok .twilight
  else if value = 1 then
    .ok .glyph
  else
    .error (.hinting (.unknownZone value))

structure GraphicsState where
  autoFlip : Bool
  controlCutIn : Fixed
  deltaBase : UInt32
  deltaShift : Nat
  freedom : UnitVector
  /-- Three flags, of which the lowest inhibits glyph programs. -/
  instructionControl : UInt32
  loopCount : Nat
  minimumDistance : Fixed
  projection : UnitVector
  rounding : Rounding
  references : Vector UInt32 3
  scanControl : Bool
  scanType : Int32
  widthCutIn : Fixed
  width : Fixed
  zones : Vector Zone 3

namespace GraphicsState

def initial : GraphicsState where
  autoFlip := true
  controlCutIn := ⟨68⟩
  deltaBase := 9
  deltaShift := 3
  freedom := .ofAxis .x
  instructionControl := 0
  loopCount := 1
  minimumDistance := .one
  projection := .ofAxis .x
  rounding := .grid
  references := Vector.replicate 3 0
  scanControl := false
  scanType := 0
  widthCutIn := .zero
  width := .zero
  zones := Vector.replicate 3 .glyph

instance : Inhabited GraphicsState := ⟨initial⟩

/-- Point one or both vectors along an axis. -/
def setVectors (state : GraphicsState) (choice : VectorChoice) (axis : Axis) : GraphicsState :=
  match choice with
  | .both => { state with projection := .ofAxis axis, freedom := .ofAxis axis }
  | .projection => { state with projection := .ofAxis axis }
  | .freedom => { state with freedom := .ofAxis axis }

def firstReference (state : GraphicsState) : UInt32 :=
  state.references[0]

/-- The zone of the first reference point. -/
def firstZone (state : GraphicsState) : Zone :=
  state.zones[0]

/-- Make a point the first and the second reference point. -/
def setFirstReferences (state : GraphicsState) (point : UInt32) : GraphicsState :=
  { state with references := (state.references.set 0 point).set 1 point }

/-- Set or clear the flag of a selector, counted from one. -/
def setInstructionControl (state : GraphicsState) (selector : Nat) (on : Bool) : GraphicsState :=
  let flag : UInt32 := 1 <<< UInt32.ofNat (selector - 1)
  { state with
    instructionControl :=
      if on then state.instructionControl ||| flag else state.instructionControl &&& ~~~flag }

def inhibitsGlyphPrograms (state : GraphicsState) : Bool :=
  state.instructionControl &&& 1 != 0

/--
When dropouts are to be filled: always for the greatest threshold, never for
zero, and else, if the flag for sizes is set, up to the threshold.
-/
def setScanControl (state : GraphicsState) (flags : UInt32) (ppem : Nat) :
    Except FontError GraphicsState :=
  let threshold := flags &&& 0xff
  if threshold = 0xff then
    .ok { state with scanControl := true }
  else if threshold = 0 then
    .ok { state with scanControl := false }
  else if flags &&& 0x3e00 ≠ 0 then
    .error (.hinting (.scanFlags flags))
  else if flags &&& 0x100 ≠ 0 ∧ ppem ≤ threshold.toNat then
    .ok { state with scanControl := true }
  else
    .ok state

end GraphicsState

end OutlineFont.Hinting
