import OutlineFont.Hinting.GraphicsState
import OutlineFont.Hinting.Stack
import OutlineFont.Journal
import OutlineFont.Outline.Point
import OutlineFont.Table.MaximumProfile

/-!
# The machine

The state that programs share: the stack, the storage, the functions, the
control values and the graphics state.  Operations on it may fail, and a
failure keeps what had been changed before it.
-/

namespace OutlineFont.Hinting

/-- A place in a program from which a call starts. -/
structure Function where
  program : Program
  start : Nat
  deriving DecidableEq, Inhabited

/-- The state that programs share, at one size. -/
structure Machine where
  stack : Stack
  storage : Array Int32
  functions : Array (Option Function)
  graphics : GraphicsState
  /-- Control values in pixels. -/
  controls : Array Fixed
  twilight : Array Point
  outline : Array Point
  /-- Pixels per em. -/
  ppem : Nat
  unitsPerEm : UInt16
  deriving Inhabited

/-- The greatest number of storage places and of functions that are provided. -/
def reservationLimit : Nat := 4096

/-- What is provided for a declared number. -/
def reserve (requested : UInt16) : Nat :=
  min requested.toNat reservationLimit

/-- Work on the machine that may fail. -/
abbrev Engine := EStateM FontError Machine

namespace Machine

/--
A machine for cells of `gridSize` font units: control values are scaled, and
everything else is empty or at its initial value.
-/
def create (profile : MaximumProfile) (controlValues : List Int16) (unitsPerEm : UInt16)
    (gridSize : Nat) : Except FontError Machine :=
  if gridSize = 0 ∨ unitsPerEm.toNat < gridSize then
    .error (.gridSize gridSize)
  else
    let ppem := unitsPerEm.toNat / gridSize
    .ok {
      stack := .empty
      storage := Array.replicate (reserve profile.storage) 0
      functions := Array.replicate (reserve profile.functions) none
      graphics := .initial
      controls :=
        (controlValues.map fun value => .ofFontUnits value.toInt32 ppem unitsPerEm).toArray
      twilight := Array.replicate profile.twilightPoints.toNat ⟨0, 0, true⟩
      outline := #[]
      ppem := ppem
      unitsPerEm := unitsPerEm }

def zone (machine : Machine) : Zone → Array Point
  | .twilight => machine.twilight
  | .glyph => machine.outline

/-- A length in font units at the size of the machine. -/
def scale (machine : Machine) (value : Int32) : Fixed :=
  .ofFontUnits value machine.ppem machine.unitsPerEm

end Machine

/-- The index that a stack element denotes. -/
def toIndex (value : Int32) : Nat :=
  value.toUInt32.toNat

namespace Engine

def fail {α : Type} (fault : HintingFault) : Engine α :=
  throw (.hinting fault)

def accept {α : Type} (result : Except FontError α) : Engine α := fun machine =>
  match result with
  | .ok value => .ok value machine
  | .error failure => .error failure machine

/-- Put a new stack in place, or keep the old one and fail. -/
def rearrange (change : Stack → Except FontError Stack) : Engine Unit := fun machine =>
  match change machine.stack with
  | .ok stack => .ok () { machine with stack := stack }
  | .error failure => .error failure machine

def push (value : Int32) : Engine Unit :=
  rearrange fun stack => stack.push value

def pushTruth (value : Bool) : Engine Unit :=
  push (if value then 1 else 0)

def pushAll : List Int32 → Engine Unit
  | [] => pure ()
  | value :: rest => do
      push value
      pushAll rest

def pop : Engine Int32 := fun machine =>
  match machine.stack.pop with
  | .ok (value, stack) => .ok value { machine with stack := stack }
  | .error failure => .error failure machine

/-- Pop an element that is read without a sign. -/
def popUnsigned : Engine UInt32 :=
  Int32.toUInt32 <$> pop

def popTruth : Engine Bool :=
  (· != 0) <$> pop

def popDistance : Engine Fixed :=
  Fixed.mk <$> pop

/-- The topmost element, which stays. -/
def peek : Engine Int32 := fun machine =>
  match machine.stack.peek with
  | .ok value => .ok value machine
  | .error failure => .error failure machine

def changeGraphics (change : GraphicsState → GraphicsState) : Engine Unit :=
  modify fun machine => { machine with graphics := change machine.graphics }

def readStorage (index : Int32) : Engine Int32 := fun machine =>
  match machine.storage[toIndex index]? with
  | some value => .ok value machine
  | none => .error (.outOfRange .storage (toIndex index) machine.storage.size) machine

def writeStorage (index value : Int32) : Engine Unit := fun machine =>
  if inside : toIndex index < machine.storage.size then
    .ok () { machine with storage := machine.storage.set (toIndex index) value inside }
  else
    .error (.outOfRange .storage (toIndex index) machine.storage.size) machine

def readControl (index : Int32) : Engine Fixed := fun machine =>
  match machine.controls[toIndex index]? with
  | some value => .ok value machine
  | none => .error (.outOfRange .controlValue (toIndex index) machine.controls.size) machine

def changeControl (index : Int32) (change : Fixed → Fixed) : Engine Unit := fun machine =>
  if inside : toIndex index < machine.controls.size then
    .ok () { machine with
      controls := machine.controls.set (toIndex index) (change machine.controls[toIndex index])
        inside }
  else
    .error (.outOfRange .controlValue (toIndex index) machine.controls.size) machine

/-- Bind an index to a function; each index is bound at most once. -/
def define (index : Int32) (function : Function) : Engine Unit := fun machine =>
  if inside : toIndex index < machine.functions.size then
    match machine.functions[toIndex index] with
    | none =>
        .ok () { machine with
          functions := machine.functions.set (toIndex index) (some function) inside }
    | some first =>
        .error (.hinting (.definedTwice index first.program.kind first.start)) machine
  else
    .error (.outOfRange .function (toIndex index) machine.functions.size) machine

def lookup (index : Int32) : Engine Function := fun machine =>
  match machine.functions[toIndex index]? with
  | some (some function) => .ok function machine
  | some none => .error (.hinting (.undefinedFunction index)) machine
  | none => .error (.outOfRange .function (toIndex index) machine.functions.size) machine

end Engine

end OutlineFont.Hinting
