import OutlineFont.Hinting.Fixed

/-!
# Round states

How a program wants its distances rounded.  Every state but `off` rounds the
magnitude of a distance and gives the result the sign of the distance.
-/

namespace OutlineFont.Hinting

/-- Where rounded distances may lie. -/
inductive Rounding where
  /-- Halfway between two pixels. -/
  | halfGrid
  /-- On the nearest pixel. -/
  | grid
  /-- On the nearest half pixel. -/
  | doubleGrid
  /-- On the next pixel toward zero. -/
  | downToGrid
  /-- On the next pixel away from zero. -/
  | upToGrid
  /-- Anywhere. -/
  | off
  deriving DecidableEq, Repr, Inhabited

namespace Rounding

def name : Rounding → String
  | .halfGrid => "HalfGrid"
  | .grid => "Grid"
  | .doubleGrid => "DoubleGrid"
  | .downToGrid => "DownToGrid"
  | .upToGrid => "UpToGrid"
  | .off => "Off"

def all : List Rounding :=
  [.halfGrid, .grid, .doubleGrid, .downToGrid, .upToGrid, .off]

def ofName? (name : String) : Option Rounding :=
  all.find? fun state => state.name = name

/-- What a state other than `off` makes of a magnitude. -/
def roundMagnitude (state : Rounding) (magnitude : Fixed) : Fixed :=
  match state with
  | .halfGrid => magnitude.floor + .half
  | .grid => (magnitude + .half).floor
  | .doubleGrid => (magnitude + ⟨16⟩).floorTo 32
  | .downToGrid => magnitude.floor
  | .upToGrid => magnitude.ceil
  | .off => magnitude

/--
Round a distance.  The compensation is added to the magnitude before it is
rounded, and a rounded magnitude below zero counts as zero.
-/
def round (state : Rounding) (value compensation : Fixed) : Fixed :=
  if state = .off then
    value
  else
    let rounded := Fixed.max (state.roundMagnitude (value.abs + compensation)) .zero
    if value.bits < 0 then -rounded else rounded

end Rounding

end OutlineFont.Hinting
