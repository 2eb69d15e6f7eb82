import OutlineFont.Outline.Contour

/-!
# Masks

A mask is a grid of cells that are filled or not, laid over the bounding box
of a glyph.  The first row is the lowest.
-/

namespace OutlineFont

/-- Cells row by row, from the lowest row up and in a row from left to right. -/
structure Mask where
  width : Nat
  height : Nat
  /-- The edge length of a cell in font units. -/
  gridSize : Nat
  /-- The lower left corner. -/
  origin : Position
  cells : Array Bool
  deriving DecidableEq, Repr, Inhabited

namespace Mask

/-- Whether a cell is filled, if there is such a cell. -/
def get? (mask : Mask) (x y : Nat) : Option Bool :=
  if x < mask.width ∧ y < mask.height then mask.cells[y * mask.width + x]? else none

def filledCount (mask : Mask) : Nat :=
  mask.cells.countP id

def cellCharacter (filled : Bool) : Char :=
  if filled then '#' else '.'

/-- The characters of a row, with the end of the line. -/
def rowCharacters (mask : Mask) (y : Nat) : List Char :=
  (mask.cells.extract (y * mask.width) (y * mask.width + mask.width)).toList.map cellCharacter ++
    ['\n']

/-- The rows in words, the highest first. -/
def text (mask : Mask) : String :=
  String.ofList ((List.range mask.height).reverse.flatMap mask.rowCharacters)

end Mask

end OutlineFont
