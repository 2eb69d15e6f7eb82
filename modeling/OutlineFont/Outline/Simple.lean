import OutlineFont.Cursor
import OutlineFont.Outline.Glyph

/-!
# Simple glyph records

A simple record stores the last point of every contour, a program, a flag for
every point, and the coordinates as differences.  Equal flags in a row may be
stored once with a count; a difference takes two bytes, one byte or none.
-/

namespace OutlineFont

/-- How a coordinate difference is stored. -/
inductive DeltaForm where
  | word
  | zero
  | negativeByte
  | positiveByte
  deriving DecidableEq, Repr

namespace DeltaForm

/-- The form that the two flag bits of an axis select. -/
def ofBits (short sameOrPositive : Bool) : DeltaForm :=
  match short, sameOrPositive with
  | false, false => .word
  | false, true => .zero
  | true, false => .negativeByte
  | true, true => .positiveByte

def read : DeltaForm → Reader Int16
  | .word => Reader.i16
  | .zero => pure 0
  | .negativeByte => (fun byte => -Int16.ofNat byte.toNat) <$> Reader.u8
  | .positiveByte => (fun byte => Int16.ofNat byte.toNat) <$> Reader.u8

end DeltaForm

structure PointFlag where
  byte : UInt8
  deriving DecidableEq, Repr, Inhabited

namespace PointFlag

def has (flag : PointFlag) (bit : UInt8) : Bool :=
  flag.byte &&& bit != 0

def onCurve (flag : PointFlag) : Bool :=
  flag.has 1

/-- Whether a count of further points with the same flags follows. -/
def repeats (flag : PointFlag) : Bool :=
  flag.has 8

def formX (flag : PointFlag) : DeltaForm :=
  .ofBits (flag.has 2) (flag.has 16)

def formY (flag : PointFlag) : DeltaForm :=
  .ofBits (flag.has 4) (flag.has 32)

end PointFlag

namespace Metrics

def read : Reader Metrics :=
  return ⟨← Reader.i16, ← Reader.i16, ← Reader.i16, ← Reader.i16⟩

end Metrics

namespace SimpleGlyph

/-- Read `count` end points after those in `seen`, the latest first; they must ascend. -/
def readEndPoints (glyph : UInt16) : (count : Nat) → (seen : List Nat) → Reader (List Nat)
  | 0, seen => pure seen.reverse
  | count + 1, seen => do
      let last := (← Reader.u16).toNat
      if seen.head?.any (last ≤ ·) then
        throw (.malformedGlyph glyph .endPointsDescend)
      readEndPoints glyph count (last :: seen)

/-- Read the length and the bytes of a program. -/
def readInstructions : Reader Bytes := do
  let length ← Reader.u16
  Reader.bytes length.toNat

/--
Read flags for `missing` points after those in `seen`, the latest first.  Every
round reads at least one flag, so `missing` rounds are enough.
-/
def readFlags (glyph : UInt16) :
    (rounds missing : Nat) → (seen : List PointFlag) → Reader (List PointFlag)
  | rounds + 1, missing + 1, seen => do
      let flag : PointFlag := ⟨← Reader.u8⟩
      if flag.repeats then
        let count := (← Reader.u8).toNat
        if missing < count then
          throw (.malformedGlyph glyph .repeatTooLong)
        readFlags glyph rounds (missing - count) (List.replicate (count + 1) flag ++ seen)
      else
        readFlags glyph rounds missing (flag :: seen)
  | _, _, seen => pure seen.reverse

/-- Read differences and add them up from `previous` on; coordinates wrap. -/
def readCoordinates : List DeltaForm → (previous : Int16) → (seen : List Int16) →
    Reader (List Int16)
  | [], _, seen => pure seen.reverse
  | form :: rest, previous, seen => do
      let coordinate := previous + (← form.read)
      readCoordinates rest coordinate (coordinate :: seen)

/-- Put points together from flags and coordinates. -/
def points (flags : List PointFlag) (xs ys : List Int16) : List Point :=
  List.zipWith (fun (flag : PointFlag) (place : Int16 × Int16) =>
    ⟨place.1, place.2, flag.onCurve⟩) flags (xs.zip ys)

/-- Cut points into contours that end at given points, from the one with index `first` on. -/
def split (glyph : UInt16) : (first : Nat) → (endPoints : List Nat) → List Point →
    Except FontError (List Contour)
  | _, [], _ => .ok []
  | first, last :: rest, points =>
      let size := last + 1 - first
      let piece := points.take size
      if piece.length = size then
        (split glyph (last + 1) rest (points.drop size)).map (⟨piece⟩ :: ·)
      else
        .error (.malformedGlyph glyph .pointsMissing)

/-- Read a simple record after its header; without contours nothing follows. -/
def read (glyph : UInt16) (contourCount : Nat) (metrics : Metrics) : Reader Glyph := do
  if contourCount = 0 then
    return ⟨metrics, #[], []⟩
  let endPoints ← readEndPoints glyph contourCount []
  let instructions ← readInstructions
  let count := endPoints.getLast?.elim 0 (· + 1)
  let flags ← readFlags glyph count count []
  let xs ← readCoordinates (flags.map (·.formX)) 0 []
  let ys ← readCoordinates (flags.map (·.formY)) 0 []
  let contours ← Reader.accept (split glyph 0 endPoints (points flags xs ys))
  return ⟨metrics, instructions, contours⟩

end SimpleGlyph

end OutlineFont
