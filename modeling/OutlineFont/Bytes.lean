/-!
# Byte strings and big-endian numbers

A font file is a byte string, and every number in it is stored with its most
significant byte first.
-/

namespace OutlineFont

abbrev Bytes := Array UInt8

/-- The number that a list of bytes denotes, the first byte most significant. -/
def bigEndian (bytes : List UInt8) : Nat :=
  bytes.foldl (fun total byte => 256 * total + byte.toNat) 0

/-- The last `width` bytes of a number, the most significant first. -/
def bigEndianBytes : (width value : Nat) → List UInt8
  | 0, _ => []
  | width + 1, value => bigEndianBytes width (value / 256) ++ [UInt8.ofNat value]

theorem length_bigEndianBytes (width value : Nat) :
    (bigEndianBytes width value).length = width := by
  induction width generalizing value with
  | zero => rfl
  | succ width ih => simp [bigEndianBytes, ih]

theorem bigEndian_append_singleton (bytes : List UInt8) (byte : UInt8) :
    bigEndian (bytes ++ [byte]) = 256 * bigEndian bytes + byte.toNat := by
  simp [bigEndian]

example : bigEndian [0x12, 0x34] = 0x1234 := by decide

example : bigEndianBytes 4 0x1234 = [0, 0, 0x12, 0x34] := by decide

end OutlineFont
