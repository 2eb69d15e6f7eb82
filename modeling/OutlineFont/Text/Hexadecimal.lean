/-!
# Hexadecimal numerals

Lower-case numerals in base sixteen, of the least length and padded with zeros
to a given length.
-/

namespace OutlineFont.Text

/-- The digits of `n` in base sixteen, the most significant first. -/
def hexDigits (n : Nat) : List Char :=
  Nat.toDigits 16 n

/-- The numeral of `n` without padding. -/
def hex (n : Nat) : String :=
  String.ofList (hexDigits n)

/-- The numeral of `n`, filled up with zeros on the left to at least `width` digits. -/
def hexPadded (width n : Nat) : String :=
  String.ofList (List.leftpad width '0' (hexDigits n))

/-- A byte string, two digits for every byte. -/
def hexBytes (bytes : List UInt8) : String :=
  String.ofList (bytes.flatMap fun byte => List.leftpad 2 '0' (hexDigits byte.toNat))

end OutlineFont.Text
