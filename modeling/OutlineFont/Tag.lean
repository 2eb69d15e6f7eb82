import OutlineFont.Text.Hexadecimal

/-!
# Table tags

A table of a font file is named by a tag of four bytes.  Tags of existing
tables are readable, but a file may hold any four bytes.
-/

namespace OutlineFont

/-- Four bytes that name a table, the first one most significant. -/
structure Tag where
  code : UInt32
  deriving DecidableEq, Repr, Inhabited

namespace Tag

/-- The four bytes of a tag in file order. -/
def bytes (tag : Tag) : List UInt8 :=
  [(tag.code >>> 24).toUInt8, (tag.code >>> 16).toUInt8, (tag.code >>> 8).toUInt8,
    tag.code.toUInt8]

/-- A byte stands for itself when it is visible ASCII or a blank, and is escaped otherwise. -/
def byteText (byte : UInt8) : String :=
  if 0x20 ≤ byte ∧ byte ≤ 0x7e then
    String.singleton (Char.ofNat byte.toNat)
  else
    "\\x" ++ Text.hexPadded 2 byte.toNat

def text (tag : Tag) : String :=
  String.join (tag.bytes.map byteText)

/-- Character map. -/
def cmap : Tag := ⟨0x636d6170⟩

/-- Control values. -/
def cvt : Tag := ⟨0x63767420⟩

/-- Font program. -/
def fpgm : Tag := ⟨0x6670676d⟩

/-- Glyph records. -/
def glyf : Tag := ⟨0x676c7966⟩

/-- Font header. -/
def head : Tag := ⟨0x68656164⟩

/-- Locations of the glyph records. -/
def loca : Tag := ⟨0x6c6f6361⟩

/-- Maximum profile. -/
def maxp : Tag := ⟨0x6d617870⟩

/-- Control value program. -/
def prep : Tag := ⟨0x70726570⟩

example : cvt.text = "cvt " := by decide +kernel

example : (Tag.mk 0x41001fff).text = "A\\x00\\x1f\\xff" := by decide +kernel

end Tag

end OutlineFont
