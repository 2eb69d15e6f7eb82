import OutlineFont.Hinting.Fixed
import OutlineFont.Text.Decimal

/-!
# The text of distances

A distance is written in pixels, as the shortest decimal of the nearest number
of single precision.
-/

namespace OutlineFont.Hinting.Fixed

/-- The number of single precision nearest to a distance in pixels, without its sign. -/
def singleMagnitude (value : Fixed) : Text.Binary :=
  let nearest := Text.Binary.nearest 24 value.bits.toInt.natAbs
  { nearest with exponent := nearest.exponent - 6 }

def magnitudeText (value : Fixed) : String :=
  if value.bits = 0 then "0" else value.singleMagnitude.shortest.text

/-- A distance in pixels. -/
def text (value : Fixed) : String :=
  (if value.bits < 0 then "-" else "") ++ value.magnitudeText

/-- A distance in pixels, with a point also for whole numbers. -/
def pointedText (value : Fixed) : String :=
  if value.text.toList.contains '.' then value.text else value.text ++ ".0"

example : (Fixed.mk (-96)).text = "-1.5" := by decide +kernel

example : (Fixed.mk 128).pointedText = "2.0" := by decide +kernel

end OutlineFont.Hinting.Fixed
