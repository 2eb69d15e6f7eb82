/-!
# Platforms

A subtable of the character map is made for a platform and one of its
encodings.  Some of them encode Unicode.
-/

namespace OutlineFont

inductive UnicodeEncoding where
  | version10
  | version11
  | iso10646
  | basicPlane
  | full
  | variationSequences
  | lastResort
  | unknown
  deriving DecidableEq, Repr

inductive WindowsEncoding where
  | symbol
  | basicPlane
  | shiftJis
  | prc
  | bigFive
  | johab
  | full
  | unknown
  deriving DecidableEq, Repr

/-- A platform with its encoding, where the encoding matters. -/
inductive Platform where
  | unicode (encoding : UnicodeEncoding)
  | macintosh
  | reserved
  | windows (encoding : WindowsEncoding)
  | unknown
  deriving DecidableEq, Repr

/-- How far a subtable is trusted; the Windows platform wins. -/
inductive Preference where
  | fallback
  | preferred
  deriving DecidableEq, Repr

def UnicodeEncoding.ofNumber (number : UInt16) : UnicodeEncoding :=
  match number.toNat with
  | 0 => .version10
  | 1 => .version11
  | 2 => .iso10646
  | 3 => .basicPlane
  | 4 => .full
  | 5 => .variationSequences
  | 6 => .lastResort
  | _ => .unknown

def UnicodeEncoding.label : UnicodeEncoding → String
  | .version10 => "Version1_0"
  | .version11 => "Version1_1"
  | .iso10646 => "Iso10646_1993SemanticDeprecated"
  | .basicPlane => "Unicode2_0OrLaterBmpOnly"
  | .full => "Unicode2_0OrLater"
  | .variationSequences => "UnicodeVariationSequences"
  | .lastResort => "LastResort"
  | .unknown => "Unknown"

def WindowsEncoding.ofNumber (number : UInt16) : WindowsEncoding :=
  match number.toNat with
  | 0 => .symbol
  | 1 => .basicPlane
  | 2 => .shiftJis
  | 3 => .prc
  | 4 => .bigFive
  | 5 => .johab
  | 10 => .full
  | _ => .unknown

def WindowsEncoding.label : WindowsEncoding → String
  | .symbol => "Symbol"
  | .basicPlane => "UnicodeBmpOnly"
  | .shiftJis => "ShiftJis"
  | .prc => "Prc"
  | .bigFive => "BigFive"
  | .johab => "Johab"
  | .full => "UnicodeUcs4"
  | .unknown => "Unknown"

namespace Platform

def ofNumbers (platform encoding : UInt16) : Platform :=
  match platform.toNat with
  | 0 => .unicode (.ofNumber encoding)
  | 1 => .macintosh
  | 2 => .reserved
  | 3 => .windows (.ofNumber encoding)
  | _ => .unknown

def label : Platform → String
  | .unicode encoding => s!"Unicode({encoding.label})"
  | .macintosh => "Mac"
  | .reserved => "Reserved"
  | .windows encoding => s!"Microsoft({encoding.label})"
  | .unknown => "Unknown"

/-- How far a platform is trusted to map Unicode, if at all. -/
def preference? : Platform → Option Preference
  | .windows .basicPlane | .windows .full => some .preferred
  | .unicode .basicPlane | .unicode .full => some .fallback
  | _ => none

end Platform

end OutlineFont
