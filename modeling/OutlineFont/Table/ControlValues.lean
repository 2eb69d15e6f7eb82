import OutlineFont.Cursor

/-!
# Control values

Lengths in font units that programs refer to by index.
-/

namespace OutlineFont.ControlValues

/-- The lengths of a table, which is made of nothing but sixteen-bit numbers. -/
def parse (data : Bytes) : Except FontError (List Int16) :=
  if data.size % 2 = 0 then
    (List.range (data.size / 2)).mapM fun index => Bytes.i16At data (2 * index)
  else
    .error (.malformedHeader .oddControlValues)

end OutlineFont.ControlValues
