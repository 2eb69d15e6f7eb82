import OutlineFont.Error

/-!
# Checked reads

A number or a piece of a byte string is read at an offset, and the read fails
exactly when its end lies beyond the string.  A cursor walks along a string;
a step that fails leaves it where it was.
-/

namespace OutlineFont

namespace Bytes

/-- The `length` bytes from `offset` on. -/
def slice (data : Bytes) (offset length : Nat) : Except FontError Bytes :=
  if offset + length ≤ data.size then
    .ok (data.extract offset (offset + length))
  else
    .error (.truncated offset)

theorem slice_of_le {data : Bytes} {offset length : Nat}
    (inside : offset + length ≤ data.size) :
    slice data offset length = .ok (data.extract offset (offset + length)) := by
  simp [slice, inside]

theorem slice_of_lt {data : Bytes} {offset length : Nat}
    (outside : data.size < offset + length) :
    slice data offset length = .error (.truncated offset) := by
  simp [slice, Nat.not_le.mpr outside]

/-- The number in the `width` bytes from `offset` on. -/
def number (data : Bytes) (offset width : Nat) : Except FontError Nat :=
  (slice data offset width).map fun bytes => bigEndian bytes.toList

theorem number_of_le {data : Bytes} {offset width : Nat}
    (inside : offset + width ≤ data.size) :
    number data offset width =
      .ok (bigEndian (data.extract offset (offset + width)).toList) := by
  rw [number, slice_of_le inside]
  rfl

theorem number_of_lt {data : Bytes} {offset width : Nat}
    (outside : data.size < offset + width) :
    number data offset width = .error (.truncated offset) := by
  rw [number, slice_of_lt outside]
  rfl

def u16At (data : Bytes) (offset : Nat) : Except FontError UInt16 :=
  (number data offset 2).map UInt16.ofNat

def i16At (data : Bytes) (offset : Nat) : Except FontError Int16 :=
  (number data offset 2).map Int16.ofNat

def u32At (data : Bytes) (offset : Nat) : Except FontError UInt32 :=
  (number data offset 4).map UInt32.ofNat

end Bytes

/-- A place in a byte string. -/
structure Cursor where
  data : Bytes
  offset : Nat
  deriving DecidableEq, Inhabited

/-- A computation that moves a cursor and may fail; a failure keeps the cursor. -/
abbrev Reader := EStateM FontError Cursor

namespace Cursor

def atEnd (cursor : Cursor) : Bool :=
  cursor.data.size ≤ cursor.offset

end Cursor

namespace Reader

def bytes (length : Nat) : Reader Bytes := fun cursor =>
  match Bytes.slice cursor.data cursor.offset length with
  | .ok taken => .ok taken { cursor with offset := cursor.offset + length }
  | .error failure => .error failure cursor

def skip (length : Nat) : Reader Unit := fun cursor =>
  if cursor.offset + length ≤ cursor.data.size then
    .ok () { cursor with offset := cursor.offset + length }
  else
    .error (.truncated cursor.offset) cursor

def number (width : Nat) : Reader Nat := fun cursor =>
  match Bytes.number cursor.data cursor.offset width with
  | .ok value => .ok value { cursor with offset := cursor.offset + width }
  | .error failure => .error failure cursor

def u8 : Reader UInt8 :=
  UInt8.ofNat <$> number 1

def i8 : Reader Int8 :=
  Int8.ofNat <$> number 1

def u16 : Reader UInt16 :=
  UInt16.ofNat <$> number 2

def i16 : Reader Int16 :=
  Int16.ofNat <$> number 2

def u32 : Reader UInt32 :=
  UInt32.ofNat <$> number 4

def i32 : Reader Int32 :=
  Int32.ofNat <$> number 4

/-- Accept a result, or fail as it failed. -/
def accept {α : Type} (result : Except FontError α) : Reader α := fun cursor =>
  match result with
  | .ok value => .ok value cursor
  | .error failure => .error failure cursor

def times {α : Type} (count : Nat) (reader : Reader α) : Reader (List α) :=
  (List.replicate count ()).mapM fun _ => reader

/-- The outcome of a reader that starts at `offset`. -/
def outcome {α : Type} (reader : Reader α) (data : Bytes) (offset : Nat) : Except FontError α :=
  match reader ⟨data, offset⟩ with
  | .ok value _ => .ok value
  | .error failure _ => .error failure

end Reader

end OutlineFont
