import OutlineFont.Proofs.StoredNumbers

/-!
# Walks of a cursor

A cursor takes numbers and byte strings and passes over bytes, one step after
another, and goes on after a step that has failed.  A step succeeds exactly when
its end lies inside the string, and its value then depends on the bytes alone
that it moves over; otherwise it fails where the cursor stands.  The bytes of
what a walk has taken, with those it has passed over, are those between its
ends.  Offsets and lengths are natural numbers, so no sum of them overflows.
-/

namespace OutlineFont

namespace Cursor

/-- The numbers that can be taken: with or without a sign, of one, two or four bytes. -/
inductive NumberFormat where
  | u8
  | i8
  | u16
  | i16
  | u32
  | i32
  deriving DecidableEq, Repr

namespace NumberFormat

def width : NumberFormat → Nat
  | u8 | i8 => 1
  | u16 | i16 => 2
  | u32 | i32 => 4

def signed : NumberFormat → Bool
  | u8 | u16 | u32 => false
  | i8 | i16 | i32 => true

def read : NumberFormat → Reader Int
  | u8 => (fun value => (value.toNat : Int)) <$> Reader.u8
  | i8 => Int8.toInt <$> Reader.i8
  | u16 => (fun value => (value.toNat : Int)) <$> Reader.u16
  | i16 => Int16.toInt <$> Reader.i16
  | u32 => (fun value => (value.toNat : Int)) <$> Reader.u32
  | i32 => Int32.toInt <$> Reader.i32

/-- The number that bytes denote, the first one most significant, in two's complement. -/
def denoted (format : NumberFormat) (bytes : List UInt8) : Int :=
  if format.signed ∧ 256 ^ format.width ≤ 2 * bigEndian bytes then
    (bigEndian bytes : Int) - 256 ^ format.width
  else
    bigEndian bytes

def encode (format : NumberFormat) (value : Int) : List UInt8 :=
  bigEndianBytes format.width (value % 256 ^ format.width).toNat

variable (format : NumberFormat)

/-- The number that bytes denote is stored in these bytes. -/
theorem encode_denoted {bytes : List UInt8} (size : bytes.length = format.width) :
    format.encode (format.denoted bytes) = bytes := by
  have below := bigEndian_lt bytes
  rw [size] at below
  have remainder : (bigEndian bytes : Int) % 256 ^ format.width = bigEndian bytes :=
    Int.emod_eq_of_lt (Int.natCast_nonneg _) (by exact_mod_cast below)
  have same : format.denoted bytes % 256 ^ format.width = bigEndian bytes := by
    unfold denoted
    split
    · rw [Int.sub_emod_right, remainder]
    · exact remainder
  rw [encode, same, Int.toNat_natCast, bigEndianBytes_bigEndian size]

/-- What a word of the format makes of the number that its bytes hold. -/
def held : NumberFormat → Nat → Int
  | u8, number => (UInt8.ofNat number).toNat
  | i8, number => (Int8.ofNat number).toInt
  | u16, number => (UInt16.ofNat number).toNat
  | i16, number => (Int16.ofNat number).toInt
  | u32, number => (UInt32.ofNat number).toNat
  | i32, number => (Int32.ofNat number).toInt

theorem width_ne_zero : format.width ≠ 0 := by
  cases format <;> decide

theorem denoted_of_unsigned (unsigned : format.signed = false) (bytes : List UInt8) :
    format.denoted bytes = bigEndian bytes :=
  if_neg fun both => Bool.false_ne_true (unsigned.symm.trans both.1)

/-- In two's complement the number is the balanced remainder of the one without a sign. -/
theorem denoted_of_signed (isSigned : format.signed = true) {bytes : List UInt8}
    (below : bigEndian bytes < 256 ^ format.width) :
    format.denoted bytes = (bigEndian bytes : Int).bmod (256 ^ format.width) := by
  have even : 2 ∣ 256 ^ format.width := dvd_pow (by decide) format.width_ne_zero
  have cast : (256 ^ format.width : Int) = (256 ^ format.width : Nat) := by push_cast; rfl
  unfold denoted
  simp only [isSigned, cast, true_and]
  clear cast
  generalize 256 ^ format.width = modulus at *
  have remainder : (bigEndian bytes : Int) % modulus = bigEndian bytes :=
    Int.emod_eq_of_lt (Int.natCast_nonneg _) (by exact_mod_cast below)
  rw [Int.bmod_def, remainder]
  split_ifs <;> omega

theorem held_bigEndian {bytes : List UInt8} (size : bytes.length = format.width) :
    format.held (bigEndian bytes) = format.denoted bytes := by
  have below := bigEndian_lt bytes
  rw [size] at below
  cases format with
  | u8 =>
      rw [denoted_of_unsigned _ rfl]
      exact congrArg Nat.cast (UInt8.toNat_ofNat_of_lt' below)
  | u16 =>
      rw [denoted_of_unsigned _ rfl]
      exact congrArg Nat.cast (UInt16.toNat_ofNat_of_lt' below)
  | u32 =>
      rw [denoted_of_unsigned _ rfl]
      exact congrArg Nat.cast (UInt32.toNat_ofNat_of_lt' below)
  | i8 => exact Int8.toInt_ofNat'.trans (denoted_of_signed _ rfl below).symm
  | i16 => exact Int16.toInt_ofNat'.trans (denoted_of_signed _ rfl below).symm
  | i32 => exact Int32.toInt_ofNat'.trans (denoted_of_signed _ rfl below).symm

theorem read_eq_map : format.read = format.held <$> Reader.number format.width := by
  cases format with
  | u8 | i8 | u16 | i16 | u32 | i32 => exact (comp_map _ _ _).symm

end NumberFormat

/-- What a cursor can be asked to do. -/
inductive Step where
  | number (format : NumberFormat)
  | bytes (length : Nat)
  | skip (length : Nat)
  deriving DecidableEq, Repr

/-- What a step returns. -/
inductive Value where
  | number (value : Int)
  | bytes (content : Bytes)
  | nothing
  deriving DecidableEq

/-- The bytes from one offset up to another. -/
def bytesBetween (data : Bytes) (start stop : Nat) : List UInt8 :=
  (data.extract start stop).toList

theorem bytesBetween_self (data : Bytes) (start : Nat) : bytesBetween data start start = [] := by
  simp [bytesBetween]

theorem length_bytesBetween {data : Bytes} {start length : Nat}
    (inside : start + length ≤ data.size) :
    (bytesBetween data start (start + length)).length = length := by
  rw [bytesBetween, Array.length_toList, Array.size_extract]
  omega

theorem bytesBetween_append {data : Bytes} {start middle stop : Nat} (first : start ≤ middle)
    (second : middle ≤ stop) :
    bytesBetween data start middle ++ bytesBetween data middle stop =
      bytesBetween data start stop := by
  rw [bytesBetween, bytesBetween, ← Array.toList_append, Array.extract_append_extract,
    Nat.min_eq_left first, Nat.max_eq_right second]
  rfl

namespace Step

/-- The number of bytes that a step moves over. -/
def size : Step → Nat
  | number format => format.width
  | bytes length | skip length => length

def take : Step → Reader Value
  | number format => Value.number <$> format.read
  | bytes length => Value.bytes <$> Reader.bytes length
  | skip length => (fun _ => Value.nothing) <$> Reader.skip length

/-- What a step returns when it moves over some bytes. -/
def valueOf : Step → List UInt8 → Value
  | number format, taken => .number (format.denoted taken)
  | bytes _, taken => .bytes taken.toArray
  | skip _, _ => .nothing

variable (step : Step) {cursor : Cursor}

/-- A step whose end lies inside the string moves the cursor there. -/
theorem take_of_le (inside : cursor.offset + step.size ≤ cursor.data.size) :
    step.take cursor =
      .ok (step.valueOf (bytesBetween cursor.data cursor.offset (cursor.offset + step.size)))
        { cursor with offset := cursor.offset + step.size } := by
  cases step with
  | number format =>
      refine map_eq_ok_iff.mpr ⟨_, ?_, rfl⟩
      rw [format.read_eq_map]
      exact map_eq_ok_iff.mpr ⟨_, Reader.number_eq_ok_iff.mpr ⟨inside, rfl, rfl⟩,
        format.held_bigEndian (length_bytesBetween inside)⟩
  | bytes length =>
      refine map_eq_ok_iff.mpr ⟨_, Reader.bytes_eq_ok_iff.mpr ⟨inside, rfl, rfl⟩, ?_⟩
      rfl
  | skip length =>
      exact map_eq_ok_iff.mpr ⟨(), Reader.skip_eq_ok_iff.mpr ⟨inside, rfl⟩, rfl⟩

/-- A step whose end lies outside fails where the cursor stands, and leaves it there. -/
theorem take_of_lt (outside : cursor.data.size < cursor.offset + step.size) :
    step.take cursor = .error (.truncated cursor.offset) cursor := by
  cases step with
  | number format =>
      refine map_of_error _ ?_
      rw [format.read_eq_map]
      refine map_of_error _ ?_
      have failed : Bytes.number cursor.data cursor.offset format.width =
          .error (.truncated cursor.offset) := Bytes.number_of_lt outside
      unfold Reader.number
      rw [failed]
  | bytes length =>
      refine map_of_error _ ?_
      have failed : Bytes.slice cursor.data cursor.offset length =
          .error (.truncated cursor.offset) := Bytes.slice_of_lt outside
      unfold Reader.bytes
      rw [failed]
  | skip length =>
      refine map_of_error _ ?_
      exact if_neg (Nat.not_le.mpr outside)

end Step

/-- A step of a walk, with the offset where it started and what came of it. -/
structure Visit where
  step : Step
  start : Nat
  result : Except FontError Value
  deriving DecidableEq

/-- Do some steps one after the other, those that fail included. -/
def walk : List Step → Cursor → List Visit × Cursor
  | [], cursor => ([], cursor)
  | step :: rest, cursor =>
      match step.take cursor with
      | .ok value next =>
          let (visits, last) := walk rest next
          (⟨step, cursor.offset, .ok value⟩ :: visits, last)
      | .error failure next =>
          let (visits, last) := walk rest next
          (⟨step, cursor.offset, .error failure⟩ :: visits, last)

/--
A walk from one offset to another: each step whose end lies inside the string returns what
the bytes at its start denote and advances by its size, and each other step fails at its
start and is passed by.
-/
inductive Walks (data : Bytes) : (start : Nat) → List Step → List Visit → (stop : Nat) → Prop where
  | done {start : Nat} : Walks data start [] [] start
  | moves {start stop : Nat} {step : Step} {rest : List Step} {visits : List Visit}
      (inside : start + step.size ≤ data.size)
      (after : Walks data (start + step.size) rest visits stop) :
      Walks data start (step :: rest)
        (⟨step, start, .ok (step.valueOf (bytesBetween data start (start + step.size)))⟩ :: visits)
        stop
  | stays {start stop : Nat} {step : Step} {rest : List Step} {visits : List Visit}
      (outside : data.size < start + step.size) (after : Walks data start rest visits stop) :
      Walks data start (step :: rest) (⟨step, start, .error (.truncated start)⟩ :: visits) stop

/-- Doing steps is a walk in the same string. -/
theorem exists_walk_eq (data : Bytes) (start : Nat) (steps : List Step) :
    ∃ visits stop, walk steps ⟨data, start⟩ = (visits, ⟨data, stop⟩) ∧
      Walks data start steps visits stop := by
  induction steps generalizing start with
  | nil => exact ⟨[], start, rfl, .done⟩
  | cons step rest ih =>
      rw [walk]
      by_cases inside : start + step.size ≤ data.size
      · obtain ⟨visits, stop, walked, walks⟩ := ih (start + step.size)
        refine ⟨_, stop, ?_, .moves inside walks⟩
        rw [step.take_of_le inside]
        simp only [walked]
      · have outside := Nat.lt_of_not_le inside
        obtain ⟨visits, stop, walked, walks⟩ := ih start
        refine ⟨_, stop, ?_, .stays outside walks⟩
        rw [step.take_of_lt outside]
        simp only [walked]

/-- The bytes that what a step has returned is stored in, or those that it has passed over. -/
def Visit.covered (data : Bytes) (visit : Visit) : List UInt8 :=
  match visit.step, visit.result with
  | .number format, .ok (.number value) => format.encode value
  | .bytes _, .ok (.bytes content) => content.toList
  | .skip length, .ok .nothing => bytesBetween data visit.start (visit.start + length)
  | _, _ => []

/-- A step that succeeds covers the bytes that it moves over. -/
theorem covered_of_le {data : Bytes} {start : Nat} {step : Step}
    (inside : start + step.size ≤ data.size) :
    Visit.covered data
        ⟨step, start, .ok (step.valueOf (bytesBetween data start (start + step.size)))⟩ =
      bytesBetween data start (start + step.size) := by
  cases step with
  | number format => exact format.encode_denoted (length_bytesBetween inside)
  | bytes length => rfl
  | skip length => rfl

theorem covered_error (data : Bytes) (step : Step) (start : Nat) (failure : FontError) :
    Visit.covered data ⟨step, start, .error failure⟩ = [] := by
  cases step with
  | number | bytes | skip => rfl

namespace Walks

variable {data : Bytes} {start stop : Nat} {steps : List Step} {visits : List Visit}

theorem start_le_stop (walks : Walks data start steps visits stop) : start ≤ stop := by
  induction walks with
  | done => exact Nat.le_refl _
  | moves _ _ ih => exact (Nat.le_add_right _ _).trans ih
  | stays _ _ ih => exact ih

theorem stop_le_size (walks : Walks data start steps visits stop) (inside : start ≤ data.size) :
    stop ≤ data.size := by
  induction walks with
  | done => exact inside
  | moves within _ ih => exact ih within
  | stays _ _ ih => exact ih inside

/-- A walk covers the bytes between its ends, in order. -/
theorem flatMap_covered (walks : Walks data start steps visits stop) :
    visits.flatMap (Visit.covered data) = bytesBetween data start stop := by
  induction walks with
  | done => exact (bytesBetween_self data _).symm
  | moves inside after ih =>
      rw [List.flatMap_cons, covered_of_le inside, ih,
        bytesBetween_append (Nat.le_add_right _ _) after.start_le_stop]
  | stays _ _ ih => rw [List.flatMap_cons, covered_error, ih, List.nil_append]

end Walks

/--
Steps that a cursor does one after the other are a walk.  The bytes of what has been
returned, with those passed over, are in order the bytes between the start and the place
where the cursor ends, and from a start inside the string the cursor never leaves it.
-/
theorem walk_lawful (data : Bytes) (start : Nat) (steps : List Step) :
    ∃ visits stop, walk steps ⟨data, start⟩ = (visits, ⟨data, stop⟩) ∧
      Walks data start steps visits stop ∧
      visits.flatMap (Visit.covered data) = bytesBetween data start stop ∧
      (start ≤ data.size → start ≤ stop ∧ stop ≤ data.size) := by
  obtain ⟨visits, stop, walked, walks⟩ := exists_walk_eq data start steps
  exact ⟨visits, stop, walked, walks, walks.flatMap_covered,
    fun inside => ⟨walks.start_le_stop, walks.stop_le_size inside⟩⟩

/-- Two of the steps fail, and those behind them go on where the cursor has stayed. -/
theorem walk_lawful_failuresBetween :
    let data : Bytes := #[0x12, 0x34, 0xFF, 0xFE, 0x80, 0x01, 0x02]
    let steps : List Step :=
      [.number .u16, .number .i16, .number .u32, .number .i8, .skip 1, .bytes 2, .bytes 1]
    0 ≤ data.size ∧
      (∃ visits stop, walk steps ⟨data, 0⟩ = (visits, ⟨data, stop⟩) ∧
        visits.flatMap (Visit.covered data) = bytesBetween data 0 stop ∧ stop ≤ data.size) ∧
      (walk steps ⟨data, 0⟩).1.map Visit.result =
        [.ok (.number 0x1234), .ok (.number (-2)), .error (.truncated 4), .ok (.number (-128)),
          .ok .nothing, .error (.truncated 6), .ok (.bytes #[0x02])] := by
  intro data steps
  obtain ⟨visits, stop, walked, _, covered, inside⟩ := walk_lawful data 0 steps
  have start : 0 ≤ data.size := Nat.zero_le _
  exact ⟨start, ⟨visits, stop, walked, covered, (inside start).2⟩, by decide +kernel⟩

end Cursor

end OutlineFont
