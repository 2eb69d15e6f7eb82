import OutlineFont.Cursor
import OutlineFont.Proofs.Sequencing

/-!
# What readers take

A reader takes some bytes when, wherever these bytes stand in a byte string and
whatever comes before and after them, it moves over exactly these and returns
the value that they denote.  Conversely, what a reader has returned tells which
bytes it has moved over.
-/

namespace OutlineFont

/-- A number that fits its bytes is read back from them. -/
theorem bigEndian_bigEndianBytes {width value : Nat} (fits : value < 256 ^ width) :
    bigEndian (bigEndianBytes width value) = value := by
  induction width generalizing value with
  | zero =>
      rw [Nat.pow_zero, Nat.lt_one_iff] at fits
      simp [fits, bigEndianBytes, bigEndian]
  | succ width ih =>
      have smaller : value / 256 < 256 ^ width := by
        rw [Nat.pow_succ] at fits
        exact Nat.div_lt_of_lt_mul (by omega)
      rw [bigEndianBytes, bigEndian_append_singleton, ih smaller]
      simp only [UInt8.toNat_ofNat']
      omega

/-- Bytes are the last bytes of the number that they denote. -/
theorem bigEndianBytes_bigEndian {width : Nat} {bytes : List UInt8}
    (size : bytes.length = width) : bigEndianBytes width (bigEndian bytes) = bytes := by
  induction width generalizing bytes with
  | zero => simp_all [bigEndianBytes]
  | succ width ih =>
      rcases List.eq_nil_or_concat bytes with empty | ⟨front, byte, whole⟩
      · simp [empty] at size
      · subst whole
        have below := byte.toNat_lt
        have quotient : (256 * bigEndian front + byte.toNat) / 256 = bigEndian front := by
          omega
        have last : UInt8.ofNat (256 * bigEndian front + byte.toNat) = byte := by
          apply UInt8.toNat_inj.mp
          rw [UInt8.toNat_ofNat']
          omega
        rw [List.concat_eq_append, List.length_append, List.length_singleton,
          Nat.add_right_cancel_iff] at size
        rw [List.concat_eq_append, bigEndian_append_singleton, bigEndianBytes, quotient, last,
          ih size]

theorem bigEndian_lt (bytes : List UInt8) : bigEndian bytes < 256 ^ bytes.length := by
  induction bytes using List.reverseRecOn with
  | nil => exact Nat.one_pos
  | append_singleton front byte ih =>
      have below := byte.toNat_lt
      rw [bigEndian_append_singleton, List.length_append, List.length_singleton, Nat.pow_succ]
      omega

namespace Reader

variable {α β : Type}

/-- A reader takes exactly these bytes, wherever they stand, and returns this value. -/
def Takes (reader : Reader α) (bytes : List UInt8) (value : α) : Prop :=
  ∀ before after : List UInt8, reader ⟨(before ++ bytes ++ after).toArray, before.length⟩ =
    .ok value ⟨(before ++ bytes ++ after).toArray, before.length + bytes.length⟩

namespace Takes

theorem pure (value : α) : Takes (pure value) [] value :=
  fun _ _ => rfl

/-- What two readers take one after the other is taken by both in a row. -/
theorem bind {first : Reader α} {next : α → Reader β} {front back : List UInt8} {value : α}
    {result : β} (takesFront : Takes first front value)
    (takesBack : Takes (next value) back result) :
    Takes (first >>= next) (front ++ back) result := by
  intro before after
  have start := takesFront before (back ++ after)
  have finish := takesBack (before ++ front) after
  simp only [List.append_assoc, List.length_append] at start finish ⊢
  rw [bind_of_ok start, finish, Nat.add_assoc]

/-- What is returned after the last reader takes nothing. -/
theorem bind_pure {reader : Reader α} {next : α → Reader β} {bytes : List UInt8} {value : α}
    {result : β} (takes : Takes reader bytes value) (returns : next value = Pure.pure result) :
    Takes (reader >>= next) bytes result := by
  have finish : Takes (next value) [] result := by
    rw [returns]
    exact pure result
  rw [← List.append_nil bytes]
  exact takes.bind finish

theorem map {reader : Reader α} {bytes : List UInt8} {value : α} (takes : Takes reader bytes value)
    (change : α → β) : Takes (change <$> reader) bytes (change value) := by
  rw [map_eq_pure_bind]
  exact takes.bind_pure rfl

theorem accept {result : Except FontError α} {value : α} (same : result = .ok value) :
    Takes (accept result) [] value := by
  subst same
  exact fun _ _ => rfl

/-- The bytes from the end of some on are those that follow. -/
theorem slice_append (before bytes after : List UInt8) :
    Bytes.slice (before ++ bytes ++ after).toArray before.length bytes.length =
      .ok bytes.toArray := by
  rw [Bytes.slice_of_le]
  · simp
  · simp

theorem bytes (content : List UInt8) : Takes (bytes content.length) content content.toArray := by
  intro before after
  unfold Reader.bytes
  rw [slice_append]

theorem number {width value : Nat} (fits : value < 256 ^ width) :
    Takes (number width) (bigEndianBytes width value) value := by
  intro before after
  have slice := slice_append before (bigEndianBytes width value) after
  rw [length_bigEndianBytes] at slice ⊢
  unfold Reader.number Bytes.number
  dsimp only
  rw [slice]
  simp only [Except.map, bigEndian_bigEndianBytes fits]

theorem u8 (byte : UInt8) : Takes u8 [byte] byte := by
  have takes := (number (show byte.toNat < 256 ^ 1 from byte.toNat_lt)).map UInt8.ofNat
  have single : bigEndianBytes 1 byte.toNat = [byte] := by
    simp [bigEndianBytes]
  rw [UInt8.ofNat_toNat, single] at takes
  exact takes

theorem u16 (value : UInt16) : Takes u16 (bigEndianBytes 2 value.toNat) value := by
  have takes := (number (show value.toNat < 256 ^ 2 from value.toNat_lt)).map UInt16.ofNat
  rw [UInt16.ofNat_toNat] at takes
  exact takes

/-- A signed number is stored as the unsigned number with the same bits. -/
theorem i16 (value : Int16) : Takes i16 (bigEndianBytes 2 value.toUInt16.toNat) value := by
  have takes := (number (show value.toUInt16.toNat < 256 ^ 2 from
    value.toUInt16.toNat_lt)).map Int16.ofNat
  have same : Int16.ofNat value.toUInt16.toNat = value :=
    congrArg Int16.ofUInt16 UInt16.ofNat_toNat
  rw [same] at takes
  exact takes

theorem i8 (value : Int8) : Takes i8 [value.toUInt8] value := by
  have takes := (number (show value.toUInt8.toNat < 256 ^ 1 from
    value.toUInt8.toNat_lt)).map Int8.ofNat
  have single : bigEndianBytes 1 value.toUInt8.toNat = [value.toUInt8] := by
    simp [bigEndianBytes]
  have same : Int8.ofNat value.toUInt8.toNat = value :=
    congrArg Int8.ofUInt8 UInt8.ofNat_toNat
  rw [single, same] at takes
  exact takes

/-- One reader takes from one place the same bytes and the same value. -/
theorem unique {reader : Reader α} {bytes others after behind : List UInt8}
    {value other : α} (takes : Takes reader bytes value) (again : Takes reader others other)
    (same : bytes ++ after = others ++ behind) :
    value = other ∧ bytes = others ∧ after = behind := by
  have first := takes [] after
  have second := again [] behind
  simp only [List.nil_append, List.length_nil, Nat.zero_add] at first second
  rw [same, second] at first
  injection first with equal place
  have size := congrArg Cursor.offset place
  exact ⟨equal.symm, List.append_inj same size.symm⟩

end Takes

theorem accept_eq_ok_iff {result : Except FontError α} {value : α} {cursor next : Cursor} :
    accept result cursor = .ok value next ↔ result = .ok value ∧ next = cursor := by
  unfold accept
  cases result with
  | ok answer => grind
  | error failure => grind

/-- To read a number is to read its bytes. -/
theorem number_eq_map (width : Nat) :
    number width = (fun bytes => bigEndian bytes.toList) <$> bytes width := by
  funext cursor
  change _ = EStateM.map _ _ _
  unfold number Bytes.number bytes EStateM.map
  dsimp only
  cases Bytes.slice cursor.data cursor.offset width with
  | ok taken => rfl
  | error failure => rfl

/-- Whatever a reader returns, it has moved over bytes that stand for it. -/
def Yields (reader : Reader α) (stands : α → List UInt8 → Prop) : Prop :=
  ∀ (before rest : List UInt8) (value : α) (cursor : Cursor),
    reader ⟨(before ++ rest).toArray, before.length⟩ = .ok value cursor →
      ∃ bytes after, rest = bytes ++ after ∧ stands value bytes ∧
        cursor = ⟨(before ++ bytes ++ after).toArray, before.length + bytes.length⟩

namespace Yields

variable {reader : Reader α} {stands : α → List UInt8 → Prop} {holds : β → List UInt8 → Prop}

theorem mono {weaker : α → List UInt8 → Prop} (yields : Yields reader stands)
    (weakens : ∀ value bytes, stands value bytes → weaker value bytes) :
    Yields reader weaker := by
  intro before rest value cursor outcome
  obtain ⟨bytes, after, split, stood, moved⟩ := yields before rest value cursor outcome
  exact ⟨bytes, after, split, weakens value bytes stood, moved⟩

theorem pure {value : α} (empty : stands value []) : Yields (pure value) stands := by
  intro before rest returned cursor outcome
  cases outcome
  exact ⟨[], rest, rfl, empty, by simp⟩

theorem throw (failure : FontError) (stands : α → List UInt8 → Prop) :
    Yields (throw failure) stands := by
  intro _ _ _ _ impossible
  cases impossible

/-- The bytes of two readers in a row stand one behind the other. -/
theorem bind {next : α → Reader β} (yields : Yields reader stands)
    (later : ∀ value front, stands value front →
      Yields (next value) fun result back => holds result (front ++ back)) :
    Yields (reader >>= next) holds := by
  intro before rest result cursor outcome
  obtain ⟨value, between, start, finish⟩ := bind_eq_ok_iff.mp outcome
  obtain ⟨front, behind, rfl, first, rfl⟩ := yields before rest value between start
  rw [← List.length_append] at finish
  obtain ⟨back, after, rfl, second, rfl⟩ :=
    later value front first (before ++ front) behind result cursor finish
  refine ⟨front ++ back, after, ?_, second, ?_⟩
  · rw [List.append_assoc]
  · simp only [List.append_assoc, List.length_append, Nat.add_assoc]

theorem map {change : α → β} (yields : Yields reader stands)
    (changed : ∀ value bytes, stands value bytes → holds (change value) bytes) :
    Yields (change <$> reader) holds := by
  rw [map_eq_pure_bind]
  refine yields.bind fun value bytes first => pure ?_
  rw [List.append_nil]
  exact changed value bytes first

theorem bytes (length : Nat) :
    Yields (bytes length) fun content bytes => content = bytes.toArray ∧ bytes.length = length := by
  intro before rest content cursor outcome
  unfold Reader.bytes at outcome
  dsimp only at outcome
  by_cases inside : before.length + length ≤ (before ++ rest).toArray.size
  · rw [Bytes.slice_of_le inside] at outcome
    cases outcome
    rw [List.size_toArray, List.length_append] at inside
    have size : (rest.take length).length = length := List.length_take_of_le (by omega)
    refine ⟨rest.take length, rest.drop length, (List.take_append_drop length rest).symm,
      ⟨?_, size⟩, ?_⟩
    · simp
    · rw [List.append_assoc, List.take_append_drop, size]
  · rw [Bytes.slice_of_lt (Nat.not_le.mp inside)] at outcome
    cases outcome

theorem number (width : Nat) :
    Yields (number width) fun value bytes =>
      bytes = bigEndianBytes width value ∧ value < 256 ^ width := by
  rw [number_eq_map]
  refine (bytes width).map ?_
  rintro content bytes ⟨rfl, rfl⟩
  exact ⟨(bigEndianBytes_bigEndian rfl).symm, bigEndian_lt bytes⟩

theorem u16 : Yields u16 fun value bytes => bytes = bigEndianBytes 2 value.toNat := by
  refine (number 2).map ?_
  rintro value bytes ⟨rfl, below⟩
  rw [UInt16.toNat_ofNat_of_lt' below]

theorem i16 : Yields i16 fun value bytes => bytes = bigEndianBytes 2 value.toUInt16.toNat := by
  refine (number 2).map ?_
  rintro value bytes ⟨rfl, below⟩
  rw [Int16.toUInt16_ofNat', UInt16.toNat_ofNat_of_lt' below]

theorem i8 : Yields i8 fun value bytes => bytes = [value.toUInt8] := by
  refine (number 1).map ?_
  rintro value bytes ⟨rfl, below⟩
  rw [Int8.toUInt8_ofNat']
  rfl

end Yields

end Reader

end OutlineFont
