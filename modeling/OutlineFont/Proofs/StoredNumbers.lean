import OutlineFont.Proofs.ReaderLaws

/-!
# Numbers at fixed places

The number that some bytes of a byte string hold is told without asking whether
the string goes that far.  A checked read returns it exactly when it does.
-/

namespace OutlineFont

namespace Bytes

/-- The number in the `width` bytes from `offset` on, in as many as there are. -/
def stored (data : Bytes) (offset width : Nat) : Nat :=
  bigEndian (data.extract offset (offset + width)).toList

theorem stored_lt (data : Bytes) (offset width : Nat) : stored data offset width < 256 ^ width := by
  have size : (data.extract offset (offset + width)).toList.length ≤ width := by
    rw [Array.length_toList, Array.size_extract]
    omega
  exact (bigEndian_lt _).trans_le (Nat.pow_le_pow_right (by decide) size)

/-- What a part of a byte string holds is held by the whole further on. -/
theorem stored_extract {data : Bytes} {start stop offset width : Nat}
    (inside : start + offset + width ≤ stop) :
    stored (data.extract start stop) offset width = stored data (start + offset) width := by
  unfold stored
  rw [Array.extract_extract, Nat.min_eq_left (by omega), Nat.add_assoc]

theorem getElem?_extract_of_lt {data : Bytes} {start stop index : Nat}
    (below : start + index < stop) : (data.extract start stop)[index]? = data[start + index]? := by
  rw [Array.getElem?_extract]
  split_ifs with inside
  · rfl
  · exact (Array.getElem?_eq_none (by omega)).symm

/-- Strings that agree from one place to another have the same part there. -/
theorem extract_congr {data file : Bytes} {base start stop : Nat}
    (same : ∀ place, start ≤ place → place < stop → file[base + place]? = data[place]?) :
    file.extract (base + start) (base + stop) = data.extract start stop := by
  apply Array.ext_getElem?
  intro index
  by_cases below : start + index < stop
  · rw [getElem?_extract_of_lt (by omega), getElem?_extract_of_lt below, Nat.add_assoc]
    exact same _ (Nat.le_add_right _ _) below
  · rw [Array.getElem?_eq_none, Array.getElem?_eq_none]
    · rw [Array.size_extract]
      omega
    · rw [Array.size_extract]
      omega

/-- What stands in a row is the first, and then the others in a row further on. -/
theorem map_range_succ {Item : Type} (item : Nat → Item) (offset size count : Nat) :
    (List.range (count + 1)).map (fun index => item (offset + size * index)) =
      item offset :: (List.range count).map fun index => item (offset + size + size * index) := by
  rw [List.range_succ_eq_map, List.map_cons, List.map_map]
  refine congrArg (item offset :: ·) (List.map_congr_left ?_)
  intro index _
  simp only [Function.comp_apply, Nat.mul_succ]
  exact congrArg item (by omega)

theorem slice_eq_ok_iff {data piece : Bytes} {offset length : Nat} :
    slice data offset length = .ok piece ↔
      offset + length ≤ data.size ∧ piece = data.extract offset (offset + length) := by
  by_cases inside : offset + length ≤ data.size
  · rw [slice_of_le inside, Except.ok.injEq, eq_comm]
    exact (and_iff_right inside).symm
  · rw [slice_of_lt (Nat.not_le.mp inside)]
    exact iff_of_false nofun (fun both => inside both.1)

theorem number_eq_ok_iff {data : Bytes} {offset width value : Nat} :
    number data offset width = .ok value ↔
      offset + width ≤ data.size ∧ value = stored data offset width := by
  by_cases inside : offset + width ≤ data.size
  · rw [number_of_le inside, Except.ok.injEq, eq_comm]
    exact (and_iff_right inside).symm
  · rw [number_of_lt (Nat.not_le.mp inside)]
    exact iff_of_false nofun (fun both => inside both.1)

theorem u16At_of_le {data : Bytes} {offset : Nat} (inside : offset + 2 ≤ data.size) :
    u16At data offset = .ok (.ofNat (stored data offset 2)) := by
  rw [u16At, number_eq_ok_iff.mpr ⟨inside, rfl⟩]
  rfl

theorem u32At_of_le {data : Bytes} {offset : Nat} (inside : offset + 4 ≤ data.size) :
    u32At data offset = .ok (.ofNat (stored data offset 4)) := by
  rw [u32At, number_eq_ok_iff.mpr ⟨inside, rfl⟩]
  rfl

theorem u16At_eq_ok_iff {data : Bytes} {offset : Nat} {value : UInt16} :
    u16At data offset = .ok value ↔
      offset + 2 ≤ data.size ∧ value.toNat = stored data offset 2 := by
  by_cases inside : offset + 2 ≤ data.size
  · rw [u16At_of_le inside, Except.ok.injEq, and_iff_right inside, ← UInt16.toNat_inj,
      UInt16.toNat_ofNat_of_lt' (stored_lt data offset 2), eq_comm]
  · rw [u16At, number_of_lt (Nat.not_le.mp inside)]
    exact iff_of_false nofun (fun both => inside both.1)

theorem u32At_eq_ok_iff {data : Bytes} {offset : Nat} {value : UInt32} :
    u32At data offset = .ok value ↔
      offset + 4 ≤ data.size ∧ value.toNat = stored data offset 4 := by
  by_cases inside : offset + 4 ≤ data.size
  · rw [u32At_of_le inside, Except.ok.injEq, and_iff_right inside, ← UInt32.toNat_inj,
      UInt32.toNat_ofNat_of_lt' (stored_lt data offset 4), eq_comm]
  · rw [u32At, number_of_lt (Nat.not_le.mp inside)]
    exact iff_of_false nofun (fun both => inside both.1)

/-- The thirty-two-bit number at an offset, whether the string goes that far or not. -/
def word (data : Bytes) (offset : Nat) : UInt32 :=
  .ofNat (stored data offset 4)

theorem u32At_eq_ok_iff_word {data : Bytes} {offset : Nat} {value : UInt32} :
    u32At data offset = .ok value ↔ offset + 4 ≤ data.size ∧ value = word data offset := by
  rw [u32At_eq_ok_iff, word, ← UInt32.toNat_inj,
    UInt32.toNat_ofNat_of_lt' (stored_lt data offset 4)]

theorem word_extract {data : Bytes} {start stop offset : Nat}
    (inside : start + offset + 4 ≤ stop) :
    word (data.extract start stop) offset = word data (start + offset) := by
  rw [word, word, stored_extract inside]

theorem stored_append (before bytes after : List UInt8) :
    stored (before ++ bytes ++ after).toArray before.length bytes.length = bigEndian bytes := by
  obtain ⟨_, taken⟩ := slice_eq_ok_iff.mp (Reader.Takes.slice_append before bytes after)
  rw [stored, ← taken]

/-- A number is found behind the bytes that come before it. -/
theorem word_append (before : List UInt8) (value : UInt32) (after : List UInt8) :
    word (before ++ bigEndianBytes 4 value.toNat ++ after).toArray before.length = value := by
  have found := stored_append before (bigEndianBytes 4 value.toNat) after
  rw [length_bigEndianBytes, bigEndian_bigEndianBytes value.toNat_lt] at found
  rw [word, found, UInt32.ofNat_toNat]

theorem slice_error {data : Bytes} {offset length : Nat} {failure : FontError}
    (failed : slice data offset length = .error failure) : failure = .truncated offset := by
  unfold slice at failed
  split at failed
  · cases failed
  · cases failed
    rfl

theorem number_error {data : Bytes} {offset width : Nat} {failure : FontError}
    (failed : number data offset width = .error failure) : failure = .truncated offset :=
  slice_error (exceptMap_eq_error_iff.mp failed)

theorem u16At_error {data : Bytes} {offset : Nat} {failure : FontError}
    (failed : u16At data offset = .error failure) : failure = .truncated offset :=
  number_error (exceptMap_eq_error_iff.mp failed)

theorem u32At_error {data : Bytes} {offset : Nat} {failure : FontError}
    (failed : u32At data offset = .error failure) : failure = .truncated offset :=
  number_error (exceptMap_eq_error_iff.mp failed)

end Bytes

namespace Reader

variable {cursor next : Cursor}

theorem number_eq_ok_iff {width value : Nat} :
    number width cursor = .ok value next ↔
      cursor.offset + width ≤ cursor.data.size ∧
        value = Bytes.stored cursor.data cursor.offset width ∧
        next = { cursor with offset := cursor.offset + width } := by
  unfold number
  by_cases inside : cursor.offset + width ≤ cursor.data.size
  · rw [Bytes.number_eq_ok_iff.mpr ⟨inside, rfl⟩]
    simp only [EStateM.Result.ok.injEq, inside, true_and, eq_comm]
  · rw [Bytes.number_of_lt (Nat.not_le.mp inside)]
    exact iff_of_false nofun (fun both => inside both.1)

theorem u32_eq_ok_iff {value : UInt32} :
    u32 cursor = .ok value next ↔
      cursor.offset + 4 ≤ cursor.data.size ∧ value = Bytes.word cursor.data cursor.offset ∧
        next = { cursor with offset := cursor.offset + 4 } := by
  rw [u32, map_eq_ok_iff]
  simp only [number_eq_ok_iff]
  constructor
  · rintro ⟨_, ⟨inside, rfl, moved⟩, rfl⟩
    exact ⟨inside, rfl, moved⟩
  · rintro ⟨inside, rfl, moved⟩
    exact ⟨_, ⟨inside, rfl, moved⟩, rfl⟩

theorem u16_eq_ok_iff {value : UInt16} :
    u16 cursor = .ok value next ↔
      cursor.offset + 2 ≤ cursor.data.size ∧
        value.toNat = Bytes.stored cursor.data cursor.offset 2 ∧
        next = { cursor with offset := cursor.offset + 2 } := by
  rw [u16, map_eq_ok_iff]
  simp only [number_eq_ok_iff]
  constructor
  · rintro ⟨_, ⟨inside, rfl, moved⟩, rfl⟩
    exact ⟨inside, UInt16.toNat_ofNat_of_lt' (Bytes.stored_lt _ _ 2), moved⟩
  · rintro ⟨inside, same, moved⟩
    exact ⟨_, ⟨inside, rfl, moved⟩, by rw [← same, UInt16.ofNat_toNat]⟩

theorem bytes_eq_ok_iff {length : Nat} {taken : Bytes} :
    bytes length cursor = .ok taken next ↔
      cursor.offset + length ≤ cursor.data.size ∧
        taken = cursor.data.extract cursor.offset (cursor.offset + length) ∧
        next = { cursor with offset := cursor.offset + length } := by
  unfold bytes
  by_cases inside : cursor.offset + length ≤ cursor.data.size
  · rw [Bytes.slice_of_le inside]
    simp only [EStateM.Result.ok.injEq, inside, true_and, eq_comm]
  · rw [Bytes.slice_of_lt (Nat.not_le.mp inside)]
    exact iff_of_false nofun (fun both => inside both.1)

theorem skip_eq_ok_iff {length : Nat} {value : Unit} :
    skip length cursor = .ok value next ↔
      cursor.offset + length ≤ cursor.data.size ∧
        next = { cursor with offset := cursor.offset + length } := by
  unfold skip
  by_cases inside : cursor.offset + length ≤ cursor.data.size
  · simp only [inside, if_true, EStateM.Result.ok.injEq, true_and, eq_comm]
  · rw [if_neg inside]
    exact iff_of_false nofun (fun both => inside both.1)

/-! ### Failures -/

section Failures

variable {kind : FontError → Prop} (truncated : ∀ offset, kind (.truncated offset))

include truncated

theorem failsWith_number (width : Nat) : FailsWith kind (number width) := by
  intro cursor failure next failed
  unfold number at failed
  cases found : Bytes.number cursor.data cursor.offset width with
  | ok value =>
      rw [found] at failed
      cases failed
  | error first =>
      rw [found] at failed
      cases failed
      exact Bytes.number_error found ▸ truncated _

theorem failsWith_bytes (length : Nat) : FailsWith kind (bytes length) := by
  intro cursor failure next failed
  unfold bytes at failed
  cases taken : Bytes.slice cursor.data cursor.offset length with
  | ok piece =>
      rw [taken] at failed
      cases failed
  | error first =>
      rw [taken] at failed
      cases failed
      exact Bytes.slice_error taken ▸ truncated _

theorem failsWith_skip (length : Nat) : FailsWith kind (skip length) := by
  intro cursor failure next failed
  unfold skip at failed
  split at failed
  · cases failed
  · cases failed
    exact truncated _

theorem failsWith_u8 : FailsWith kind u8 :=
  (failsWith_number truncated 1).map _

theorem failsWith_i8 : FailsWith kind i8 :=
  (failsWith_number truncated 1).map _

theorem failsWith_u16 : FailsWith kind u16 :=
  (failsWith_number truncated 2).map _

theorem failsWith_i16 : FailsWith kind i16 :=
  (failsWith_number truncated 2).map _

theorem failsWith_u32 : FailsWith kind u32 :=
  (failsWith_number truncated 4).map _

end Failures

theorem outcome_eq_ok_iff {α : Type} {reader : Reader α} {data : Bytes} {offset : Nat}
    {value : α} :
    reader.outcome data offset = .ok value ↔ ∃ next, reader ⟨data, offset⟩ = .ok value next := by
  unfold outcome
  cases reader ⟨data, offset⟩ with
  | ok result next => simp
  | error failure next => exact iff_of_false nofun nofun

theorem outcome_eq_error_iff {α : Type} {reader : Reader α} {data : Bytes} {offset : Nat}
    {failure : FontError} :
    reader.outcome data offset = .error failure ↔
      ∃ next, reader ⟨data, offset⟩ = .error failure next := by
  unfold outcome
  cases reader ⟨data, offset⟩ with
  | ok result next => exact iff_of_false nofun nofun
  | error fault next => simp

end Reader

end OutlineFont
