import OutlineFont.Proofs.Decoding

/-!
# Reading back what is written

Instructions written one after the other are read back one after the other, and
the instructions that are read from byte code are a division of its bytes: what
is left over, if anything, is the beginning of an instruction that lacks data.
-/

namespace OutlineFont

theorem Bytes.toList_extract_add (bytes : Bytes) (start size : Nat) :
    (bytes.extract start (start + size)).toList = (bytes.toList.drop start).take size := by
  rw [Array.toList_extract, List.extract_eq_take_drop, Nat.add_sub_cancel_left]

namespace Hinting

theorem PushWidth.size_pos (width : PushWidth) : 0 < width.size := by
  cases width <;> decide

/-- A push instruction says how many numbers it carries, or a byte does; no other carries data. -/
theorem Action.push_cases (action : Action) :
    (∃ width count, action = .push width (some count)) ∨ (∃ width, action = .push width none) ∨
      ∀ width count?, action ≠ .push width count? := by
  cases action with
  | push width count? =>
      cases count? with
      | some count => exact .inl ⟨width, count, rfl⟩
      | none => exact .inr (.inl ⟨width, rfl⟩)
  | _ => exact .inr (.inr fun _ _ => nofun)

namespace Instruction

/--
The operands suit the opcode: as many as it says, or as many as one byte can
count if they are counted by a byte.
-/
def WellFormed (instruction : Instruction) : Prop :=
  match instruction.opcode.action with
  | .push width count? =>
      match count? with
      | some count => instruction.operands.length = count * width.size
      | none => ∃ count < 256, instruction.operands.length = count * width.size
  | _ => instruction.operands = []

section Cases

variable {opcode : Opcode} {width : PushWidth} {count : Nat}

theorem dataSpan?_of_fixed (fixed : opcode.action = .push width (some count)) (code : Bytes)
    (offset : Nat) : dataSpan? code offset opcode = some (offset + 1, count * width.size) := by
  simp only [dataSpan?, fixed]

theorem dataSpan?_of_counted (counted : opcode.action = .push width none) (code : Bytes)
    (offset : Nat) :
    dataSpan? code offset opcode =
      code[offset + 1]?.map fun count => (offset + 2, count.toNat * width.size) := by
  simp only [dataSpan?, counted]

theorem dataSpan?_of_other (other : ∀ width count?, opcode.action ≠ .push width count?)
    (code : Bytes) (offset : Nat) : dataSpan? code offset opcode = some (offset + 1, 0) := by
  unfold dataSpan?
  split
  next found => exact absurd found (other _ _)
  next found => exact absurd found (other _ _)
  next => rfl

variable {instruction : Instruction}

theorem countBytes_of_fixed (fixed : instruction.opcode.action = .push width (some count)) :
    instruction.countBytes = [] := by
  simp only [countBytes, fixed]

theorem countBytes_of_counted (counted : instruction.opcode.action = .push width none)
    (length : instruction.operands.length = count * width.size) :
    instruction.countBytes = [UInt8.ofNat count] := by
  simp only [countBytes, counted]
  rw [length, Nat.mul_div_cancel _ width.size_pos]

theorem countBytes_of_other
    (other : ∀ width count?, instruction.opcode.action ≠ .push width count?) :
    instruction.countBytes = [] := by
  unfold countBytes
  split
  next found => exact absurd found (other _ _)
  next => rfl

theorem wellFormed_iff_of_fixed (fixed : instruction.opcode.action = .push width (some count)) :
    instruction.WellFormed ↔ instruction.operands.length = count * width.size := by
  simp only [WellFormed, fixed]

theorem wellFormed_iff_of_counted (counted : instruction.opcode.action = .push width none) :
    instruction.WellFormed ↔ ∃ count < 256, instruction.operands.length = count * width.size := by
  simp only [WellFormed, counted]

theorem wellFormed_iff_of_other
    (other : ∀ width count?, instruction.opcode.action ≠ .push width count?) :
    instruction.WellFormed ↔ instruction.operands = [] := by
  unfold WellFormed
  split
  next found => exact absurd found (other _ _)
  next => exact Iff.rfl

end Cases

variable {code : Bytes} {offset start size : Nat} {opcode : Opcode} {operands : List UInt8}

/-- Data as long as the span that is read for them suit the opcode. -/
theorem wellFormed_of_dataSpan? (span : dataSpan? code offset opcode = some (start, size))
    (length : operands.length = size) : (Instruction.mk offset opcode operands).WellFormed := by
  rcases opcode.action.push_cases with ⟨width, count, fixed⟩ | ⟨width, counted⟩ | other
  · rw [dataSpan?_of_fixed fixed] at span
    cases span
    exact (wellFormed_iff_of_fixed fixed).mpr length
  · rw [dataSpan?_of_counted counted] at span
    obtain ⟨count, _, same⟩ := Option.map_eq_some_iff.mp span
    cases same
    exact (wellFormed_iff_of_counted counted).mpr ⟨count.toNat, count.toNat_lt, length⟩
  · rw [dataSpan?_of_other other] at span
    cases span
    exact (wellFormed_iff_of_other other).mpr (List.length_eq_zero_iff.mp length)

/-- Between the opcode and the data stands their count, if it is stored. -/
theorem drop_of_dataSpan? (span : dataSpan? code offset opcode = some (start, size))
    (length : operands.length = size) :
    code.toList.drop (offset + 1) =
      (Instruction.mk offset opcode operands).countBytes ++ code.toList.drop start := by
  rcases opcode.action.push_cases with ⟨width, count, fixed⟩ | ⟨width, counted⟩ | other
  · rw [dataSpan?_of_fixed fixed] at span
    cases span
    rw [countBytes_of_fixed fixed, List.nil_append]
  · rw [dataSpan?_of_counted counted] at span
    obtain ⟨count, stored, same⟩ := Option.map_eq_some_iff.mp span
    cases same
    obtain ⟨within, rfl⟩ := Array.getElem?_eq_some_iff.mp stored
    rw [countBytes_of_counted counted length, UInt8.ofNat_toNat]
    exact List.drop_eq_getElem_cons within
  · rw [dataSpan?_of_other other] at span
    cases span
    rw [countBytes_of_other other, List.nil_append]

/-- The span of the data of a written instruction is found again. -/
theorem dataSpan?_of_drop {instruction : Instruction} (wellFormed : instruction.WellFormed)
    {rest : List UInt8}
    (stored : code.toList.drop (offset + 1) = instruction.countBytes ++ rest) :
    dataSpan? code offset instruction.opcode =
      some (offset + 1 + instruction.countBytes.length, instruction.operands.length) := by
  rcases instruction.opcode.action.push_cases with ⟨width, count, fixed⟩ | ⟨width, counted⟩ | other
  · have length := (wellFormed_iff_of_fixed fixed).mp wellFormed
    rw [dataSpan?_of_fixed fixed, countBytes_of_fixed fixed, length]
    rfl
  · obtain ⟨count, small, length⟩ := (wellFormed_iff_of_counted counted).mp wellFormed
    rw [countBytes_of_counted counted length] at stored ⊢
    have first : code[offset + 1]? = some (UInt8.ofNat count) := by
      rw [← Array.getElem?_toList, ← Nat.add_zero (offset + 1), ← List.getElem?_drop, stored]
      rfl
    rw [dataSpan?_of_counted counted, first, Option.map_some, UInt8.toNat_ofNat_of_lt' small,
      length]
    rfl
  · have empty := (wellFormed_iff_of_other other).mp wellFormed
    rw [dataSpan?_of_other other, countBytes_of_other other, empty]
    rfl

/-- What is read at an offset is the opcode there with the bytes of the span of its data. -/
theorem exists_span_of_decode {instruction : Instruction}
    (decoded : decode code offset = .ok instruction) :
    ∃ start size, code[offset]? = some instruction.opcode.byte ∧
      dataSpan? code offset instruction.opcode = some (start, size) ∧ start + size ≤ code.size ∧
      instruction = ⟨offset, instruction.opcode, (code.extract start (start + size)).toList⟩ := by
  unfold decode at decoded
  split at decoded
  next => cases decoded
  next byte stored =>
    split at decoded
    next => cases decoded
    next start size span =>
      split at decoded
      next inside =>
        cases decoded
        exact ⟨start, size, stored, span, inside, rfl⟩
      next => cases decoded

theorem encode_of_decode {instruction : Instruction}
    (decoded : decode code offset = .ok instruction) :
    instruction.WellFormed ∧ instruction.encode <+: code.toList.drop offset := by
  obtain ⟨start, size, stored, span, inside, same⟩ := exists_span_of_decode decoded
  obtain ⟨_, opcode, operands⟩ := instruction
  obtain ⟨rfl, -, data⟩ := Instruction.mk.inj same
  obtain ⟨within, byte⟩ := Array.getElem?_eq_some_iff.mp stored
  have length : operands.length = size := by
    rw [data, Array.length_toList, Array.size_extract]
    omega
  rw [Bytes.toList_extract_add] at data
  refine ⟨wellFormed_of_dataSpan? span length, (code.toList.drop start).drop size, ?_⟩
  calc encode ⟨_, opcode, operands⟩ ++ (code.toList.drop start).drop size
    _ = opcode.byte :: (countBytes ⟨_, opcode, operands⟩ ++
          ((code.toList.drop start).take size ++ (code.toList.drop start).drop size)) := by
        rw [← data, ← List.append_assoc]
        rfl
    _ = opcode.byte :: code.toList.drop (_ + 1) := by
        rw [List.take_append_drop, drop_of_dataSpan? span length]
    _ = code.toList.drop _ := by
        rw [List.drop_eq_getElem_cons within, Array.getElem_toList, byte]

theorem decode_of_encode {instruction : Instruction} (wellFormed : instruction.WellFormed)
    {rest : List UInt8}
    (stored : instruction.encode ++ rest = code.toList.drop instruction.offset) :
    decode code instruction.offset = .ok instruction := by
  unfold encode at stored
  have first : code[instruction.offset]? = some instruction.opcode.byte := by
    rw [← Array.getElem?_toList, ← Nat.add_zero instruction.offset, ← List.getElem?_drop,
      ← stored]
    rfl
  have behind : code.toList.drop (instruction.offset + 1) =
      instruction.countBytes ++ (instruction.operands ++ rest) := by
    rw [← List.drop_drop, ← stored, List.cons_append, List.cons_append, List.drop_one,
      List.tail_cons, List.append_assoc]
  have data : (code.toList.drop (instruction.offset + 1 + instruction.countBytes.length)).take
      instruction.operands.length = instruction.operands := by
    rw [← List.drop_drop, behind, List.drop_left, List.take_left]
  have length := congrArg List.length behind
  simp only [List.length_drop, List.length_append, Array.length_toList] at length
  have within := (Array.getElem?_eq_some_iff.mp first).1
  unfold decode
  simp only [first, dataSpan?_of_drop wellFormed behind]
  rw [if_pos (by omega), Bytes.toList_extract_add, data]

/--
An instruction is read at an offset exactly when it is well-formed and its
bytes stand there.
-/
theorem decode_eq_ok_iff {instruction : Instruction} :
    decode code offset = .ok instruction ↔
      instruction.offset = offset ∧ instruction.WellFormed ∧
        instruction.encode <+: code.toList.drop offset := by
  constructor
  · exact fun decoded => ⟨(decode_spec decoded).1, encode_of_decode decoded⟩
  · rintro ⟨rfl, wellFormed, rest, stored⟩
    exact decode_of_encode wellFormed stored

/-- The same instruction at another offset. -/
def moveTo (offset : Nat) (instruction : Instruction) : Instruction :=
  { instruction with offset := offset }

@[simp] theorem encode_moveTo (offset : Nat) (instruction : Instruction) :
    (instruction.moveTo offset).encode = instruction.encode :=
  rfl

end Instruction

namespace Program

/-- The bytes of instructions one after the other. -/
def write (instructions : List Instruction) : List UInt8 :=
  instructions.flatMap (·.encode)

/-- The first instruction begins at an offset, and every other one where the one before it ends. -/
def Follow : (offset : Nat) → List Instruction → Prop
  | _, [] => True
  | offset, instruction :: rest => instruction.offset = offset ∧ Follow instruction.next rest

/-- The same instructions, one after the other from an offset on. -/
def place : (offset : Nat) → List Instruction → List Instruction
  | _, [] => []
  | offset, instruction :: rest =>
      instruction.moveTo offset :: place (instruction.moveTo offset).next rest

theorem follow_place (offset : Nat) (instructions : List Instruction) :
    Follow offset (place offset instructions) := by
  induction instructions generalizing offset with
  | nil => trivial
  | cons instruction rest ih => exact ⟨rfl, ih _⟩

theorem write_place (offset : Nat) (instructions : List Instruction) :
    write (place offset instructions) = write instructions := by
  induction instructions generalizing offset with
  | nil => rfl
  | cons instruction rest ih =>
      have after := ih (instruction.moveTo offset).next
      unfold write at after ⊢
      rw [place, List.flatMap_cons, List.flatMap_cons, after, Instruction.encode_moveTo]

theorem wellFormed_place {offset : Nat} {instructions : List Instruction}
    (wellFormed : ∀ instruction ∈ instructions, instruction.WellFormed) :
    ∀ instruction ∈ place offset instructions, instruction.WellFormed := by
  induction instructions generalizing offset with
  | nil => exact wellFormed
  | cons instruction rest ih =>
      obtain ⟨first, others⟩ := List.forall_mem_cons.mp wellFormed
      exact List.forall_mem_cons.mpr ⟨first, ih others⟩

/-- Well-formed instructions that follow each other are read from their bytes. -/
theorem reads_of_write {code : Bytes} {offset : Nat} {instructions : List Instruction}
    (follow : Follow offset instructions)
    (wellFormed : ∀ instruction ∈ instructions, instruction.WellFormed)
    (inside : offset ≤ code.size) (stored : code.toList.drop offset = write instructions) :
    Reads code offset instructions := by
  induction instructions generalizing offset with
  | nil =>
      have atEnd : code.size ≤ offset := List.drop_eq_nil_iff.mp stored
      obtain rfl : offset = code.size := by omega
      exact .done
  | cons instruction rest ih =>
      obtain ⟨rfl, others⟩ := follow
      obtain ⟨first, wellFormed⟩ := List.forall_mem_cons.mp wellFormed
      have decoded : Instruction.decode code instruction.offset = .ok instruction :=
        Instruction.decode_eq_ok_iff.mpr ⟨rfl, first, write rest, stored.symm⟩
      refine .next decoded (ih others wellFormed (Instruction.decode_spec decoded).2 ?_)
      rw [instruction.next_eq, ← List.drop_drop, stored]
      exact List.drop_left

/--
What reading byte code from an offset on finds: well-formed instructions that
follow each other, whose bytes come first, and a failure if there are more.
-/
structure Divides (code : Bytes) (start : Nat) (instructions : List Instruction)
    (failure? : Option FontError) (remainder : List UInt8) : Prop where
  follow : Follow start instructions
  wellFormed : ∀ instruction ∈ instructions, instruction.WellFormed
  bytes : code.toList.drop start = write instructions ++ remainder
  complete : remainder = [] ↔ failure? = none

/-- An instruction that is read comes before a division of what is left. -/
theorem Divides.cons {code : Bytes} {start : Nat} {instruction : Instruction}
    (decoded : Instruction.decode code start = .ok instruction)
    {instructions : List Instruction} {failure? : Option FontError} {remainder : List UInt8}
    (divides : Divides code instruction.next instructions failure? remainder) :
    Divides code start (instruction :: instructions) failure? remainder := by
  obtain ⟨rfl, wellFormed, rest, stored⟩ := Instruction.decode_eq_ok_iff.mp decoded
  refine ⟨⟨rfl, divides.follow⟩, List.forall_mem_cons.mpr ⟨wellFormed, divides.wellFormed⟩, ?_,
    divides.complete⟩
  have behind : rest = write instructions ++ remainder := by
    rw [← divides.bytes, instruction.next_eq, ← List.drop_drop, ← stored, List.drop_left]
  rw [← stored, behind, ← List.append_assoc]
  rfl

theorem divides_nil {code : Bytes} {start : Nat} (atEnd : code.size ≤ start) :
    Divides code start [] none [] :=
  ⟨trivial, fun _ none => absurd none List.not_mem_nil, List.drop_eq_nil_iff.mpr atEnd,
    iff_of_true rfl rfl⟩

theorem exists_divides_of_instructionsWithin (code : Bytes) {fuel start : Nat}
    (enough : code.size - start ≤ fuel) (inside : start ≤ code.size) :
    ∃ instructions failure? remainder,
      instructionsWithin code fuel start =
        instructions.map .ok ++ (failure?.map .error).toList ∧
      Divides code start instructions failure? remainder := by
  -- On the fuel, which stays enough as every instruction that is read moves the offset on.
  induction fuel generalizing start with
  | zero => exact ⟨[], none, [], rfl, divides_nil (by omega)⟩
  | succ fuel ih =>
      rw [instructionsWithin]
      split
      next within =>
        cases decoded : Instruction.decode code start with
        | error failure =>
            refine ⟨[], some failure, code.toList.drop start, rfl, trivial,
              fun _ none => absurd none List.not_mem_nil, rfl, ?_⟩
            simpa using within
        | ok instruction =>
            obtain ⟨place, below⟩ := Instruction.decode_spec decoded
            have forward := instruction.offset_lt_next
            obtain ⟨instructions, failure?, remainder, read, divides⟩ :=
              ih (by omega) below
            refine ⟨instruction :: instructions, failure?, remainder, ?_, divides.cons decoded⟩
            simp only [read, List.map_cons, List.cons_append]
      next beyond => exact ⟨[], none, [], rfl, divides_nil (by omega)⟩

/--
Reading and writing instructions undo each other.  From any byte code a list of
well-formed instructions is read that follow each other, with their bytes at its
beginning; only at the end there may be a failure, and there is none exactly
when their bytes are all of it.  And from the bytes of any well-formed
instructions just these are read.
-/
theorem instructionsFrom_write :
    (∀ (code : Bytes) (start : Nat), start ≤ code.size →
      ∃ instructions failure?,
        instructionsFrom code start = instructions.map .ok ++ (failure?.map .error).toList ∧
        Follow start instructions ∧
        (∀ instruction ∈ instructions, instruction.WellFormed) ∧
        write instructions <+: code.toList.drop start ∧
        (write instructions = code.toList.drop start ↔ failure? = none)) ∧
    ∀ instructions : List Instruction,
      (∀ instruction ∈ instructions, instruction.WellFormed) →
      instructionsFrom (write instructions).toArray 0 = (place 0 instructions).map .ok := by
  constructor
  · intro code start inside
    obtain ⟨instructions, failure?, remainder, read, divides⟩ :=
      exists_divides_of_instructionsWithin code (Nat.le_refl _) inside
    refine ⟨instructions, failure?, read, divides.follow, divides.wellFormed,
      ⟨remainder, divides.bytes.symm⟩, ?_⟩
    rw [divides.bytes, ← divides.complete, List.self_eq_append_right]
  · intro instructions wellFormed
    apply Reads.instructionsFrom_eq
    apply reads_of_write (follow_place 0 instructions) (wellFormed_place wellFormed) (Nat.zero_le _)
    rw [write_place]
    rfl

/-- Words that a byte counts, bytes that the opcode counts, and an addition. -/
def pushesAndSum : List Instruction :=
  [⟨0, ⟨0x41⟩, [0xff, 0x38, 0x01, 0x00]⟩, ⟨0, ⟨0xb1⟩, [0x60, 0x41]⟩, ⟨0, ⟨0x60⟩, []⟩]

/-- Three instructions are read back; from amid their data others are read, up to a failure. -/
theorem instructionsFrom_write_pushes :
    instructionsFrom (write pushesAndSum).toArray 0 = (place 0 pushesAndSum).map .ok ∧
    ∃ instructions failure?,
      instructionsFrom (write pushesAndSum).toArray 8 =
        instructions.map .ok ++ (failure?.map .error).toList ∧
      Follow 8 instructions ∧
      (∀ instruction ∈ instructions, instruction.WellFormed) ∧
      write instructions <+: (write pushesAndSum).toArray.toList.drop 8 ∧
      (write instructions = (write pushesAndSum).toArray.toList.drop 8 ↔ failure? = none) := by
  have wellFormed : ∀ instruction ∈ pushesAndSum, instruction.WellFormed := by
    unfold pushesAndSum
    simp only [List.forall_mem_cons]
    exact ⟨⟨2, by decide, rfl⟩, rfl, rfl, fun _ none => absurd none List.not_mem_nil⟩
  exact ⟨instructionsFrom_write.2 pushesAndSum wellFormed,
    instructionsFrom_write.1 _ 8 (by decide)⟩

end Program

end Hinting

end OutlineFont
