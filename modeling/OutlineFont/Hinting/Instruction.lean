import OutlineFont.Cursor

/-!
# Instructions

An instruction is an opcode with the data bytes that follow it.  Byte code is
read instruction by instruction, since data bytes must not be taken for
opcodes.
-/

namespace OutlineFont.Hinting

/-- An opcode at a place in a program, with its data. -/
structure Instruction where
  offset : Nat
  opcode : Opcode
  operands : List UInt8
  deriving DecidableEq, Repr, Inhabited

namespace Instruction

/-- Where the data of an opcode starts, and its length. -/
def dataSpan? (code : Bytes) (offset : Nat) (opcode : Opcode) : Option (Nat × Nat) :=
  match opcode.action with
  | .push width (some count) => some (offset + 1, count * width.size)
  | .push width none => code[offset + 1]?.map fun count => (offset + 2, count.toNat * width.size)
  | _ => some (offset + 1, 0)

def decode (code : Bytes) (offset : Nat) : Except FontError Instruction :=
  match code[offset]? with
  | none => .error (.hinting (.noInstruction offset))
  | some byte =>
      match dataSpan? code offset ⟨byte⟩ with
      | none => .error (.hinting (.missingData ⟨byte⟩ offset))
      | some (start, size) =>
          if start + size ≤ code.size then
            .ok ⟨offset, ⟨byte⟩, (code.extract start (start + size)).toList⟩
          else
            .error (.hinting (.missingData ⟨byte⟩ offset))

/-- The bytes between the opcode and the data: the count, when it is stored apart. -/
def countBytes (instruction : Instruction) : List UInt8 :=
  match instruction.opcode.action with
  | .push width none => [UInt8.ofNat (instruction.operands.length / width.size)]
  | _ => []

/-- The offset after the last byte of an instruction. -/
def next (instruction : Instruction) : Nat :=
  instruction.offset + 1 + instruction.countBytes.length + instruction.operands.length

def encode (instruction : Instruction) : List UInt8 :=
  instruction.opcode.byte :: instruction.countBytes ++ instruction.operands

/-- The next instruction follows the bytes of this one. -/
theorem next_eq (instruction : Instruction) :
    instruction.next = instruction.offset + instruction.encode.length := by
  simp [next, encode]
  omega

theorem offset_lt_next (instruction : Instruction) :
    instruction.offset < instruction.next := by
  unfold next
  omega

end Instruction

namespace Program

/--
At most `fuel` instructions from `offset` on.  The list ends at the end of the
program, or with the failure of the first instruction that cannot be read.
-/
def instructionsWithin (code : Bytes) : (fuel offset : Nat) → List (Except FontError Instruction)
  | 0, _ => []
  | fuel + 1, offset =>
      if offset < code.size then
        match Instruction.decode code offset with
        | .ok instruction =>
            .ok instruction :: instructionsWithin code fuel instruction.next
        | .error failure => [.error failure]
      else
        []

def instructionsFrom (code : Bytes) (offset : Nat) : List (Except FontError Instruction) :=
  instructionsWithin code (code.size - offset) offset

/--
Visit at most `fuel` instructions from `offset` on, carrying a state along,
until a visit gives an answer or the program ends without one.
-/
def searchWithin {State Answer : Type} (code : Bytes)
    (visit : State → Instruction → State ⊕ Answer) :
    (fuel offset : Nat) → State → Except FontError (Option Answer)
  | 0, _, _ => .ok none
  | fuel + 1, offset, state =>
      if offset < code.size then
        match Instruction.decode code offset with
        | .error failure => .error failure
        | .ok instruction =>
            match visit state instruction with
            | .inl state => searchWithin code visit fuel instruction.next state
            | .inr answer => .ok (some answer)
      else
        .ok none

/-- Visit the instructions from `offset` on until a visit gives an answer. -/
def searchFrom {State Answer : Type} (code : Bytes)
    (visit : State → Instruction → State ⊕ Answer) (offset : Nat) (state : State) :
    Except FontError (Option Answer) :=
  searchWithin code visit (code.size - offset) offset state

end Program

end OutlineFont.Hinting
