import OutlineFont.Proofs.JumpFree

/-!
# Byte code inside byte code

The bytes of a program may stand inside those of a longer one.  Its instructions
are then read there in the same way, at offsets that are greater by a fixed
number, and what a search finds in the shorter program it finds there too.  An
instruction without a jump does to the machine what it does in the shorter
program, and leads to the place that corresponds.
-/

namespace OutlineFont

/-- A failure without the offset of the instruction that is not carried out. -/
def FontError.unplaced : FontError → FontError
  | .unimplemented opcode _ => .unimplemented opcode 0
  | .hinting (.unknownOpcode byte _) => .hinting (.unknownOpcode byte 0)
  | failure => failure

namespace Hinting

/-- The same instruction, further on. -/
def Instruction.shift (shift : Nat) (instruction : Instruction) : Instruction :=
  { instruction with offset := instruction.offset + shift }

namespace Instruction

@[simp] theorem opcode_shift (shift : Nat) (instruction : Instruction) :
    (instruction.shift shift).opcode = instruction.opcode :=
  rfl

@[simp] theorem next_shift (shift : Nat) (instruction : Instruction) :
    (instruction.shift shift).next = instruction.next + shift := by
  have same : (instruction.shift shift).countBytes = instruction.countBytes := rfl
  unfold next
  rw [same, show (instruction.shift shift).offset = instruction.offset + shift from rfl,
    show (instruction.shift shift).operands = instruction.operands from rfl]
  omega

end Instruction

/-- The bytes of `part` stand in `whole` from an offset on. -/
def Encloses (whole : Bytes) (shift : Nat) (part : Bytes) : Prop :=
  ∃ before after, whole = before ++ part ++ after ∧ before.size = shift

namespace Encloses

variable {whole part : Bytes} {shift : Nat}

theorem size_le (encloses : Encloses whole shift part) : part.size + shift ≤ whole.size := by
  obtain ⟨before, after, rfl, rfl⟩ := encloses
  simp only [Array.size_append]
  omega

theorem getElem?_eq (encloses : Encloses whole shift part) {offset : Nat}
    (inside : offset < part.size) : whole[offset + shift]? = part[offset]? := by
  obtain ⟨before, after, rfl, rfl⟩ := encloses
  rw [Array.append_assoc, Array.getElem?_append_right (by omega),
    Array.getElem?_append_left (by omega), Nat.add_sub_cancel]

theorem extract_eq (encloses : Encloses whole shift part) {start stop : Nat}
    (inside : stop ≤ part.size) :
    whole.extract (start + shift) (stop + shift) = part.extract start stop := by
  obtain ⟨before, after, rfl, rfl⟩ := encloses
  have behind : before.extract (start + before.size) (stop + before.size) = #[] :=
    Array.extract_empty_of_size_le_start (Nat.le_add_left _ _)
  have ahead : after.extract (start - part.size) (stop - part.size) = #[] := by
    rw [Nat.sub_eq_zero_of_le inside]
    exact Array.extract_empty_of_stop_le_start (Nat.zero_le _)
  rw [Array.append_assoc, Array.extract_append, behind, Nat.add_sub_cancel, Nat.add_sub_cancel,
    Array.empty_append, Array.extract_append, ahead, Array.append_empty]

end Encloses

theorem Instruction.dataSpan?_shift {whole part : Bytes} {shift offset start size : Nat}
    {opcode : Opcode} (encloses : Encloses whole shift part)
    (span : dataSpan? part offset opcode = some (start, size)) :
    dataSpan? whole (offset + shift) opcode = some (start + shift, size) := by
  unfold dataSpan? at span ⊢
  split at span
  · cases span
    rw [Nat.add_right_comm]
  · obtain ⟨count, stored, same⟩ := Option.map_eq_some_iff.mp span
    cases same
    have inside : offset + 1 < part.size := (Array.getElem?_eq_some_iff.mp stored).1
    rw [Nat.add_right_comm offset shift 1, encloses.getElem?_eq inside, stored,
      Nat.add_right_comm offset shift 2]
    rfl
  · cases span
    rw [Nat.add_right_comm]

/-- An instruction is read inside other byte code as it is read alone. -/
theorem Instruction.decode_shift {whole part : Bytes} {shift offset : Nat}
    {instruction : Instruction} (encloses : Encloses whole shift part)
    (decoded : decode part offset = .ok instruction) :
    decode whole (offset + shift) = .ok (instruction.shift shift) := by
  have inside := decode_lt decoded
  have room := encloses.size_le
  have opcode := encloses.getElem?_eq inside
  unfold decode at decoded ⊢
  rw [opcode]
  cases first : part[offset]? with
  | none =>
      rw [first] at decoded
      cases decoded
  | some byte =>
      rw [first] at decoded
      dsimp only at decoded ⊢
      cases span : dataSpan? part offset ⟨byte⟩ with
      | none =>
          rw [span] at decoded
          cases decoded
      | some found =>
          obtain ⟨start, size⟩ := found
          rw [span] at decoded
          dsimp only at decoded
          split at decoded
          · next within =>
              cases decoded
              rw [dataSpan?_shift encloses span]
              dsimp only
              rw [if_pos (by omega), show start + shift + size = start + size + shift by omega,
                encloses.extract_eq within]
              rfl
          · cases decoded

/-- The first instruction of a part is read where the part starts. -/
theorem Instruction.decode_start {whole part : Bytes} {shift : Nat} {instruction : Instruction}
    (encloses : Encloses whole shift part) (decoded : decode part 0 = .ok instruction) :
    decode whole shift = .ok (instruction.shift shift) := by
  rw [← decode_shift encloses decoded, Nat.zero_add]

/-- A byte that is an instruction is read where it stands. -/
theorem Instruction.decode_byte {whole : Bytes} {byte : UInt8} {offset : Nat}
    (encloses : Encloses whole offset #[byte]) (alone : decode #[byte] 0 = .ok ⟨0, ⟨byte⟩, []⟩) :
    decode whole offset = .ok ⟨offset, ⟨byte⟩, []⟩ := by
  rw [decode_start encloses alone, shift, Nat.zero_add]

namespace Program

/-- What a part can be read as is read inside other byte code, before what follows the part. -/
theorem Reads.shift_append {whole part : Bytes} {shift offset : Nat}
    {instructions rest : List Instruction} (reads : Reads part offset instructions)
    (encloses : Encloses whole shift part) (after : Reads whole (part.size + shift) rest) :
    Reads whole (offset + shift) (instructions.map (.shift shift) ++ rest) := by
  induction reads with
  | done => exact after
  | next decoded _ ih =>
      refine .next (Instruction.decode_shift encloses decoded) ?_
      rw [Instruction.next_shift]
      exact ih

/-- What a search finds in a part, it finds inside other byte code, if its visits correspond. -/
theorem searchWithin_shift {State : Type} {whole part : Bytes} {shift : Nat}
    {visit : State → Instruction → State ⊕ Nat}
    (corresponds : ∀ state instruction, visit state (instruction.shift shift) =
      (visit state instruction).map id (· + shift))
    (encloses : Encloses whole shift part) {fuel more offset target : Nat} {state : State}
    (enough : fuel ≤ more)
    (found : searchWithin part visit fuel offset state = .ok (some target)) :
    searchWithin whole visit more (offset + shift) state = .ok (some (target + shift)) := by
  induction fuel generalizing more offset state with
  | zero => cases found
  | succ fuel ih =>
      obtain ⟨more, rfl⟩ := Nat.exists_eq_succ_of_ne_zero (by omega : more ≠ 0)
      have room := encloses.size_le
      unfold searchWithin at found ⊢
      split at found
      · next inside =>
          rw [if_pos (by omega)]
          cases decoded : Instruction.decode part offset with
          | error failure =>
              rw [decoded] at found
              cases found
          | ok instruction =>
              rw [decoded] at found
              rw [Instruction.decode_shift encloses decoded]
              dsimp only at found ⊢
              rw [corresponds]
              cases visited : visit state instruction with
              | inl next =>
                  rw [visited] at found
                  rw [Instruction.next_shift]
                  exact ih (Nat.le_of_succ_le_succ enough) found
              | inr answer =>
                  rw [visited] at found
                  cases found
                  rfl
      · cases found

theorem visitBlock_shift (atElse : Bool) (shift depth : Nat) (instruction : Instruction) :
    visitBlock atElse depth (instruction.shift shift) =
      (visitBlock atElse depth instruction).map id (· + shift) := by
  unfold visitBlock
  rw [Instruction.opcode_shift, Instruction.next_shift]
  split
  · rfl
  · split <;> rfl
  · split <;> rfl
  · rfl

/-- The end of a block is found inside other byte code where it is found alone. -/
theorem blockEnd_shift {whole part : Bytes} {shift start target : Nat} {atElse : Bool}
    (encloses : Encloses whole shift part) (found : blockEnd part start atElse = .ok target) :
    blockEnd whole (start + shift) atElse = .ok (target + shift) := by
  have room := encloses.size_le
  rw [blockEnd_eq_answerOr] at found ⊢
  unfold searchFrom at found ⊢
  cases searched : searchWithin part (visitBlock atElse) (part.size - start) start 0 with
  | error failure =>
      rw [searched] at found
      cases found
  | ok answer =>
      rw [searched] at found
      cases answer with
      | none => cases found
      | some offset =>
          cases found
          rw [searchWithin_shift (visitBlock_shift atElse shift) encloses (by omega) searched]
          rfl

end Program

/-- Being balanced does not depend on where the instructions stand. -/
theorem Balanced.map_shift {scope : Scope} {instructions : List Instruction}
    (balanced : Balanced scope instructions) (shift : Nat) :
    Balanced scope (instructions.map (.shift shift)) := by
  induction balanced with
  | nil => exact .nil
  | plain plain _ ih => exact .plain plain ih
  | block opens _ closes _ innerIh ih =>
      rw [List.map_cons, List.map_append, List.map_cons]
      exact .block opens innerIh closes ih
  | branches opens _ divides _ closes _ firstIh secondIh ih =>
      rw [List.map_cons, List.map_append, List.map_cons, List.map_append, List.map_cons]
      exact .branches opens firstIh divides secondIh closes ih
  | definition opens _ closes _ innerIh ih =>
      rw [List.map_cons, List.map_append, List.map_cons]
      exact .definition opens innerIh closes ih

open OutlineFont.Hinting.Bracket Program in
/-- The search for the end of a block passes over balanced instructions, at any depth. -/
theorem Balanced.searchList_visitBlock {scope : Scope} {instructions : List Instruction}
    (balanced : Balanced scope instructions) (atElse : Bool) (rest : List Instruction)
    (depth : Nat) :
    searchList (visitBlock atElse) (instructions ++ rest) depth =
      searchList (visitBlock atElse) rest depth := by
  let inner : List Bracket := List.replicate depth (.conditional 0 false)
  have counted : blocks inner = depth := by
    rw [blocks, List.countP_replicate]
    rfl
  have noDefinition : openDefinition? inner = none := by
    refine List.findSome?_eq_none_iff.mpr fun bracket listed => ?_
    rw [List.eq_of_mem_replicate listed]
  have passes := searchList_visitBlock_of_stepAll (balanced.stepAll_eq inner fun _ => noDefinition)
    atElse rest
  rw [counted] at passes
  exact passes

/-! ### Instructions that stand further on -/

/-- The same way on, for an instruction that stands further on. -/
def Flow.shift (shift : Nat) : Flow → Flow
  | .goto offset => .goto (offset + shift)
  | .enter function extra resume => .enter function extra (resume + shift)
  | .leave => .leave

/-- Results of work on one machine that correspond, or failures that differ in offsets at most. -/
inductive Corresponds {α β : Type} (relates : α → β → Prop) :
    EStateM.Result FontError Machine α → EStateM.Result FontError Machine β → Prop where
  | ok {value : α} {other : β} (related : relates value other) (machine : Machine) :
      Corresponds relates (.ok value machine) (.ok other machine)
  | error {failure other : FontError} (same : failure.unplaced = other.unplaced)
      (machine : Machine) : Corresponds relates (.error failure machine) (.error other machine)

namespace Corresponds

variable {α β γ δ : Type}

theorem refl (result : EStateM.Result FontError Machine α) : Corresponds Eq result result := by
  cases result with
  | ok value machine => exact .ok rfl machine
  | error failure machine => exact .error rfl machine

theorem bind {relates : γ → δ → Prop} {first second : Engine α} {next : α → Engine γ}
    {other : α → Engine δ} {machine : Machine}
    (same : Corresponds Eq (first machine) (second machine))
    (onward : ∀ value after, Corresponds relates (next value after) (other value after)) :
    Corresponds relates ((first >>= next) machine) ((second >>= other) machine) := by
  generalize done : first machine = result at same
  generalize again : second machine = otherResult at same
  cases same with
  | ok related after =>
      subst related
      rw [bind_of_ok done, bind_of_ok again]
      exact onward _ after
  | error unplaced after =>
      rw [bind_of_error done, bind_of_error again]
      exact .error unplaced after

end Corresponds

namespace Engine

/-- What changes only the machine does not depend on where it stands, but for its failures. -/
theorem transform_shift {part whole : Program} (kinds : whole.kind = part.kind) (shift : Nat)
    (instruction : Instruction) (machine : Machine) :
    Corresponds Eq (transform part instruction machine)
      (transform whole (instruction.shift shift) machine) := by
  unfold transform
  rw [Instruction.opcode_shift, kinds]
  cases instruction.opcode.action with
  | unknown | ifTrue | elseBranch | endIf | jump | jumpWhen | defineFunction | defineInstruction
  | endFunction | call | loopCall | unsupported => exact .error (by rfl) machine
  | _ => exact .refl _

/--
An instruction other than a jump or a definition does to the machine what it does
further on, if the block that it skips has an end.
-/
theorem perform_shift {part whole : Program} {shift : Nat} {instruction : Instruction}
    (encloses : Encloses whole.code shift part.code) (kinds : whole.kind = part.kind)
    (noJump : instruction.opcode.action.isJump = false)
    (noDefinition : instruction.opcode.action ≠ .defineFunction)
    (skips : ∀ atElse, instruction.opcode.action = (if atElse then .ifTrue else .elseBranch) →
      ∃ target, Program.blockEnd part.code instruction.next atElse = .ok target)
    (machine : Machine) :
    Corresponds (fun flow other => other = flow.shift shift)
      (perform part instruction machine) (perform whole (instruction.shift shift) machine) := by
  have goesOn (flow : Flow) (after : Machine) :
      Corresponds (fun flow other => other = flow.shift shift) (.ok flow after)
        (.ok (flow.shift shift) after) := by
    apply Corresponds.ok
    rfl
  unfold perform
  rw [Instruction.opcode_shift, Instruction.next_shift]
  cases action : instruction.opcode.action with
  | ifTrue =>
      refine (Corresponds.refl _).bind fun taken after => ?_
      cases taken with
      | true => exact goesOn (.goto instruction.next) after
      | false =>
          obtain ⟨target, found⟩ := skips true action
          rw [found, Program.blockEnd_shift encloses found]
          exact goesOn (.goto target) after
  | elseBranch =>
      obtain ⟨target, found⟩ := skips false action
      rw [found, Program.blockEnd_shift encloses found]
      exact goesOn (.goto target) machine
  | endIf => exact goesOn (.goto instruction.next) machine
  | jump | jumpWhen =>
      rw [action] at noJump
      cases noJump
  | defineFunction => exact absurd action noDefinition
  | endFunction => exact goesOn .leave machine
  | call =>
      refine (Corresponds.refl _).bind fun index popped => ?_
      exact (Corresponds.refl _).bind fun function => goesOn (.enter function 0 instruction.next)
  | loopCall =>
      refine (Corresponds.refl _).bind fun index first => ?_
      refine (Corresponds.refl _).bind fun count popped => ?_
      by_cases positive : 0 < count
      · rw [if_pos positive, if_pos positive]
        exact (Corresponds.refl _).bind fun function => goesOn (.enter function _ instruction.next)
      · rw [if_neg positive, if_neg positive]
        exact goesOn (.goto instruction.next) popped
  | _ =>
      exact (transform_shift kinds shift instruction machine).bind fun _ =>
        goesOn (.goto instruction.next)

end Engine

end Hinting

end OutlineFont
