import Mathlib
import OutlineFont.Hinting.Brackets

/-!
# Programs as lists of instructions

Byte code that can be read from an offset up to exactly its end is a list of
instructions, each of which starts where the one before it ends.  Validation
and the searches of a running program are functions of this list.
-/

namespace OutlineFont.Hinting

namespace Instruction

/-- The data of an instruction starts after its opcode and its stored count. -/
theorem start_of_dataSpan? {code : Bytes} {offset start size : Nat} {opcode : Opcode}
    (span : dataSpan? code offset opcode = some (start, size)) (operands : List UInt8) :
    start = offset + 1 + (Instruction.mk offset opcode operands).countBytes.length := by
  unfold dataSpan? at span
  unfold countBytes
  split at span
  next width count found => simp_all
  next width found =>
      obtain ⟨count, _, same⟩ := Option.map_eq_some_iff.mp span
      simp_all
  next notFixed notCounted =>
      split
      next width found => exact absurd found (notCounted width)
      next => simp_all

/-- A decoded instruction carries its offset and lies inside the byte code. -/
theorem decode_spec {code : Bytes} {offset : Nat} {instruction : Instruction}
    (decoded : decode code offset = .ok instruction) :
    instruction.offset = offset ∧ instruction.next ≤ code.size := by
  unfold decode at decoded
  split at decoded
  · cases decoded
  · split at decoded
    · cases decoded
    · next byte _ _ start size span =>
        split at decoded
        · next inside =>
            cases decoded
            refine ⟨rfl, ?_⟩
            have place := start_of_dataSpan? span
              (code.extract start (start + size)).toList
            have length : (code.extract start (start + size)).toList.length = size := by
              simp only [Array.length_toList, Array.size_extract]
              omega
            unfold next
            simp only
            omega
        · cases decoded

theorem decode_lt {code : Bytes} {offset : Nat} {instruction : Instruction}
    (decoded : decode code offset = .ok instruction) : offset < code.size := by
  obtain ⟨same, inside⟩ := decode_spec decoded
  have forward := instruction.offset_lt_next
  omega

end Instruction

namespace Program

/-- The instructions of byte code from an offset on, the last of which ends at its end. -/
inductive Reads (code : Bytes) : (offset : Nat) → List Instruction → Prop where
  | done : Reads code code.size []
  | next {offset : Nat} {instruction : Instruction} {rest : List Instruction}
      (decoded : Instruction.decode code offset = .ok instruction)
      (after : Reads code instruction.next rest) :
      Reads code offset (instruction :: rest)

namespace Reads

variable {code : Bytes} {offset : Nat} {instructions : List Instruction}

/-- What comes after some of the instructions is read from the end of the last of them. -/
theorem suffix {first : Instruction} {before rest : List Instruction}
    (reads : Reads code offset (before ++ first :: rest)) : Reads code first.next rest := by
  induction before generalizing offset with
  | nil =>
      cases reads with
      | next _ after => exact after
  | cons instruction before ih =>
      cases reads with
      | next _ after => exact ih after

/-- Nothing is read before the offset where reading starts. -/
theorem le_offset (reads : Reads code offset instructions) {instruction : Instruction}
    (listed : instruction ∈ instructions) : offset ≤ instruction.offset := by
  induction reads with
  | done => cases listed
  | @next _ first _ decoded _ ih =>
      rw [← (Instruction.decode_spec decoded).1]
      rcases List.mem_cons.mp listed with rfl | listed
      · exact Nat.le_refl _
      · exact Nat.le_of_lt (first.offset_lt_next.trans_le (ih listed))

/-- Every instruction starts where an earlier one has ended. -/
theorem pairwise (reads : Reads code offset instructions) :
    instructions.Pairwise fun earlier later => earlier.next ≤ later.offset := by
  induction reads with
  | done => exact .nil
  | next _ after ih => exact .cons (fun _ listed => after.le_offset listed) ih

/-- Instructions that start at one offset are the same. -/
theorem eq_of_offset_eq (reads : Reads code offset instructions) {first second : Instruction}
    (firstListed : first ∈ instructions) (secondListed : second ∈ instructions)
    (same : first.offset = second.offset) : first = second := by
  have apart : instructions.Pairwise fun one other => one.offset ≠ other.offset :=
    reads.pairwise.imp fun {one _} ordered => Nat.ne_of_lt (one.offset_lt_next.trans_le ordered)
  exact List.inj_on_of_nodup_map (List.pairwise_map.mpr apart) firstListed secondListed same

/-- Instructions that end at one offset are the same. -/
theorem eq_of_next_eq (reads : Reads code offset instructions) {first second : Instruction}
    (firstListed : first ∈ instructions) (secondListed : second ∈ instructions)
    (same : first.next = second.next) : first = second := by
  have apart : instructions.Pairwise fun one other => one.next ≠ other.next :=
    reads.pairwise.imp fun {_ other} ordered => Nat.ne_of_lt (ordered.trans_lt other.offset_lt_next)
  exact List.inj_on_of_nodup_map (List.pairwise_map.mpr apart) firstListed secondListed same

/-- Reading goes through the instructions one by one. -/
theorem instructionsWithin_eq (reads : Reads code offset instructions) {fuel : Nat}
    (enough : code.size - offset ≤ fuel) :
    instructionsWithin code fuel offset = instructions.map .ok := by
  induction reads generalizing fuel with
  | done => cases fuel <;> simp [instructionsWithin]
  | @next offset instruction rest decoded _ ih =>
      have inside := Instruction.decode_lt decoded
      have forward := instruction.offset_lt_next
      have place := (Instruction.decode_spec decoded).1
      cases fuel with
      | zero => omega
      | succ fuel =>
          rw [instructionsWithin, if_pos inside, decoded]
          simp only [List.map_cons, ih (show code.size - instruction.next ≤ fuel by omega)]

theorem instructionsFrom_eq (reads : Reads code offset instructions) :
    instructionsFrom code offset = instructions.map .ok :=
  reads.instructionsWithin_eq (Nat.le_refl _)

end Reads

/-- Byte code of which every instruction can be read is read up to its end. -/
theorem reads_of_instructionsWithin {code : Bytes} {fuel offset : Nat}
    {instructions : List Instruction} (enough : code.size - offset ≤ fuel)
    (inside : offset ≤ code.size)
    (same : instructionsWithin code fuel offset = instructions.map .ok) :
    Reads code offset instructions := by
  induction fuel generalizing offset instructions with
  | zero =>
      have atEnd : offset = code.size := by omega
      subst atEnd
      cases instructions with
      | nil => exact .done
      | cons => simp [instructionsWithin] at same
  | succ fuel ih =>
      rw [instructionsWithin] at same
      split at same
      · next before =>
          cases decoded : Instruction.decode code offset with
          | error failure =>
              rw [decoded] at same
              cases instructions <;> simp at same
          | ok instruction =>
              rw [decoded] at same
              obtain ⟨place, below⟩ := Instruction.decode_spec decoded
              have forward := instruction.offset_lt_next
              cases instructions with
              | nil => simp at same
              | cons first rest =>
                  simp only [List.map_cons, List.cons.injEq, Except.ok.injEq] at same
                  obtain ⟨rfl, remaining⟩ := same
                  exact .next decoded (ih (by omega) below remaining)
      · next after =>
          have atEnd : offset = code.size := by omega
          subst atEnd
          cases instructions with
          | nil => exact .done
          | cons => simp at same

/-- Visit a list of instructions, carrying a state along, until a visit gives an answer. -/
def searchList {State Answer : Type} (visit : State → Instruction → State ⊕ Answer) :
    List Instruction → State → Option Answer
  | [], _ => none
  | instruction :: rest, state =>
      match visit state instruction with
      | .inl state => searchList visit rest state
      | .inr answer => some answer

/-- Searching byte code that can be read is searching its instructions. -/
theorem Reads.searchFrom_eq {State Answer : Type} {code : Bytes} {offset : Nat}
    {instructions : List Instruction} (reads : Reads code offset instructions)
    (visit : State → Instruction → State ⊕ Answer) (state : State) :
    searchFrom code visit offset state = .ok (searchList visit instructions state) := by
  suffices general : ∀ fuel, code.size - offset ≤ fuel →
      searchWithin code visit fuel offset state = .ok (searchList visit instructions state) from
    general _ (Nat.le_refl _)
  induction reads generalizing state with
  | done =>
      intro fuel _
      cases fuel <;> simp [searchWithin, searchList]
  | @next offset instruction rest decoded _ ih =>
      intro fuel enough
      have inside := Instruction.decode_lt decoded
      have forward := instruction.offset_lt_next
      have place := (Instruction.decode_spec decoded).1
      cases fuel with
      | zero => omega
      | succ fuel =>
          rw [searchWithin, if_pos inside, decoded, searchList]
          dsimp only
          cases visit state instruction with
          | inl next => exact ih next fuel (by omega)
          | inr answer => rfl

end Program

end OutlineFont.Hinting
