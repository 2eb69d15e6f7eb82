import OutlineFont.Proofs.InstructionFrame

/-!
# Rotations of the stack

To move an element to the top is to rotate the elements down to it by one, and
to leave those below alone; as many moves as elements are rotated undo each
other.  Swapping and rolling are the moves of the second and the third element.
A copy is added on top of a stack that is otherwise kept.  Positions are signed
and count from one, and no stack is changed for a position it does not have: the
instructions that fail for one have only taken it off the stack.
-/

namespace OutlineFont.Hinting

namespace Stack

/-- A position, counted from the top, at which there is an element. -/
def HasPosition (stack : Stack) (position : Int32) : Prop :=
  1 ≤ position.toInt ∧ position.toInt ≤ stack.depth

variable {stack : Stack} {position : Int32}

theorem index_of_not_hasPosition (missing : ¬stack.HasPosition position) :
    stack.index position = .error (.hinting (.noStackElement position stack.depth)) :=
  dif_neg missing

section Split

variable {above below : List Int32} {value : Int32}

/-- A stack is divided at each of its positions. -/
theorem HasPosition.split (has : stack.HasPosition position) :
    ∃ above value below, stack.items = above ++ value :: below ∧
      position.toInt = above.length + 1 := by
  obtain ⟨positive, inside⟩ := has
  rw [stack.depth_eq] at inside
  have below : position.toInt.toNat - 1 < stack.items.length := by omega
  refine ⟨stack.items.take (position.toInt.toNat - 1), stack.items[position.toInt.toNat - 1],
    stack.items.drop (position.toInt.toNat - 1 + 1), ?_, ?_⟩
  · rw [List.getElem_cons_drop, List.take_append_drop]
  · rw [List.length_take_of_le (Nat.le_of_lt below)]
    omega

theorem hasPosition_of_split (split : stack.items = above ++ value :: below)
    (counts : position.toInt = above.length + 1) : stack.HasPosition position := by
  have size := congrArg List.length split
  rw [← stack.depth_eq, List.length_append, List.length_cons] at size
  unfold HasPosition
  omega

theorem exists_index_of_split (split : stack.items = above ++ value :: below)
    (counts : position.toInt = above.length + 1) :
    ∃ index, stack.index position = .ok index ∧ index.val = above.length := by
  have has := hasPosition_of_split split counts
  refine ⟨_, dif_pos has, ?_⟩
  simp only
  omega

/-- The element comes to the top, and those above it go down by one. -/
theorem moveToTop_of_split (split : stack.items = above ++ value :: below)
    (counts : position.toInt = above.length + 1) :
    stack.moveToTop position = .ok (ofList (value :: (above ++ below))) := by
  obtain ⟨index, found, place⟩ := exists_index_of_split split counts
  rw [moveToTop_of_index found]
  simp [place, split, List.eraseIdx_append_of_length_le]

theorem copyToTop_of_split (split : stack.items = above ++ value :: below)
    (counts : position.toInt = above.length + 1) :
    stack.copyToTop position = stack.push value := by
  obtain ⟨index, found, place⟩ := exists_index_of_split split counts
  have element : stack.items[index] = value := by
    simp [place, split]
  rw [copyToTop, found, ← element]
  rfl

end Split

/-- An element can be moved to the top exactly when there is one at the position. -/
theorem exists_moveToTop_iff :
    (∃ moved, stack.moveToTop position = .ok moved) ↔ stack.HasPosition position := by
  constructor
  · rintro ⟨moved, succeeds⟩
    by_contra missing
    rw [moveToTop, index_of_not_hasPosition missing] at succeeds
    cases succeeds
  · intro has
    obtain ⟨above, value, below, split, counts⟩ := has.split
    exact ⟨_, moveToTop_of_split split counts⟩

/-- An element can be copied to the top exactly when there is one, and room for another. -/
theorem exists_copyToTop_iff :
    (∃ copied, stack.copyToTop position = .ok copied) ↔
      stack.HasPosition position ∧ stack.depth < limit := by
  constructor
  · rintro ⟨copied, succeeds⟩
    by_cases has : stack.HasPosition position
    · refine ⟨has, ?_⟩
      obtain ⟨above, value, below, split, counts⟩ := has.split
      rw [copyToTop_of_split split counts] at succeeds
      by_contra full
      rw [push_of_le (Nat.le_of_not_lt full)] at succeeds
      cases succeeds
    · rw [copyToTop, index_of_not_hasPosition has] at succeeds
      cases succeeds
  · rintro ⟨has, room⟩
    obtain ⟨above, value, below, split, counts⟩ := has.split
    exact ⟨_, (copyToTop_of_split split counts).trans (push_of_lt room value)⟩

/-- The move of the lowest of the topmost elements rotates these, by all but one of their number. -/
theorem moveToTop_rotate {top : List Int32} (below : List Int32)
    (counts : position.toInt = top.length) (nonempty : top ≠ []) :
    (ofList (top ++ below)).moveToTop position =
      .ok (ofList (top.rotate (top.length - 1) ++ below)) := by
  rcases List.eq_nil_or_concat top with empty | ⟨above, value, whole⟩
  · exact absurd empty nonempty
  · rw [List.concat_eq_append] at whole
    subst whole
    rw [List.length_append, List.length_singleton] at counts ⊢
    rw [moveToTop_of_split (List.append_assoc above [value] below) counts,
      Nat.add_sub_cancel, List.rotate_append_length_eq]
    rfl

/-- Moves of one position rotate the topmost elements again and again. -/
theorem foldlM_moveToTop {top : List Int32} (below : List Int32)
    (counts : position.toInt = top.length) (nonempty : top ≠ []) (times : Nat) :
    (List.replicate times position).foldlM moveToTop (ofList (top ++ below)) =
      .ok (ofList (top.rotate (times * (top.length - 1)) ++ below)) := by
  induction times generalizing top with
  | zero =>
      rw [Nat.zero_mul, List.rotate_zero]
      rfl
  | succ times ih =>
      have sameLength : (top.rotate (top.length - 1)).length = top.length := List.length_rotate ..
      rw [List.replicate_succ, List.foldlM_cons, moveToTop_rotate below counts nonempty]
      refine (ih (counts.trans (congrArg Nat.cast sameLength.symm))
        (mt List.rotate_eq_nil_iff.mp nonempty)).trans ?_
      rw [sameLength, List.rotate_rotate, Nat.succ_mul, Nat.add_comm]

/-- An element that is moved to the top as often as its position tells is back where it was. -/
theorem foldlM_moveToTop_self (has : stack.HasPosition position) :
    (List.replicate position.toInt.toNat position).foldlM moveToTop stack = .ok stack := by
  obtain ⟨above, value, below, split, counts⟩ := has.split
  have size : (above ++ [value]).length = position.toInt.toNat := by
    rw [List.length_append, List.length_singleton]
    omega
  have whole : ofList ((above ++ [value]) ++ below) = stack := by
    apply Stack.ext
    rw [items_ofList, split, List.append_assoc, List.singleton_append]
  have counted : position.toInt = (above ++ [value]).length := by omega
  have moved := foldlM_moveToTop below counted (List.append_ne_nil_of_right_ne_nil _ nofun)
    position.toInt.toNat
  rw [whole, ← size, List.rotate_length_mul, whole] at moved
  rw [← size]
  exact moved

/-- To swap is to move the second element to the top, but for the wording of the failure. -/
theorem toOption_swap (stack : Stack) : stack.swap.toOption = (stack.moveToTop 2).toOption := by
  obtain ⟨items, depth, depth_eq⟩ := stack
  subst depth_eq
  match items with
  | [] => rfl
  | [value] => rfl
  | first :: second :: below =>
      have split : (ofList (first :: second :: below)).items = [first] ++ second :: below := rfl
      exact (congrArg Except.toOption (moveToTop_of_split split rfl)).symm

end Stack

/-- What taking an operand leaves, also where there is none to take. -/
def Machine.withoutTop (machine : Machine) : Machine :=
  match machine.stack.items with
  | [] => machine
  | _ :: rest => { machine with stack := .ofList rest }

namespace Engine

variable {machine after : Machine} {failure : FontError}

theorem pop_withoutTop (machine : Machine) :
    (∃ failure, pop machine = .error failure machine.withoutTop) ∨
      ∃ value, pop machine = .ok value machine.withoutTop := by
  unfold Machine.withoutTop
  cases items : machine.stack.items with
  | nil =>
      have empty : machine.stack = .empty := Stack.ext items
      refine .inl ⟨.hinting .popFromEmpty, ?_⟩
      unfold pop
      rw [empty, Stack.pop_empty]
  | cons value rest => exact .inr ⟨value, pop_of_items items⟩

/-- Work that fails to put a new stack in place leaves the machine as it was. -/
theorem eq_of_rearrange_error {change : Stack → Except FontError Stack}
    (failed : rearrange change machine = .error failure after) : after = machine := by
  unfold rearrange at failed
  split at failed
  · cases failed
  · cases failed
    rfl

/-- When a change that takes an operand fails, the operand alone has been taken. -/
theorem eq_of_operand_error {change : Int32 → Stack → Except FontError Stack}
    (failed : (pop >>= fun operand => rearrange (change operand)) machine = .error failure after) :
    after = machine.withoutTop := by
  obtain ⟨missing, empty⟩ | ⟨operand, popped⟩ := pop_withoutTop machine
  · rw [bind_of_error empty] at failed
    cases failed
    rfl
  · rw [bind_of_ok popped] at failed
    exact eq_of_rearrange_error failed

variable {program : Program} {instruction : Instruction}

theorem eq_of_perform_error
    (action : instruction.opcode.action = .swap ∨ instruction.opcode.action = .roll)
    (failed : perform program instruction machine = .error failure after) : after = machine := by
  unfold perform transform at failed
  rcases action with action | action
  · rw [action] at failed
    exact eq_of_rearrange_error (error_of_bind_pure failed)
  · rw [action] at failed
    exact eq_of_rearrange_error (error_of_bind_pure failed)

theorem withoutTop_of_perform_error
    (action : instruction.opcode.action = .moveIndexed ∨
      instruction.opcode.action = .copyIndexed)
    (failed : perform program instruction machine = .error failure after) :
    after = machine.withoutTop := by
  unfold perform transform at failed
  rcases action with action | action
  · rw [action] at failed
    exact eq_of_operand_error (error_of_bind_pure failed)
  · rw [action] at failed
    exact eq_of_operand_error (error_of_bind_pure failed)

end Engine

namespace Stack

/--
Moving an element to the top needs an element at the position, rotates those down to it and
keeps those below, so that as many moves as its position tells undo each other.  Swapping
and rolling are such moves, and copying only adds.  A change that fails leaves the machine
as it was, and the instructions that fail leave it without the position they have taken.
-/
theorem rearrange_laws (stack : Stack) (position : Int32) :
    ((∃ moved, stack.moveToTop position = .ok moved) ↔ stack.HasPosition position) ∧
    (stack.HasPosition position →
      (∃ above value below, stack.items = above ++ value :: below ∧
        position.toInt = above.length + 1 ∧
        stack.moveToTop position = .ok (ofList (value :: (above ++ below)))) ∧
      (List.replicate position.toInt.toNat position).foldlM moveToTop stack = .ok stack) ∧
    stack.swap.toOption = (stack.moveToTop 2).toOption ∧
    stack.roll = stack.moveToTop 3 ∧
    ((∃ copied, stack.copyToTop position = .ok copied) ↔
      stack.HasPosition position ∧ stack.depth < limit) ∧
    (∀ copied, stack.copyToTop position = .ok copied →
      ∃ value, stack.items[position.toInt.toNat - 1]? = some value ∧
        copied.items = value :: stack.items) ∧
    (∀ change machine failure after, Engine.rearrange change machine = .error failure after →
      after = machine) ∧
    ∀ program instruction machine failure after,
      Engine.perform program instruction machine = .error failure after →
      (instruction.opcode.action = .swap ∨ instruction.opcode.action = .roll →
        after = machine) ∧
      (instruction.opcode.action = .moveIndexed ∨ instruction.opcode.action = .copyIndexed →
        after = machine.withoutTop) := by
  refine ⟨exists_moveToTop_iff, fun has => ⟨?_, foldlM_moveToTop_self has⟩, toOption_swap stack,
    rfl, exists_copyToTop_iff, ?_, fun _ _ _ _ => Engine.eq_of_rearrange_error, ?_⟩
  · obtain ⟨above, value, below, split, counts⟩ := has.split
    exact ⟨above, value, below, split, counts, moveToTop_of_split split counts⟩
  · intro copied succeeds
    obtain ⟨has, room⟩ := exists_copyToTop_iff.mp ⟨copied, succeeds⟩
    obtain ⟨above, value, below, split, counts⟩ := has.split
    rw [copyToTop_of_split split counts, push_of_lt room] at succeeds
    have place : position.toInt.toNat - 1 = above.length := by omega
    refine ⟨value, ?_, congrArg items (Except.ok.inj succeeds).symm⟩
    rw [split, place, List.getElem?_append_right (Nat.le_refl _), Nat.sub_self,
      List.getElem?_cons_zero]
  · intro program instruction machine failure after failed
    exact ⟨fun action => Engine.eq_of_perform_error action failed,
      fun action => Engine.withoutTop_of_perform_error action failed⟩

/-- The third element is moved three times, and the ninth of two is asked for. -/
theorem rearrange_laws_third :
    let stack := ofList [40, 30, 20, 10]
    let move : Instruction := ⟨0, ⟨0x26⟩, []⟩
    let asking : Machine := { (default : Machine) with stack := ofList [9, 40, 30] }
    let refused : Machine := { asking with stack := ofList [40, 30] }
    stack.HasPosition 3 ∧ stack.moveToTop 3 = .ok (ofList [20, 40, 30, 10]) ∧
      (List.replicate 3 3).foldlM moveToTop stack = .ok stack ∧
      stack.copyToTop 3 = .ok (ofList [20, 40, 30, 20, 10]) ∧
      Engine.perform ⟨.font, #[0x26]⟩ move asking =
        .error (.hinting (.noStackElement 9 2)) refused ∧
      move.opcode.action = .moveIndexed ∧ refused = asking.withoutTop := by
  intro stack move asking refused
  have has : stack.HasPosition 3 := ⟨by decide, by decide⟩
  have action : move.opcode.action = .moveIndexed := rfl
  have failed : Engine.perform ⟨.font, #[0x26]⟩ move asking =
      .error (.hinting (.noStackElement 9 2)) refused := rfl
  obtain ⟨-, laws, -, -, -, -, -, failures⟩ := rearrange_laws stack 3
  exact ⟨has, rfl, (laws has).2, rfl, failed, action, (failures _ _ _ _ _ failed).2 (.inl action)⟩

end Stack

end OutlineFont.Hinting
