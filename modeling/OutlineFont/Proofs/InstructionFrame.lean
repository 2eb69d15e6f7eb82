import OutlineFont.Hinting.Perform
import OutlineFont.Proofs.LayoutFaults
import OutlineFont.Proofs.Sequencing

/-!
# What one instruction keeps

Work on the machine changes the stack, values in the storage and in the control
value table, and the settings.  It keeps the sizes of the tables, and a machine
whose stack and settings are within bounds stays so, whether the work succeeds or
fails halfway.  Its failures lie in the operands, not in the layout of the
program or in the bounds of the run.
-/

namespace OutlineFont.Hinting

/-- Settings that no instruction leaves. -/
structure GraphicsState.Settled (state : GraphicsState) : Prop where
  deltaShift : state.deltaShift ≤ 6
  loopCount : 1 ≤ state.loopCount
  instructionControl : state.instructionControl.toNat < 8
  projection : ∃ axis, state.projection = .ofAxis axis
  freedom : ∃ axis, state.freedom = .ofAxis axis

/-- A machine whose stack and settings are within their bounds. -/
structure Machine.Settled (machine : Machine) : Prop where
  depth : machine.stack.depth ≤ Stack.limit
  graphics : machine.graphics.Settled

/-- What work on a machine keeps. -/
structure Machine.Carries (before after : Machine) : Prop where
  storage : after.storage.size = before.storage.size
  functions : after.functions = before.functions
  controls : after.controls.size = before.controls.size
  twilight : after.twilight = before.twilight
  outline : after.outline = before.outline
  ppem : after.ppem = before.ppem
  unitsPerEm : after.unitsPerEm = before.unitsPerEm
  settled : before.Settled → after.Settled

theorem Machine.Carries.refl (machine : Machine) : machine.Carries machine :=
  ⟨rfl, rfl, rfl, rfl, rfl, rfl, rfl, id⟩

theorem Machine.Carries.trans {first second third : Machine} (before : first.Carries second)
    (after : second.Carries third) : first.Carries third where
  storage := after.storage.trans before.storage
  functions := after.functions.trans before.functions
  controls := after.controls.trans before.controls
  twilight := after.twilight.trans before.twilight
  outline := after.outline.trans before.outline
  ppem := after.ppem.trans before.ppem
  unitsPerEm := after.unitsPerEm.trans before.unitsPerEm
  settled := after.settled ∘ before.settled

/-- Only the stack has changed, and it is still within its bound. -/
theorem Machine.Carries.ofStack {machine : Machine} {stack : Stack}
    (bounded : machine.stack.depth ≤ Stack.limit → stack.depth ≤ Stack.limit) :
    machine.Carries { machine with stack := stack } :=
  ⟨rfl, rfl, rfl, rfl, rfl, rfl, rfl, fun settled => ⟨bounded settled.depth, settled.graphics⟩⟩

/-- Only the settings have changed, and they are still within their bounds. -/
theorem Machine.Carries.ofGraphics {machine : Machine} {graphics : GraphicsState}
    (bounded : machine.graphics.Settled → graphics.Settled) :
    machine.Carries { machine with graphics := graphics } :=
  ⟨rfl, rfl, rfl, rfl, rfl, rfl, rfl, fun settled => ⟨settled.depth, bounded settled.graphics⟩⟩

namespace Engine

variable {α β : Type}

/-- An outcome that carries the machine over, or else a failure because of operands. -/
def CarriesOver (before : Machine) : EStateM.Result FontError Machine α → Prop
  | .ok _ after => before.Carries after
  | .error failure after => before.Carries after ∧ failure.concernsOperands = true

/-- Work that carries every machine over, and fails only because of operands. -/
def Safe (work : Engine α) : Prop :=
  ∀ machine, CarriesOver machine (work machine)

theorem CarriesOver.bind {work : Engine α} {next : α → Engine β} {machine : Machine}
    (start : CarriesOver machine (work machine))
    (rest : ∀ value between, work machine = .ok value between →
      CarriesOver between (next value between)) :
    CarriesOver machine ((work >>= next) machine) := by
  cases outcome : work machine with
  | error failure between =>
      rw [outcome] at start
      rw [bind_of_error outcome]
      exact start
  | ok value between =>
      have finish := rest value between outcome
      rw [outcome] at start
      rw [bind_of_ok outcome]
      cases result : next value between with
      | ok value after =>
          rw [result] at finish
          exact start.trans finish
      | error failure after =>
          rw [result] at finish
          exact ⟨start.trans finish.1, finish.2⟩

namespace Safe

theorem pure (value : α) : Safe (pure value : Engine α) :=
  fun machine => .refl machine

theorem bind {work : Engine α} {next : α → Engine β} (first : Safe work)
    (second : ∀ value, Safe (next value)) : Safe (work >>= next) :=
  fun machine => (first machine).bind fun value between _ => second value between

theorem map {work : Engine α} (safe : Safe work) (change : α → β) : Safe (change <$> work) := by
  rw [map_eq_pure_bind]
  exact safe.bind fun value => pure (change value)

theorem get : Safe (get : Engine Machine) :=
  fun machine => .refl machine

theorem ofThrow {failure : FontError} (operands : failure.concernsOperands = true) :
    Safe (throw failure : Engine α) :=
  fun machine => ⟨.refl machine, operands⟩

/-- After a failure nothing else is carried out. -/
theorem ofFail {fault : HintingFault}
    (operands : (FontError.hinting fault).concernsOperands = true) (next : β → Engine α) :
    Safe (fail fault >>= next) :=
  fun machine => ⟨.refl machine, operands⟩

theorem accept {result : Except FontError α}
    (operands : ∀ failure, result = .error failure → failure.concernsOperands = true) :
    Safe (accept result) := by
  intro machine
  cases result with
  | ok value => exact .refl machine
  | error failure => exact ⟨.refl machine, operands failure rfl⟩

theorem ite {condition : Prop} [Decidable condition] {first second : Engine α}
    (whenTrue : condition → Safe first) (otherwise : ¬condition → Safe second) :
    Safe (if condition then first else second) := by
  split
  · exact whenTrue ‹_›
  · exact otherwise ‹_›

end Safe

end Engine

namespace Stack

/-- A change of the stack that keeps its bound, and fails only because of operands. -/
def Bounded (change : Stack → Except FontError Stack) : Prop :=
  ∀ stack, match change stack with
    | .ok after => stack.depth ≤ limit → after.depth ≤ limit
    | .error failure => failure.concernsOperands = true

theorem push_bounded (value : Int32) : Bounded fun stack => stack.push value := by
  intro stack
  dsimp only
  by_cases space : stack.depth < limit
  · rw [push_of_lt space]
    intro _
    simp only [ofList, List.length_cons, ← stack.depth_eq]
    omega
  · rw [push_of_le (Nat.not_lt.mp space)]
    rfl

theorem index_error {stack : Stack} {position : Int32} {failure : FontError}
    (failed : stack.index position = .error failure) : failure.concernsOperands = true := by
  unfold index at failed
  split at failed
  · cases failed
  · cases failed
    rfl

theorem copyToTop_bounded (position : Int32) :
    Bounded fun stack => stack.copyToTop position := by
  intro stack
  dsimp only
  unfold copyToTop
  cases found : stack.index position with
  | error failure => exact index_error found
  | ok index => exact push_bounded _ stack

theorem moveToTop_bounded (position : Int32) :
    Bounded fun stack => stack.moveToTop position := by
  intro stack
  dsimp only
  unfold moveToTop
  cases found : stack.index position with
  | error failure => exact index_error found
  | ok index => exact id

theorem swap_bounded : Bounded swap := by
  rintro ⟨items, depth, depth_eq⟩
  match items with
  | [] => rfl
  | [_] => rfl
  | _ :: _ :: _ => exact id

end Stack

namespace Engine

open Stack (Bounded)

theorem rearrange_safe {change : Stack → Except FontError Stack} (bounded : Bounded change) :
    Safe (rearrange change) := by
  intro machine
  have stays := bounded machine.stack
  unfold rearrange
  cases changed : change machine.stack with
  | ok stack =>
      rw [changed] at stays
      exact .ofStack stays
  | error failure =>
      rw [changed] at stays
      exact ⟨.refl machine, stays⟩

theorem push_safe (value : Int32) : Safe (push value) :=
  rearrange_safe (Stack.push_bounded value)

theorem pushTruth_safe (value : Bool) : Safe (pushTruth value) :=
  push_safe _

theorem pushAll_safe (values : List Int32) : Safe (pushAll values) := by
  induction values with
  | nil => exact .pure ()
  | cons value rest ih => exact (push_safe value).bind fun _ => ih

theorem pop_safe : Safe pop := by
  intro machine
  unfold pop
  obtain ⟨⟨items, depth, depth_eq⟩, _⟩ := machine
  match items with
  | [] => exact ⟨.refl _, rfl⟩
  | value :: rest => exact .ofStack fun bounded => Nat.le_trans (Nat.sub_le _ _) bounded

/-- Popping takes the top away and changes nothing else. -/
theorem pop_of_items {machine : Machine} {value : Int32} {rest : List Int32}
    (stack : machine.stack.items = value :: rest) :
    pop machine = .ok value { machine with stack := .ofList rest } := by
  have same : machine.stack = .ofList (value :: rest) := Stack.ext stack
  unfold pop
  rw [same, Stack.pop_ofList_cons]

theorem popUnsigned_safe : Safe popUnsigned :=
  pop_safe.map _

theorem popTruth_safe : Safe popTruth :=
  pop_safe.map _

theorem popDistance_safe : Safe popDistance :=
  pop_safe.map _

theorem peek_safe : Safe peek := by
  intro machine
  unfold peek Stack.peek
  cases machine.stack.items with
  | nil => exact ⟨.refl machine, rfl⟩
  | cons => exact .refl machine

theorem changeGraphics_safe {change : GraphicsState → GraphicsState}
    (bounded : ∀ state : GraphicsState, state.Settled → (change state).Settled) :
    Safe (changeGraphics change) :=
  fun machine => .ofGraphics (bounded machine.graphics)

theorem changeGraphics_safe_of_same {change : GraphicsState → GraphicsState}
    (same : ∀ state, (change state).deltaShift = state.deltaShift ∧
      (change state).loopCount = state.loopCount ∧
      (change state).instructionControl = state.instructionControl ∧
      (change state).projection = state.projection ∧ (change state).freedom = state.freedom) :
    Safe (changeGraphics change) := by
  refine changeGraphics_safe fun state settled => ?_
  obtain ⟨deltaShift, loopCount, control, projection, freedom⟩ := same state
  exact ⟨deltaShift ▸ settled.deltaShift, loopCount ▸ settled.loopCount,
    control ▸ settled.instructionControl, projection ▸ settled.projection,
    freedom ▸ settled.freedom⟩

theorem readStorage_safe (index : Int32) : Safe (readStorage index) := by
  intro machine
  unfold readStorage
  cases machine.storage[toIndex index]? with
  | some value => exact .refl machine
  | none => exact ⟨.refl machine, rfl⟩

theorem writeStorage_safe (index value : Int32) : Safe (writeStorage index value) := by
  intro machine
  unfold writeStorage
  by_cases inside : toIndex index < machine.storage.size
  · rw [dif_pos inside]
    exact ⟨Array.size_set inside, rfl, rfl, rfl, rfl, rfl, rfl,
      fun settled => ⟨settled.depth, settled.graphics⟩⟩
  · rw [dif_neg inside]
    exact ⟨.refl machine, rfl⟩

theorem readControl_safe (index : Int32) : Safe (readControl index) := by
  intro machine
  unfold readControl
  cases machine.controls[toIndex index]? with
  | some value => exact .refl machine
  | none => exact ⟨.refl machine, rfl⟩

theorem changeControl_safe (index : Int32) (change : Fixed → Fixed) :
    Safe (changeControl index change) := by
  intro machine
  unfold changeControl
  by_cases inside : toIndex index < machine.controls.size
  · rw [dif_pos inside]
    exact ⟨rfl, rfl, Array.size_set inside, rfl, rfl, rfl, rfl,
      fun settled => ⟨settled.depth, settled.graphics⟩⟩
  · rw [dif_neg inside]
    exact ⟨.refl machine, rfl⟩

theorem lookup_safe (index : Int32) : Safe (lookup index) := by
  intro machine
  unfold lookup
  match machine.functions[toIndex index]? with
  | some (some function) => exact .refl machine
  | some none => exact ⟨.refl machine, rfl⟩
  | none => exact ⟨.refl machine, rfl⟩

end Engine

namespace GraphicsState

theorem setVectors_settled {state : GraphicsState} (settled : state.Settled)
    (choice : VectorChoice) (axis : Axis) : (state.setVectors choice axis).Settled := by
  obtain ⟨deltaShift, loopCount, control, projection, freedom⟩ := settled
  cases choice with
  | both => exact ⟨deltaShift, loopCount, control, ⟨axis, rfl⟩, ⟨axis, rfl⟩⟩
  | projection => exact ⟨deltaShift, loopCount, control, ⟨axis, rfl⟩, freedom⟩
  | freedom => exact ⟨deltaShift, loopCount, control, projection, ⟨axis, rfl⟩⟩

/-- A selector from one to three has its flag among the lowest three bits. -/
theorem setInstructionControl_settled {state : GraphicsState} (settled : state.Settled)
    {selector : Nat} (least : 1 ≤ selector) (greatest : selector ≤ 3) (on : Bool) :
    (state.setInstructionControl selector on).Settled := by
  obtain ⟨deltaShift, loopCount, control, projection, freedom⟩ := settled
  refine ⟨deltaShift, loopCount, ?_, projection, freedom⟩
  have flag : ((1 : UInt32) <<< UInt32.ofNat (selector - 1)).toNat < 2 ^ 3 := by
    have choices : selector = 1 ∨ selector = 2 ∨ selector = 3 := by omega
    rcases choices with rfl | rfl | rfl <;> decide
  unfold setInstructionControl
  cases on with
  | true =>
      simp only [if_true, UInt32.toNat_or]
      exact Nat.or_lt_two_pow (n := 3) control flag
  | false =>
      simp only [Bool.false_eq_true, if_false, UInt32.toNat_and]
      exact Nat.lt_of_le_of_lt Nat.and_le_left control

theorem setScanControl_settled {state after : GraphicsState} {flags : UInt32} {ppem : Nat}
    (changed : state.setScanControl flags ppem = .ok after) (settled : state.Settled) :
    after.Settled := by
  obtain ⟨deltaShift, loopCount, control, projection, freedom⟩ := settled
  unfold setScanControl at changed
  dsimp only at changed
  split at changed
  · cases changed
    exact ⟨deltaShift, loopCount, control, projection, freedom⟩
  · split at changed
    · cases changed
      exact ⟨deltaShift, loopCount, control, projection, freedom⟩
    · split at changed
      · cases changed
      · split at changed
        · cases changed
          exact ⟨deltaShift, loopCount, control, projection, freedom⟩
        · cases changed
          exact ⟨deltaShift, loopCount, control, projection, freedom⟩

theorem setScanControl_error {state : GraphicsState} {flags : UInt32} {ppem : Nat}
    {failure : FontError} (failed : state.setScanControl flags ppem = .error failure) :
    failure.concernsOperands = true := by
  unfold setScanControl at failed
  dsimp only at failed
  split at failed
  · cases failed
  · split at failed
    · cases failed
    · split at failed
      · cases failed
        rfl
      · split at failed <;> cases failed

end GraphicsState

namespace Engine

theorem zone_safe (value : Int32) : Safe (accept (Zone.ofNumber value)) := by
  apply Safe.accept
  intro failure failed
  unfold Zone.ofNumber at failed
  split at failed
  · cases failed
  · split at failed
    · cases failed
    · cases failed
      rfl

theorem arithmetic_safe (operation : Arithmetic) (first second : Int32) :
    Safe (accept ((operation.compute first second).mapError .hinting)) := by
  apply Safe.accept
  intro failure failed
  cases operation with
  | divide =>
      unfold Arithmetic.compute at failed
      dsimp only at failed
      split at failed
      · cases failed
        rfl
      · cases failed
  | add | subtract | multiply | maximum | minimum => cases failed

theorem setLoop_safe : Safe setLoop := by
  refine pop_safe.bind fun count => Safe.ite (fun _ => .ofFail rfl _) fun positive => ?_
  refine changeGraphics_safe fun state settled => ?_
  have least : 1 ≤ count.toInt.toNat := by
    rw [Int32.le_iff_toInt_le] at positive
    have zero : (0 : Int32).toInt = 0 := rfl
    omega
  exact ⟨settled.deltaShift, least, settled.instructionControl, settled.projection,
    settled.freedom⟩

theorem setDeltaShift_safe : Safe setDeltaShift := by
  refine popUnsigned_safe.bind fun shift => Safe.ite (fun _ => .ofFail rfl _) fun within => ?_
  refine changeGraphics_safe fun state settled => ?_
  have greatest : shift.toNat ≤ 6 := by
    rw [UInt32.lt_iff_toNat_lt] at within
    exact Nat.not_lt.mp within
  exact ⟨greatest, settled.loopCount, settled.instructionControl, settled.projection,
    settled.freedom⟩

/-- The settings that come of the scan control are those of the machine, but for one. -/
theorem setScanControl_safe : Safe setScanControl := by
  refine popUnsigned_safe.bind fun flags machine => ?_
  refine CarriesOver.bind (Safe.get machine) fun _ _ same => ?_
  cases same
  have accepted : Safe (accept (machine.graphics.setScanControl flags machine.ppem)) :=
    Safe.accept fun _ => GraphicsState.setScanControl_error
  refine CarriesOver.bind (accepted machine) fun graphics between taken => ?_
  cases changed : machine.graphics.setScanControl flags machine.ppem with
  | error failure =>
      rw [changed] at taken
      cases taken
  | ok result =>
      rw [changed] at taken
      cases taken
      exact .ofGraphics (GraphicsState.setScanControl_settled changed)

theorem setInstructionControl_safe (kind : ProgramKind) : Safe (setInstructionControl kind) := by
  refine pop_safe.bind fun selector => pop_safe.bind fun value => ?_
  refine Safe.ite (fun _ => .ofFail rfl _) fun within => ?_
  refine Safe.ite (fun _ => ?_) fun _ => .pure ()
  rw [not_or, Int32.lt_iff_toInt_lt, Int32.lt_iff_toInt_lt] at within
  have one : (1 : Int32).toInt = 1 := rfl
  have three : (3 : Int32).toInt = 3 := rfl
  exact changeGraphics_safe fun state settled =>
    GraphicsState.setInstructionControl_settled settled (by omega) (by omega) _

theorem moveToControl_safe : Safe moveToControl := by
  refine pop_safe.bind fun index => popUnsigned_safe.bind fun point => ?_
  refine (readControl_safe index).bind fun _ => Safe.get.bind fun machine => ?_
  exact Safe.ite (fun _ => (Safe.ofThrow rfl).bind fun _ => changeGraphics_safe_of_same
    fun _ => ⟨rfl, rfl, rfl, rfl, rfl⟩) fun _ => changeGraphics_safe_of_same
    fun _ => ⟨rfl, rfl, rfl, rfl, rfl⟩

theorem applyDelta_safe (bias : Nat) (pair : DeltaPair) : Safe (applyDelta bias pair) := by
  refine Safe.get.bind fun machine => ?_
  exact Safe.ite (fun _ => changeControl_safe _ _) fun _ => .pure ()

theorem applyDeltas_safe (bias count : Nat) : Safe (applyDeltas bias count) := by
  induction count with
  | zero => exact .pure ()
  | succ count ih =>
      exact pop_safe.bind fun index => popUnsigned_safe.bind fun packed =>
        (applyDelta_safe bias ⟨index, packed⟩).bind fun _ => ih

theorem transform_safe (program : Program) (instruction : Instruction) :
    Safe (transform program instruction) := by
  have settings {change : GraphicsState → GraphicsState} := @changeGraphics_safe_of_same change
  unfold transform
  generalize instruction.opcode.action = action
  cases action with
  | setVectors choice axis =>
      exact changeGraphics_safe fun _ settled =>
        GraphicsState.setVectors_settled settled choice axis
  | setReference index =>
      exact popUnsigned_safe.bind fun _ => settings fun _ => ⟨rfl, rfl, rfl, rfl, rfl⟩
  | setZone index =>
      exact pop_safe.bind fun value => (zone_safe value).bind fun _ =>
        settings fun _ => ⟨rfl, rfl, rfl, rfl, rfl⟩
  | setZones =>
      exact pop_safe.bind fun value => (zone_safe value).bind fun _ =>
        settings fun _ => ⟨rfl, rfl, rfl, rfl, rfl⟩
  | setLoop => exact setLoop_safe
  | setRounding state => exact settings fun _ => ⟨rfl, rfl, rfl, rfl, rfl⟩
  | setMinimumDistance | setControlCutIn | setWidthCutIn =>
      exact popDistance_safe.bind fun _ => settings fun _ => ⟨rfl, rfl, rfl, rfl, rfl⟩
  | setWidth =>
      exact Safe.get.bind fun _ => pop_safe.bind fun _ =>
        settings fun _ => ⟨rfl, rfl, rfl, rfl, rfl⟩
  | setAutoFlip on => exact settings fun _ => ⟨rfl, rfl, rfl, rfl, rfl⟩
  | setDeltaBase =>
      exact popUnsigned_safe.bind fun _ => settings fun _ => ⟨rfl, rfl, rfl, rfl, rfl⟩
  | setDeltaShift => exact setDeltaShift_safe
  | setScanControl => exact setScanControl_safe
  | setScanType => exact pop_safe.bind fun _ => settings fun _ => ⟨rfl, rfl, rfl, rfl, rfl⟩
  | setInstructionControl => exact setInstructionControl_safe program.kind
  | getInformation => exact pop_safe.bind fun _ => push_safe _
  | duplicate => exact peek_safe.bind fun value => push_safe value
  | discard => exact pop_safe.bind fun _ => .pure ()
  | clear => exact fun machine => .ofStack fun _ => Nat.zero_le _
  | swap => exact rearrange_safe Stack.swap_bounded
  | depth => exact Safe.get.bind fun _ => push_safe _
  | copyIndexed =>
      exact pop_safe.bind fun position => rearrange_safe (Stack.copyToTop_bounded position)
  | moveIndexed =>
      exact pop_safe.bind fun position => rearrange_safe (Stack.moveToTop_bounded position)
  | roll => exact rearrange_safe (Stack.moveToTop_bounded 3)
  | push width count => exact pushAll_safe _
  | writeStorage =>
      exact pop_safe.bind fun value => pop_safe.bind fun index => writeStorage_safe index value
  | readStorage =>
      exact pop_safe.bind fun index => (readStorage_safe index).bind fun value => push_safe value
  | writeControl =>
      exact popDistance_safe.bind fun _ => pop_safe.bind fun index => changeControl_safe index _
  | writeScaledControl =>
      exact pop_safe.bind fun _ => pop_safe.bind fun index => Safe.get.bind fun _ =>
        changeControl_safe index _
  | readControl =>
      exact pop_safe.bind fun index => (readControl_safe index).bind fun _ => push_safe _
  | pixelsPerEm => exact Safe.get.bind fun _ => push_safe _
  | compare test => exact pop_safe.bind fun _ => pop_safe.bind fun _ => pushTruth_safe _
  | negateLogical => exact popTruth_safe.bind fun _ => pushTruth_safe _
  | parity odd => exact popDistance_safe.bind fun _ => Safe.get.bind fun _ => pushTruth_safe _
  | combine operation =>
      exact pop_safe.bind fun second => pop_safe.bind fun first =>
        (arithmetic_safe operation first second).bind fun value => push_safe value
  | mapDistance operation =>
      exact popDistance_safe.bind fun _ => Safe.get.bind fun _ => push_safe _
  | inspect => exact peek_safe.bind fun _ => .pure ()
  | deltaControl bias =>
      exact popUnsigned_safe.bind fun count => applyDeltas_safe bias count.toNat
  | moveToControl => exact moveToControl_safe
  | unknown => exact .ofThrow rfl
  | ifTrue | elseBranch | endIf | jump | jumpWhen _ | defineFunction | defineInstruction
  | endFunction | call | loopCall | unsupported => exact .ofThrow rfl

end Engine

end OutlineFont.Hinting
