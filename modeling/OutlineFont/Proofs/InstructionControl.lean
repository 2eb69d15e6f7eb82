import OutlineFont.Proofs.HintedOutline

/-!
# The instruction control

One instruction alone changes the instruction control, and only where its byte
lies in a control value program.  Which program was started plays no part in it: a
function of the font program changes nothing when the control value program calls
it, and a function of the control value program does its work for any caller.
-/

namespace OutlineFont.Hinting

namespace GraphicsState

theorem setScanControl_control {state after : GraphicsState} {flags : UInt32} {ppem : Nat}
    (changed : state.setScanControl flags ppem = .ok after) :
    after.instructionControl = state.instructionControl := by
  unfold setScanControl at changed
  dsimp only at changed
  split at changed
  · cases changed
    rfl
  · split at changed
    · cases changed
      rfl
    · split at changed
      · cases changed
      · split at changed
        · cases changed
          rfl
        · cases changed
          rfl

/-- The bit of a selector is given a value, and all others stay. -/
theorem testBit_setInstructionControl (state : GraphicsState) {selector : Nat}
    (least : 1 ≤ selector) (greatest : selector ≤ 3) (on : Bool) (bit : Nat) :
    (state.setInstructionControl selector on).instructionControl.toNat.testBit bit =
      if bit + 1 = selector then on else state.instructionControl.toNat.testBit bit := by
  have flag : ((1 : UInt32) <<< UInt32.ofNat (selector - 1)).toBitVec =
      BitVec.twoPow 32 (selector - 1) := by
    have choices : selector = 1 ∨ selector = 2 ∨ selector = 3 := by omega
    rcases choices with rfl | rfl | rfl <;> rfl
  have chosen : (BitVec.twoPow 32 (selector - 1)).getLsbD bit = decide (bit + 1 = selector) := by
    rw [BitVec.getLsbD_twoPow, ← Bool.decide_and, decide_eq_decide]
    omega
  change (state.setInstructionControl selector on).instructionControl.toBitVec.getLsbD bit =
    if bit + 1 = selector then on else state.instructionControl.toBitVec.getLsbD bit
  unfold setInstructionControl
  cases on with
  | true =>
      simp only [if_true, UInt32.toBitVec_or, flag, BitVec.getLsbD_or, chosen]
      by_cases selected : bit + 1 = selector <;> simp [selected]
  | false =>
      simp only [Bool.false_eq_true, if_false, UInt32.toBitVec_and, UInt32.toBitVec_not, flag,
        BitVec.getLsbD_and, BitVec.getLsbD_not, chosen]
      by_cases selected : bit + 1 = selector
      · simp [selected]
      · by_cases inside : bit < 32
        · simp [selected, inside]
        · simp [selected, BitVec.getLsbD_of_ge _ _ (Nat.not_lt.mp inside)]

end GraphicsState

namespace Engine

variable {α β : Type}

/-- The machine that work leaves, whether it succeeds or fails. -/
def left (work : Engine α) (machine : Machine) : Machine :=
  match work machine with
  | .ok _ after => after
  | .error _ after => after

/-- Work that does not change the instruction control, not even when it fails. -/
def KeepsControl (work : Engine α) : Prop :=
  ∀ machine,
    (left work machine).graphics.instructionControl = machine.graphics.instructionControl

namespace KeepsControl

theorem pure (value : α) : KeepsControl (pure value : Engine α) :=
  fun _ => rfl

theorem get : KeepsControl (get : Engine Machine) :=
  fun _ => rfl

theorem ofThrow (failure : FontError) : KeepsControl (throw failure : Engine α) :=
  fun _ => rfl

theorem bind {work : Engine α} {next : α → Engine β} (first : KeepsControl work)
    (second : ∀ value, KeepsControl (next value)) : KeepsControl (work >>= next) := by
  intro machine
  have start := first machine
  unfold left at start ⊢
  cases outcome : work machine with
  | error failure between =>
      rw [outcome] at start
      rw [bind_of_error outcome]
      exact start
  | ok value between =>
      rw [outcome] at start
      rw [bind_of_ok outcome]
      exact (second value between).trans start

theorem map {work : Engine α} (keeps : KeepsControl work) (change : α → β) :
    KeepsControl (change <$> work) := by
  rw [map_eq_pure_bind]
  exact keeps.bind fun value => pure (change value)

theorem accept (result : Except FontError α) : KeepsControl (accept result) := by
  intro machine
  cases result with
  | ok value => rfl
  | error failure => rfl

theorem ite {condition : Prop} [Decidable condition] {first second : Engine α}
    (whenTrue : KeepsControl first) (otherwise : KeepsControl second) :
    KeepsControl (if condition then first else second) := by
  split
  · exact whenTrue
  · exact otherwise

variable {work : Engine α} {machine after : Machine}

theorem of_ok (keeps : KeepsControl work) {value : α} (outcome : work machine = .ok value after) :
    after.graphics.instructionControl = machine.graphics.instructionControl := by
  have same := keeps machine
  rwa [left, outcome] at same

theorem of_error (keeps : KeepsControl work) {failure : FontError}
    (outcome : work machine = .error failure after) :
    after.graphics.instructionControl = machine.graphics.instructionControl := by
  have same := keeps machine
  rwa [left, outcome] at same

end KeepsControl

theorem rearrange_keeps (change : Stack → Except FontError Stack) :
    KeepsControl (rearrange change) := by
  intro machine
  unfold left rearrange
  cases change machine.stack with
  | ok stack => rfl
  | error failure => rfl

theorem push_keeps (value : Int32) : KeepsControl (push value) :=
  rearrange_keeps _

theorem pushTruth_keeps (value : Bool) : KeepsControl (pushTruth value) :=
  push_keeps _

theorem pushAll_keeps (values : List Int32) : KeepsControl (pushAll values) := by
  induction values with
  | nil => exact .pure ()
  | cons value rest ih => exact (push_keeps value).bind fun _ => ih

theorem pop_keeps : KeepsControl pop := by
  intro machine
  unfold left pop
  cases machine.stack.pop with
  | ok taken => rfl
  | error failure => rfl

theorem popUnsigned_keeps : KeepsControl popUnsigned :=
  pop_keeps.map _

theorem popTruth_keeps : KeepsControl popTruth :=
  pop_keeps.map _

theorem popDistance_keeps : KeepsControl popDistance :=
  pop_keeps.map _

theorem peek_keeps : KeepsControl peek := by
  intro machine
  unfold left peek
  cases machine.stack.peek with
  | ok value => rfl
  | error failure => rfl

theorem changeGraphics_keeps {change : GraphicsState → GraphicsState}
    (same : ∀ state, (change state).instructionControl = state.instructionControl) :
    KeepsControl (changeGraphics change) :=
  fun machine => same machine.graphics

theorem readStorage_keeps (index : Int32) : KeepsControl (readStorage index) := by
  intro machine
  unfold left readStorage
  cases machine.storage[toIndex index]? with
  | some value => rfl
  | none => rfl

theorem writeStorage_keeps (index value : Int32) : KeepsControl (writeStorage index value) := by
  intro machine
  unfold left writeStorage
  by_cases inside : toIndex index < machine.storage.size
  · rw [dif_pos inside]
  · rw [dif_neg inside]

theorem readControl_keeps (index : Int32) : KeepsControl (readControl index) := by
  intro machine
  unfold left readControl
  cases machine.controls[toIndex index]? with
  | some value => rfl
  | none => rfl

theorem changeControl_keeps (index : Int32) (change : Fixed → Fixed) :
    KeepsControl (changeControl index change) := by
  intro machine
  unfold left changeControl
  by_cases inside : toIndex index < machine.controls.size
  · rw [dif_pos inside]
  · rw [dif_neg inside]

theorem lookup_keeps (index : Int32) : KeepsControl (lookup index) := by
  intro machine
  unfold left lookup
  match machine.functions[toIndex index]? with
  | some (some function) => rfl
  | some none => rfl
  | none => rfl

theorem define_keeps (index : Int32) (function : Function) :
    KeepsControl (define index function) := by
  intro machine
  unfold left define
  by_cases inside : toIndex index < machine.functions.size
  · rw [dif_pos inside]
    cases machine.functions[toIndex index] with
    | none => rfl
    | some first => rfl
  · rw [dif_neg inside]

theorem setLoop_keeps : KeepsControl setLoop :=
  pop_keeps.bind fun _ => .ite ((KeepsControl.ofThrow _).bind fun _ =>
    changeGraphics_keeps fun _ => rfl) (changeGraphics_keeps fun _ => rfl)

theorem setDeltaShift_keeps : KeepsControl setDeltaShift :=
  popUnsigned_keeps.bind fun _ => .ite ((KeepsControl.ofThrow _).bind fun _ =>
    changeGraphics_keeps fun _ => rfl) (changeGraphics_keeps fun _ => rfl)

theorem setScanControl_keeps : KeepsControl setScanControl := by
  refine popUnsigned_keeps.bind fun flags machine => ?_
  -- The settings that are put in place are those of this very machine, but for one.
  have got : (get : Engine Machine) machine = .ok machine machine := rfl
  unfold left
  rw [bind_of_ok got]
  cases changed : machine.graphics.setScanControl flags machine.ppem with
  | error failure => rfl
  | ok graphics => exact GraphicsState.setScanControl_control changed

theorem moveToControl_keeps : KeepsControl moveToControl :=
  pop_keeps.bind fun index => popUnsigned_keeps.bind fun _ =>
    (readControl_keeps index).bind fun _ => KeepsControl.get.bind fun _ =>
      .ite ((KeepsControl.ofThrow _).bind fun _ => changeGraphics_keeps fun _ => rfl)
        (changeGraphics_keeps fun _ => rfl)

theorem applyDelta_keeps (bias : Nat) (pair : DeltaPair) : KeepsControl (applyDelta bias pair) :=
  KeepsControl.get.bind fun _ => .ite (changeControl_keeps _ _) (.pure ())

theorem applyDeltas_keeps (bias count : Nat) : KeepsControl (applyDeltas bias count) := by
  induction count with
  | zero => exact .pure ()
  | succ count ih =>
      exact pop_keeps.bind fun index => popUnsigned_keeps.bind fun packed =>
        (applyDelta_keeps bias ⟨index, packed⟩).bind fun _ => ih

/-- Outside of control value programs the operands are popped, and nothing else is done. -/
theorem setInstructionControl_keeps {kind : ProgramKind} (foreign : kind ≠ .controlValue) :
    KeepsControl (setInstructionControl kind) := by
  refine pop_keeps.bind fun selector => pop_keeps.bind fun value => ?_
  rw [if_neg foreign]
  exact .ite ((KeepsControl.ofThrow _).bind fun _ => .pure ()) (.pure ())

theorem transform_keeps {program : Program} {instruction : Instruction}
    (foreign : instruction.opcode.action = .setInstructionControl → program.kind ≠ .controlValue) :
    KeepsControl (transform program instruction) := by
  unfold transform
  generalize instruction.opcode.action = action at foreign
  cases action with
  | setVectors choice axis =>
      refine changeGraphics_keeps fun state => ?_
      cases choice <;> rfl
  | setReference index =>
      exact popUnsigned_keeps.bind fun _ => changeGraphics_keeps fun _ => rfl
  | setZone index =>
      exact pop_keeps.bind fun _ => (KeepsControl.accept _).bind fun _ =>
        changeGraphics_keeps fun _ => rfl
  | setZones =>
      exact pop_keeps.bind fun _ => (KeepsControl.accept _).bind fun _ =>
        changeGraphics_keeps fun _ => rfl
  | setLoop => exact setLoop_keeps
  | setRounding state => exact changeGraphics_keeps fun _ => rfl
  | setMinimumDistance | setControlCutIn | setWidthCutIn =>
      exact popDistance_keeps.bind fun _ => changeGraphics_keeps fun _ => rfl
  | setWidth =>
      exact KeepsControl.get.bind fun _ => pop_keeps.bind fun _ =>
        changeGraphics_keeps fun _ => rfl
  | setAutoFlip on => exact changeGraphics_keeps fun _ => rfl
  | setDeltaBase => exact popUnsigned_keeps.bind fun _ => changeGraphics_keeps fun _ => rfl
  | setDeltaShift => exact setDeltaShift_keeps
  | setScanControl => exact setScanControl_keeps
  | setScanType => exact pop_keeps.bind fun _ => changeGraphics_keeps fun _ => rfl
  | setInstructionControl => exact setInstructionControl_keeps (foreign rfl)
  | getInformation => exact pop_keeps.bind fun _ => push_keeps _
  | duplicate => exact peek_keeps.bind fun value => push_keeps value
  | discard => exact pop_keeps.bind fun _ => .pure ()
  | clear => exact fun _ => rfl
  | swap => exact rearrange_keeps _
  | depth => exact KeepsControl.get.bind fun _ => push_keeps _
  | copyIndexed => exact pop_keeps.bind fun _ => rearrange_keeps _
  | moveIndexed => exact pop_keeps.bind fun _ => rearrange_keeps _
  | roll => exact rearrange_keeps _
  | push width count => exact pushAll_keeps _
  | writeStorage =>
      exact pop_keeps.bind fun value => pop_keeps.bind fun index => writeStorage_keeps index value
  | readStorage =>
      exact pop_keeps.bind fun index => (readStorage_keeps index).bind fun value =>
        push_keeps value
  | writeControl =>
      exact popDistance_keeps.bind fun _ => pop_keeps.bind fun index => changeControl_keeps index _
  | writeScaledControl =>
      exact pop_keeps.bind fun _ => pop_keeps.bind fun index => KeepsControl.get.bind fun _ =>
        changeControl_keeps index _
  | readControl =>
      exact pop_keeps.bind fun index => (readControl_keeps index).bind fun _ => push_keeps _
  | pixelsPerEm => exact KeepsControl.get.bind fun _ => push_keeps _
  | compare test => exact pop_keeps.bind fun _ => pop_keeps.bind fun _ => pushTruth_keeps _
  | negateLogical => exact popTruth_keeps.bind fun _ => pushTruth_keeps _
  | parity odd =>
      exact popDistance_keeps.bind fun _ => KeepsControl.get.bind fun _ => pushTruth_keeps _
  | combine operation =>
      exact pop_keeps.bind fun _ => pop_keeps.bind fun _ => (KeepsControl.accept _).bind
        fun value => push_keeps value
  | mapDistance operation =>
      exact popDistance_keeps.bind fun _ => KeepsControl.get.bind fun _ => push_keeps _
  | inspect => exact peek_keeps.bind fun _ => .pure ()
  | deltaControl bias =>
      exact popUnsigned_keeps.bind fun count => applyDeltas_keeps bias count.toNat
  | moveToControl => exact moveToControl_keeps
  | unknown => exact .ofThrow _
  | ifTrue | elseBranch | endIf | jump | jumpWhen _ | defineFunction | defineInstruction
  | endFunction | call | loopCall | unsupported => exact .ofThrow _

/-- An instruction keeps the instruction control, unless it is the one that changes it. -/
theorem perform_keeps {program : Program} {instruction : Instruction}
    (foreign : instruction.opcode.action = .setInstructionControl → program.kind ≠ .controlValue) :
    KeepsControl (perform program instruction) := by
  have otherwise := (transform_keeps foreign).bind fun _ =>
    KeepsControl.pure (Flow.goto instruction.next)
  unfold perform
  cases instruction.opcode.action with
  | ifTrue =>
      refine popTruth_keeps.bind fun taken => ?_
      cases taken with
      | true => exact .pure _
      | false => exact (KeepsControl.accept _).bind fun _ => .pure _
  | elseBranch => exact (KeepsControl.accept _).bind fun _ => .pure _
  | endIf => exact .pure _
  | jump => exact pop_keeps.bind fun _ => (KeepsControl.accept _).bind fun _ => .pure _
  | jumpWhen condition =>
      exact popTruth_keeps.bind fun _ => pop_keeps.bind fun _ =>
        .ite ((KeepsControl.accept _).bind fun _ => .pure _) (.pure _)
  | defineFunction =>
      exact pop_keeps.bind fun index => (define_keeps index _).bind fun _ =>
        (KeepsControl.accept _).bind fun _ => .pure _
  | endFunction => exact .pure _
  | call => exact pop_keeps.bind fun index => (lookup_keeps index).bind fun _ => .pure _
  | loopCall =>
      exact pop_keeps.bind fun index => pop_keeps.bind fun _ =>
        .ite ((lookup_keeps index).bind fun _ => .pure _) (.pure _)
  | _ => exact otherwise

theorem exists_of_pop {machine after : Machine} {value : Int32}
    (popped : pop machine = .ok value after) :
    ∃ rest, machine.stack.items = value :: rest ∧
      after = { machine with stack := .ofList rest } := by
  cases items : machine.stack.items with
  | nil =>
      have empty : machine.stack = .empty := Stack.ext items
      unfold pop at popped
      rw [empty, Stack.pop_empty] at popped
      cases popped
  | cons top rest =>
      rw [pop_of_items items] at popped
      cases popped
      exact ⟨rest, rfl, rfl⟩

/-- What the instruction does when it succeeds, in a program of some kind. -/
theorem exists_of_setInstructionControl {kind : ProgramKind} {machine after : Machine}
    {value : Unit} (done : setInstructionControl kind machine = .ok value after) :
    ∃ selector number rest, machine.stack.items = selector :: number :: rest ∧
      1 ≤ selector.toInt ∧ selector.toInt ≤ 3 ∧
      after.graphics = if kind = .controlValue then
        machine.graphics.setInstructionControl selector.toInt.toNat (number != 0)
      else
        machine.graphics := by
  obtain ⟨selector, between, first, rest⟩ := bind_eq_ok_iff.mp done
  obtain ⟨items, stack, rfl⟩ := exists_of_pop first
  obtain ⟨number, popped, second, rest⟩ := bind_eq_ok_iff.mp rest
  obtain ⟨others, remaining, rfl⟩ := exists_of_pop second
  obtain rfl : items = number :: others := remaining
  have one : (1 : Int32).toInt = 1 := rfl
  have three : (3 : Int32).toInt = 3 := rfl
  split at rest
  case isTrue => cases rest
  case isFalse within =>
    rw [not_or, Int32.lt_iff_toInt_lt, Int32.lt_iff_toInt_lt] at within
    refine ⟨selector, number, others, stack, by omega, by omega, ?_⟩
    split at rest
    case isTrue own =>
      cases rest
      rw [if_pos own]
    case isFalse foreign =>
      cases rest
      rw [if_neg foreign]

/-- The instruction succeeds as it does on its own, and goes on behind itself. -/
theorem of_perform_setInstructionControl {program : Program} {instruction : Instruction}
    {machine after : Machine} {flow : Flow}
    (action : instruction.opcode.action = .setInstructionControl)
    (performed : perform program instruction machine = .ok flow after) :
    setInstructionControl program.kind machine = .ok () after ∧ flow = .goto instruction.next := by
  unfold perform transform at performed
  rw [action] at performed
  obtain ⟨_, between, done, finish⟩ := bind_eq_ok_iff.mp performed
  cases finish
  exact ⟨done, rfl⟩

/-- The instruction that changes the instruction control does not change it if it fails. -/
theorem control_of_setInstructionControl_error {kind : ProgramKind} {machine after : Machine}
    {failure : FontError} (failed : setInstructionControl kind machine = .error failure after) :
    after.graphics.instructionControl = machine.graphics.instructionControl := by
  rcases bind_eq_error_iff.mp failed with failed | ⟨_, between, first, failed⟩
  · exact pop_keeps.of_error failed
  rw [← pop_keeps.of_ok first]
  rcases bind_eq_error_iff.mp failed with failed | ⟨_, last, second, failed⟩
  · exact pop_keeps.of_error failed
  rw [← pop_keeps.of_ok second]
  split at failed
  · cases failed
    rfl
  · split at failed <;> cases failed

theorem control_of_perform_error {program : Program} {instruction : Instruction}
    {machine after : Machine} {failure : FontError}
    (performed : perform program instruction machine = .error failure after) :
    after.graphics.instructionControl = machine.graphics.instructionControl := by
  by_cases action : instruction.opcode.action = .setInstructionControl
  · unfold perform transform at performed
    rw [action] at performed
    exact control_of_setInstructionControl_error (error_of_bind_pure performed)
  · exact (perform_keeps (absurd · action)).of_error performed

end Engine

/-- The effect of a selector and a value, in a program of some kind, on the instruction control. -/
structure ControlSet (kind : ProgramKind) (selector value : Int32) (before after : Machine) :
    Prop where
  operands : ∃ rest, before.stack.items = selector :: value :: rest
  least : 1 ≤ selector.toInt
  greatest : selector.toInt ≤ 3
  bits : ∀ bit, after.graphics.instructionControl.toNat.testBit bit =
    if kind = .controlValue ∧ (bit + 1 : Nat) = selector.toInt then value != 0
    else before.graphics.instructionControl.toNat.testBit bit

theorem Engine.exists_controlSet_of_ok {kind : ProgramKind} {machine after : Machine}
    (done : setInstructionControl kind machine = .ok () after) :
    ∃ selector value, ControlSet kind selector value machine after := by
  obtain ⟨selector, value, rest, stack, least, greatest, graphics⟩ :=
    exists_of_setInstructionControl done
  refine ⟨selector, value, ⟨rest, stack⟩, least, greatest, fun bit => ?_⟩
  rw [graphics]
  by_cases own : kind = .controlValue
  · have same : bit + 1 = selector.toInt.toNat ↔ ((bit + 1 : Nat) : Int) = selector.toInt := by
      omega
    rw [if_pos own, GraphicsState.testBit_setInstructionControl _ (by omega) (by omega)]
    simp only [own, true_and, same]
  · rw [if_neg own, if_neg fun both => own both.1]

namespace Running

/-- A round in which a control value program carries out the instruction. -/
structure SetsControl (running next : Running) (instruction : Instruction) (flow : Flow) :
    Prop where
  steps : running.Steps next instruction flow
  action : instruction.opcode.action = .setInstructionControl
  kind : running.place.program.kind = .controlValue

variable {first last running next : Running} {instruction : Instruction} {flow : Flow}

theorem Steps.control (steps : running.Steps next instruction flow) :
    if instruction.opcode.action = .setInstructionControl then
      ∃ selector value, ControlSet running.place.program.kind selector value
        running.session.machine next.session.machine
    else
      next.session.machine.graphics.instructionControl =
        running.session.machine.graphics.instructionControl := by
  split
  · next action =>
      exact Engine.exists_controlSet_of_ok
        (Engine.of_perform_setInstructionControl action steps.performed).1
  · next other => exact (Engine.perform_keeps (absurd · other)).of_ok steps.performed

/-- A change of the instruction control is due to its instruction in a control value program. -/
theorem Steps.setsControl (steps : running.Steps next instruction flow)
    (changed : next.session.machine.graphics.instructionControl ≠
      running.session.machine.graphics.instructionControl) :
    running.SetsControl next instruction flow := by
  by_contra other
  refine changed ((Engine.perform_keeps fun action kind => ?_).of_ok steps.performed)
  exact other ⟨steps, action, kind⟩

/-- Some round between two of a run has changed the instruction control where it is different. -/
theorem Reaches.exists_setsControl (reaches : first.Reaches last)
    (changed : last.session.machine.graphics.instructionControl ≠
      first.session.machine.graphics.instructionControl) :
    ∃ running next instruction flow, first.Reaches running ∧
      running.SetsControl next instruction flow := by
  induction reaches with
  | refl => exact absurd rfl changed
  | @tail between last before leads ih =>
      by_cases earlier : between.session.machine.graphics.instructionControl =
          first.session.machine.graphics.instructionControl
      · obtain ⟨instruction, flow, steps⟩ := Next.steps leads
        exact ⟨between, last, instruction, flow, before,
          steps.setsControl (earlier.symm ▸ changed)⟩
      · exact ih earlier

/-- The round that ends a run does not change the instruction control. -/
theorem Halts.control {session : Session} {outcome : Except FontError Unit}
    (halts : running.Halts session outcome) :
    session.machine.graphics.instructionControl =
      running.session.machine.graphics.instructionControl := by
  cases halts with
  | finished | exhausted | undecoded => rfl
  | failed _ _ performed => exact Engine.control_of_perform_error performed
  | lost _ _ performed nowhere =>
      refine (Engine.perform_keeps fun action => ?_).of_ok performed
      obtain ⟨_, rfl⟩ := Engine.of_perform_setInstructionControl action performed
      cases nowhere

theorem Ends.exists_setsControl {session : Session} {outcome : Except FontError Unit}
    (ends : first.Ends session outcome)
    (changed : session.machine.graphics.instructionControl ≠
      first.session.machine.graphics.instructionControl) :
    ∃ running next instruction flow, first.Reaches running ∧
      running.SetsControl next instruction flow := by
  obtain ⟨last, reaches, finish⟩ := ends.exists_last
  exact reaches.exists_setsControl ((halts_of_round finish).control ▸ changed)

/-- A run whose place, callers and bound functions lie in programs with a property. -/
structure Within (home : Program → Prop) (running : Running) : Prop where
  place : home running.place.program
  callers : ∀ frame ∈ running.place.frames, home frame.caller
  functions : running.session.machine.Binds fun function => home function.program

variable {home : Program → Prop}

theorem Within.onward (within : running.Within home) (leads : running.Next next) :
    next.Within home := by
  obtain ⟨place, callers, functions⟩ := within
  obtain ⟨instruction, flow, steps⟩ := Next.steps leads
  have does := Engine.leads_of_perform steps.performed
  have followed := steps.followed
  have target : home next.place.program ∧ ∀ frame ∈ next.place.frames, home frame.caller := by
    generalize next.place = target at followed
    cases followed with
    | goto => exact ⟨place, callers⟩
    | enter _ =>
        cases does with
        | enter _ bound _ =>
            exact ⟨functions _ bound, List.forall_mem_cons.mpr ⟨place, callers⟩⟩
    | back inside _ =>
        rw [inside] at callers
        exact List.forall_mem_cons.mp callers
    | again inside _ =>
        rw [inside] at callers
        obtain ⟨caller, others⟩ := List.forall_mem_cons.mp callers
        exact ⟨place, List.forall_mem_cons.mpr ⟨caller, others⟩⟩
  exact ⟨target.1, target.2, does.binds place functions⟩

theorem Reaches.within (reaches : first.Reaches last) (within : first.Within home) :
    last.Within home := by
  induction reaches with
  | refl => exact within
  | tail _ leads ih => exact ih.onward leads

end Running

namespace Session

/-- A run that has changed the instruction control has done so in a control value program. -/
theorem exists_setsControl_of_runNoting {session : Session} {program : Program}
    (journal : Journal Notice)
    (changed : (session.runNoting journal program).session.machine.graphics.instructionControl ≠
      session.machine.graphics.instructionControl) :
    ∃ running next instruction flow, (Running.mk session (.start program)).Reaches running ∧
      running.SetsControl next instruction flow := by
  rcases runNoting_cases journal session program with ⟨_, same⟩ | ⟨_, _, same⟩ | ⟨_, _, ends⟩
  · rw [same] at changed
    exact absurd rfl changed
  · rw [same] at changed
    exact absurd rfl changed
  · exact ends.exists_setsControl changed

/--
The instruction control is changed by its instruction alone, and according to the
program in which the instruction lies, whichever program was started and however
deep it is called: in a control value program the bit of the selector gets the
value, in others no bit changes.  A run that has changed a bit has carried the
instruction out in a control value program, so that the run of another program
has changed none, if no function of a control value program was bound before.
-/
theorem runNoting_control (session : Session) (program : Program) (journal : Journal Notice) :
    let first : Running := ⟨session, .start program⟩
    let after := (session.runNoting journal program).session.machine.graphics.instructionControl
    (∀ running next instruction flow, first.Reaches running →
      running.Steps next instruction flow →
        if instruction.opcode.action = .setInstructionControl then
          ∃ selector value, ControlSet running.place.program.kind selector value
            running.session.machine next.session.machine
        else
          next.session.machine.graphics.instructionControl =
            running.session.machine.graphics.instructionControl) ∧
    (after ≠ session.machine.graphics.instructionControl →
      ∃ running next instruction flow, first.Reaches running ∧
        running.Steps next instruction flow ∧
        instruction.opcode.action = .setInstructionControl ∧
        running.place.program.kind = .controlValue) ∧
    (program.kind ≠ .controlValue →
      (∀ function, some function ∈ session.machine.functions →
        function.program.kind ≠ .controlValue) →
      after = session.machine.graphics.instructionControl) := by
  intro first after
  refine ⟨?_, ?_, ?_⟩
  · intro running next instruction flow _ steps
    exact steps.control
  · intro changed
    obtain ⟨running, next, instruction, flow, reaches, steps, action, kind⟩ :=
      exists_setsControl_of_runNoting journal changed
    exact ⟨running, next, instruction, flow, reaches, steps, action, kind⟩
  · intro foreign functions
    by_contra changed
    obtain ⟨running, _, _, _, reaches, sets⟩ := exists_setsControl_of_runNoting journal changed
    have within : first.Within fun program => program.kind ≠ .controlValue :=
      ⟨foreign, List.forall_mem_nil _, functions⟩
    exact (reaches.within within).place sets.kind

/-- A program that defines a function, which asks for glyph programs not to be run. -/
def inhibiting : Bytes :=
  #[0xB0, 0, 0x2C, 0xB1, 1, 1, 0x8E, 0x2D]

/-- A program that calls the function. -/
def calling : Bytes :=
  #[0xB0, 0, 0x2B]

/-- A glyph whose program fails unless it is inhibited. -/
def refusing : Glyph :=
  ⟨⟨0, 0, 6, 6⟩, #[0x21], [⟨[⟨1, 1, true⟩, ⟨3, 4, true⟩]⟩]⟩

/-- The program of a glyph calls a function of the font program, and changes no bit. -/
theorem runNoting_control_calling :
    ∃ session, create ⟨1, 0, 0, 1, 8⟩ [] 1000 100 = .ok session ∧
      let defined := (session.run ⟨.font, inhibiting⟩).session
      let called := defined.run ⟨.glyph, calling⟩
      called.outcome = .ok () ∧ called.session.executed = defined.executed + 5 ∧
        called.session.machine.graphics.instructionControl =
          defined.machine.graphics.instructionControl := by
  have created : ∃ session, create ⟨1, 0, 0, 1, 8⟩ [] 1000 100 = .ok session := ⟨_, rfl⟩
  obtain ⟨session, created⟩ := created
  refine ⟨session, created, ?_⟩
  intro defined called
  have functions : defined.machine.functions = #[some ⟨⟨.font, inhibiting⟩, 3⟩] := by
    cases created
    decide +kernel
  have foreign : ∀ function, some function ∈ defined.machine.functions →
      function.program.kind ≠ .controlValue := by
    rw [functions]
    intro function listed
    obtain rfl : function = ⟨⟨.font, inhibiting⟩, 3⟩ := by simpa using listed
    decide
  refine ⟨?_, ?_, (runNoting_control defined ⟨.glyph, calling⟩ .silent).2.2 (by decide) foreign⟩
  · cases created
    decide +kernel
  · cases created
    decide +kernel

/--
A function of the font program does not inhibit glyph programs when the control
value program calls it, though the same instruction does in the control value
program itself.  And the program of a glyph changes the instruction control by a
function of the control value program.
-/
theorem hint_of_borrowed_control :
    ∃ session, create ⟨1, 0, 0, 1, 8⟩ [] 1000 100 = .ok session ∧
      session.hint inhibiting calling refusing = .error (.hinting .popFromEmpty) ∧
      session.hint #[] #[0xB1, 1, 1, 0x8E] refusing = .ok refusing ∧
      let defined := (session.run ⟨.controlValue, inhibiting⟩).session
      let called := defined.run ⟨.glyph, calling⟩
      defined.machine.graphics.instructionControl = 0 ∧ called.outcome = .ok () ∧
        called.session.machine.graphics.instructionControl = 1 := by
  have created : ∃ session, create ⟨1, 0, 0, 1, 8⟩ [] 1000 100 = .ok session := ⟨_, rfl⟩
  obtain ⟨session, created⟩ := created
  refine ⟨session, created, ?_⟩
  cases created
  decide +kernel

end Session

end OutlineFont.Hinting
