import OutlineFont.Proofs.Rounds

/-!
# What lies below the stack

Instructions find their operands from the top of the stack downward.  Work that
succeeds on a stack succeeds in the same way when more elements lie below it, as
long as there is room for them, and leaves them where they were.  Only two
instructions look at the stack as a whole: one counts its elements, and one drops
them.
-/

namespace OutlineFont.Hinting

namespace Stack

/-- A stack on top of further elements. -/
def onto (base : List Int32) (stack : Stack) : Stack :=
  ofList (stack.items ++ base)

theorem depth_onto (base : List Int32) (stack : Stack) :
    (stack.onto base).depth = stack.depth + base.length := by
  rw [stack.depth_eq]
  exact List.length_append

theorem pop_onto {stack rest : Stack} {value : Int32} (base : List Int32)
    (popped : stack.pop = .ok (value, rest)) :
    (stack.onto base).pop = .ok (value, rest.onto base) := by
  obtain ⟨items, depth, depth_eq⟩ := stack
  cases items with
  | nil => cases popped
  | cons top items =>
      cases popped
      rfl

theorem peek_onto {stack : Stack} {value : Int32} (base : List Int32)
    (peeked : stack.peek = .ok value) : (stack.onto base).peek = .ok value := by
  obtain ⟨items, depth, depth_eq⟩ := stack
  cases items with
  | nil => cases peeked
  | cons top items => exact peeked

theorem push_onto {stack after : Stack} {value : Int32} (base : List Int32)
    (pushed : stack.push value = .ok after) (room : after.depth + base.length ≤ limit) :
    (stack.onto base).push value = .ok (after.onto base) := by
  by_cases space : stack.depth < limit
  · rw [push_of_lt space] at pushed
    cases pushed
    have length := stack.depth_eq
    simp only [ofList, List.length_cons] at room
    rw [push_of_lt (by rw [depth_onto]; omega)]
    rfl
  · rw [push_of_le (Nat.not_lt.mp space)] at pushed
    cases pushed

/-- The index of the same element, counted from the top. -/
def indexOnto (base : List Int32) {stack : Stack} (index : Fin stack.items.length) :
    Fin (stack.onto base).items.length :=
  ⟨index, by rw [onto, items_ofList, List.length_append]; omega⟩

theorem getElem_indexOnto (base : List Int32) {stack : Stack} (index : Fin stack.items.length) :
    GetElem.getElem (stack.onto base).items (indexOnto base index) (indexOnto base index).isLt =
      GetElem.getElem stack.items index index.isLt :=
  List.getElem_append_left index.isLt

/-- Positions are counted from the top, so they mean the same. -/
theorem index_onto {stack : Stack} {position : Int32} {index : Fin stack.items.length}
    (base : List Int32) (found : stack.index position = .ok index) :
    (stack.onto base).index position = .ok (indexOnto base index) := by
  unfold Stack.index at found ⊢
  split at found
  · next inside =>
      cases found
      exact dif_pos ⟨inside.1, by rw [depth_onto]; omega⟩
  · cases found

/-- A change of the stack that leaves what lies below it alone. -/
def Local (change : Stack → Except FontError Stack) : Prop :=
  ∀ (base : List Int32) (stack after : Stack), change stack = .ok after →
    change (stack.onto base) = .ok (after.onto base)

theorem swap_local : Local swap := by
  rintro base ⟨items, depth, depth_eq⟩ after swapped
  match items with
  | [] => cases swapped
  | [_] => cases swapped
  | first :: second :: rest =>
      cases swapped
      rfl

theorem moveToTop_local (position : Int32) : Local fun stack => stack.moveToTop position := by
  intro base stack after moved
  dsimp only at moved ⊢
  cases found : stack.index position with
  | error failure =>
      rw [moveToTop, found] at moved
      cases moved
  | ok index =>
      rw [moveToTop_of_index found] at moved
      cases moved
      have rest : (stack.items ++ base).eraseIdx index = stack.items.eraseIdx index ++ base :=
        List.eraseIdx_append_of_lt_length index.isLt base
      rw [moveToTop_of_index (index_onto base found), getElem_indexOnto]
      exact congrArg (fun rest => Except.ok (ofList (stack.items[index] :: rest))) rest

theorem copyToTop_onto {stack after : Stack} {position : Int32} (base : List Int32)
    (copied : stack.copyToTop position = .ok after) (room : after.depth + base.length ≤ limit) :
    (stack.onto base).copyToTop position = .ok (after.onto base) := by
  cases found : stack.index position with
  | error failure =>
      rw [copyToTop, found] at copied
      cases copied
  | ok index =>
      rw [copyToTop, found] at copied
      rw [copyToTop, index_onto base found]
      change (stack.onto base).push (stack.onto base).items[indexOnto base index] = _
      rw [getElem_indexOnto]
      exact push_onto base copied room

end Stack

/-- A machine whose stack lies on top of further elements. -/
def Machine.onto (base : List Int32) (machine : Machine) : Machine :=
  { machine with stack := machine.stack.onto base }

/-- A machine whose stack leaves room for further elements. -/
def Machine.Fits (base : List Int32) (machine : Machine) : Prop :=
  machine.stack.depth + base.length ≤ Stack.limit

/-- Whether an action is about the stack as a whole. -/
def Action.isAbsolute : Action → Bool
  | .depth | .clear => true
  | _ => false

namespace Engine

variable {α β : Type} {base : List Int32} {bound : Machine → Prop}

/--
Work that, whenever it succeeds and the machine after it is within a bound, does
the same to a stack on top of further elements.
-/
def Framed (base : List Int32) (bound : Machine → Prop) (work : Engine α) : Prop :=
  ∀ (machine after : Machine) (value : α), work machine = .ok value after → bound after →
    work (machine.onto base) = .ok value (after.onto base)

/-- Every machine is within this bound. -/
def anywhere (_ : Machine) : Prop :=
  True

namespace Framed

theorem pure (value : α) : Framed base bound (pure value) := by
  intro machine after result outcome _
  cases outcome
  rfl

/-- What is done first may not need room of its own, since the rest may make it again. -/
theorem bind {work : Engine α} {next : α → Engine β} (first : Framed base anywhere work)
    (second : ∀ value, Framed base bound (next value)) : Framed base bound (work >>= next) := by
  intro machine after result outcome within
  obtain ⟨value, between, start, finish⟩ := bind_eq_ok_iff.mp outcome
  rw [bind_of_ok (first _ _ _ start trivial)]
  exact second value _ _ _ finish within

theorem map {work : Engine α} (framed : Framed base bound work) (change : α → β) :
    Framed base bound (change <$> work) := by
  intro machine after result outcome within
  rw [map_eq_pure_bind] at outcome ⊢
  obtain ⟨value, between, start, finish⟩ := bind_eq_ok_iff.mp outcome
  cases finish
  rw [bind_of_ok (framed _ _ _ start within)]
  rfl

/-- Work that looks at the machine, but not at its stack. -/
theorem get_bind {next : Machine → Engine β}
    (same : ∀ machine : Machine, next (machine.onto base) = next machine)
    (framed : ∀ machine, Framed base bound (next machine)) :
    Framed base bound (get >>= next) := by
  intro machine after result outcome within
  have rest : next machine machine = .ok result after := outcome
  change next (machine.onto base) (machine.onto base) = _
  rw [same]
  exact framed machine _ _ _ rest within

theorem accept (result : Except FontError α) : Framed base bound (accept result) := by
  intro machine after value accepted _
  cases result with
  | error failure => cases accepted
  | ok other =>
      cases accepted
      rfl

/-- Nothing comes after a failure. -/
theorem ofThrow (failure : FontError) (next : β → Engine α) :
    Framed base bound (throw failure >>= next) := by
  intro machine after value outcome _
  cases outcome

theorem ite {condition : Prop} [Decidable condition] {first second : Engine α}
    (whenTrue : Framed base bound first) (otherwise : Framed base bound second) :
    Framed base bound (if condition then first else second) := by
  split
  · exact whenTrue
  · exact otherwise

end Framed

theorem pop_framed : Framed base bound pop := by
  intro machine after value popped _
  unfold pop at popped ⊢
  cases outcome : machine.stack.pop with
  | error failure =>
      rw [outcome] at popped
      cases popped
  | ok result =>
      obtain ⟨top, rest⟩ := result
      rw [outcome] at popped
      cases popped
      rw [Machine.onto, Stack.pop_onto base outcome]
      rfl

theorem popUnsigned_framed : Framed base bound popUnsigned :=
  pop_framed.map _

theorem popTruth_framed : Framed base bound popTruth :=
  pop_framed.map _

theorem popDistance_framed : Framed base bound popDistance :=
  pop_framed.map _

theorem peek_framed : Framed base bound peek := by
  intro machine after value peeked _
  unfold peek at peeked ⊢
  cases outcome : machine.stack.peek with
  | error failure =>
      rw [outcome] at peeked
      cases peeked
  | ok top =>
      rw [outcome] at peeked
      cases peeked
      rw [Machine.onto, Stack.peek_onto base outcome]

theorem rearrange_framed {change : Stack → Except FontError Stack}
    (changes : ∀ (machine : Machine) (stack : Stack), change machine.stack = .ok stack →
      bound { machine with stack := stack } →
        change (machine.stack.onto base) = .ok (stack.onto base)) :
    Framed base bound (rearrange change) := by
  intro machine after value rearranged within
  unfold rearrange at rearranged ⊢
  cases outcome : change machine.stack with
  | error failure =>
      rw [outcome] at rearranged
      cases rearranged
  | ok stack =>
      rw [outcome] at rearranged
      cases rearranged
      rw [Machine.onto, changes machine stack outcome within]
      rfl

theorem push_framed (value : Int32) : Framed base (Machine.Fits base) (push value) :=
  rearrange_framed fun _ _ pushed room => Stack.push_onto base pushed room

theorem pushTruth_framed (value : Bool) : Framed base (Machine.Fits base) (pushTruth value) :=
  push_framed _

theorem push_depth {value : Int32} {machine after : Machine}
    (pushed : push value machine = .ok () after) :
    after.stack.depth = machine.stack.depth + 1 := by
  unfold push rearrange at pushed
  dsimp only at pushed
  by_cases space : machine.stack.depth < Stack.limit
  · rw [Stack.push_of_lt space] at pushed
    cases pushed
    rw [machine.stack.depth_eq]
    rfl
  · rw [Stack.push_of_le (Nat.not_lt.mp space)] at pushed
    cases pushed

theorem pushAll_depth_le {values : List Int32} {machine after : Machine}
    (pushed : pushAll values machine = .ok () after) :
    machine.stack.depth ≤ after.stack.depth := by
  induction values generalizing machine with
  | nil =>
      cases pushed
      exact Nat.le_refl _
  | cons value rest ih =>
      obtain ⟨_, between, start, finish⟩ := bind_eq_ok_iff.mp pushed
      have more := push_depth start
      have later := ih finish
      omega

/-- Pushing only adds, so there is room for every element when there is for the last one. -/
theorem pushAll_framed (values : List Int32) :
    Framed base (Machine.Fits base) (pushAll values) := by
  induction values with
  | nil => exact .pure ()
  | cons value rest ih =>
      intro machine after result outcome room
      obtain ⟨_, between, start, finish⟩ := bind_eq_ok_iff.mp outcome
      have fits : between.Fits base :=
        Nat.le_trans (Nat.add_le_add_right (pushAll_depth_le finish) _) room
      rw [pushAll, bind_of_ok (push_framed value _ _ _ start fits)]
      exact ih _ _ _ finish room

theorem changeGraphics_framed (change : GraphicsState → GraphicsState) :
    Framed base bound (changeGraphics change) := by
  intro machine after value changed _
  cases changed
  rfl

theorem readStorage_framed (index : Int32) : Framed base bound (readStorage index) := by
  intro machine after value outcome _
  unfold readStorage at outcome ⊢
  cases found : machine.storage[toIndex index]? with
  | none =>
      rw [found] at outcome
      cases outcome
  | some stored =>
      rw [found] at outcome
      cases outcome
      rw [Machine.onto, found]

theorem writeStorage_framed (index value : Int32) :
    Framed base bound (writeStorage index value) := by
  intro machine after result written _
  unfold writeStorage at written ⊢
  split at written
  · next inside =>
      cases written
      exact dif_pos inside
  · cases written

theorem readControl_framed (index : Int32) : Framed base bound (readControl index) := by
  intro machine after value outcome _
  unfold readControl at outcome ⊢
  cases found : machine.controls[toIndex index]? with
  | none =>
      rw [found] at outcome
      cases outcome
  | some control =>
      rw [found] at outcome
      cases outcome
      rw [Machine.onto, found]

theorem changeControl_framed (index : Int32) (change : Fixed → Fixed) :
    Framed base bound (changeControl index change) := by
  intro machine after result changed _
  unfold changeControl at changed ⊢
  split at changed
  · next inside =>
      cases changed
      exact dif_pos inside
  · cases changed

theorem lookup_framed (index : Int32) : Framed base bound (lookup index) := by
  intro machine after function outcome _
  unfold lookup at outcome ⊢
  cases found : machine.functions[toIndex index]? with
  | none =>
      rw [found] at outcome
      cases outcome
  | some slot =>
      rw [found] at outcome
      cases slot with
      | none => cases outcome
      | some bound =>
          cases outcome
          rw [Machine.onto, found]

theorem define_framed (index : Int32) (function : Function) :
    Framed base bound (define index function) := by
  intro machine after result defined _
  unfold define at defined ⊢
  split at defined
  · next inside =>
      split at defined
      · next free =>
          cases defined
          refine (dif_pos inside).trans ?_
          dsimp only [Machine.onto]
          rw [free]
      · cases defined
  · cases defined

theorem setScanControl_framed : Framed base bound setScanControl :=
  popUnsigned_framed.bind fun _ => .get_bind (fun _ => rfl) fun _ =>
    (Framed.accept _).bind fun _ => changeGraphics_framed _

theorem setInstructionControl_framed (kind : ProgramKind) :
    Framed base bound (setInstructionControl kind) :=
  pop_framed.bind fun _ => pop_framed.bind fun _ =>
    .ite (.ofThrow _ _) (.ite (changeGraphics_framed _) (.pure ()))

theorem moveToControl_framed : Framed base bound moveToControl :=
  pop_framed.bind fun index => popUnsigned_framed.bind fun _ =>
    (readControl_framed index).bind fun _ => .get_bind (fun _ => rfl) fun _ =>
      .ite (.ofThrow _ _) (changeGraphics_framed _)

theorem applyDelta_framed (bias : Nat) (pair : DeltaPair) :
    Framed base bound (applyDelta bias pair) :=
  .get_bind (fun _ => rfl) fun _ => .ite (changeControl_framed _ _) (.pure ())

theorem applyDeltas_framed (bias count : Nat) : Framed base bound (applyDeltas bias count) := by
  induction count with
  | zero => exact .pure ()
  | succ count ih =>
      exact pop_framed.bind fun index => popUnsigned_framed.bind fun packed =>
        (applyDelta_framed bias ⟨index, packed⟩).bind fun _ => ih

/-- What an instruction does to the machine it does to a machine with more below its stack. -/
theorem transform_framed (program : Program) {instruction : Instruction}
    (relative : instruction.opcode.action.isAbsolute = false) :
    Framed base (Machine.Fits base) (transform program instruction) := by
  unfold transform
  generalize instruction.opcode.action = action at relative
  cases action with
  | depth | clear => cases relative
  | setVectors | setRounding | setAutoFlip => exact changeGraphics_framed _
  | setReference | setDeltaBase => exact popUnsigned_framed.bind fun _ => changeGraphics_framed _
  | setZone | setZones =>
      exact pop_framed.bind fun _ => (Framed.accept _).bind fun _ => changeGraphics_framed _
  | setLoop => exact pop_framed.bind fun _ => .ite (.ofThrow _ _) (changeGraphics_framed _)
  | setMinimumDistance | setControlCutIn | setWidthCutIn =>
      exact popDistance_framed.bind fun _ => changeGraphics_framed _
  | setWidth =>
      exact .get_bind (fun _ => rfl) fun _ => pop_framed.bind fun _ => changeGraphics_framed _
  | setDeltaShift =>
      exact popUnsigned_framed.bind fun _ => .ite (.ofThrow _ _) (changeGraphics_framed _)
  | setScanControl => exact setScanControl_framed
  | setScanType => exact pop_framed.bind fun _ => changeGraphics_framed _
  | setInstructionControl => exact setInstructionControl_framed program.kind
  | getInformation => exact pop_framed.bind fun _ => push_framed _
  | duplicate => exact peek_framed.bind fun value => push_framed value
  | discard => exact pop_framed.bind fun _ => .pure ()
  | swap => exact rearrange_framed fun _ _ swapped _ => Stack.swap_local base _ _ swapped
  | copyIndexed =>
      exact pop_framed.bind fun _ => rearrange_framed fun _ _ copied room =>
        Stack.copyToTop_onto base copied room
  | moveIndexed =>
      exact pop_framed.bind fun position => rearrange_framed fun _ _ moved _ =>
        Stack.moveToTop_local position base _ _ moved
  | roll => exact rearrange_framed fun _ _ moved _ => Stack.moveToTop_local 3 base _ _ moved
  | push => exact pushAll_framed _
  | writeStorage =>
      exact pop_framed.bind fun value => pop_framed.bind fun index =>
        writeStorage_framed index value
  | readStorage =>
      exact pop_framed.bind fun index => (readStorage_framed index).bind fun _ => push_framed _
  | writeControl =>
      exact popDistance_framed.bind fun _ => pop_framed.bind fun index =>
        changeControl_framed index _
  | writeScaledControl =>
      exact pop_framed.bind fun _ => pop_framed.bind fun index => .get_bind (fun _ => rfl) fun _ =>
        changeControl_framed index _
  | readControl =>
      exact pop_framed.bind fun index => (readControl_framed index).bind fun _ => push_framed _
  | pixelsPerEm => exact .get_bind (fun _ => rfl) fun _ => push_framed _
  | compare => exact pop_framed.bind fun _ => pop_framed.bind fun _ => pushTruth_framed _
  | negateLogical => exact popTruth_framed.bind fun _ => pushTruth_framed _
  | parity =>
      exact popDistance_framed.bind fun _ => .get_bind (fun _ => rfl) fun _ => pushTruth_framed _
  | combine =>
      exact pop_framed.bind fun _ => pop_framed.bind fun _ => (Framed.accept _).bind fun _ =>
        push_framed _
  | mapDistance =>
      exact popDistance_framed.bind fun _ => .get_bind (fun _ => rfl) fun _ => push_framed _
  | inspect => exact peek_framed.bind fun _ => .pure ()
  | deltaControl bias =>
      exact popUnsigned_framed.bind fun count => applyDeltas_framed bias count.toNat
  | moveToControl => exact moveToControl_framed
  | unknown | ifTrue | elseBranch | endIf | jump | jumpWhen | defineFunction | defineInstruction
  | endFunction | call | loopCall | unsupported =>
      intro machine after value outcome _
      cases outcome

theorem perform_framed (program : Program) {instruction : Instruction}
    (relative : instruction.opcode.action.isAbsolute = false) :
    Framed base (Machine.Fits base) (perform program instruction) := by
  have onward : Framed base (Machine.Fits base)
      (transform program instruction >>= fun _ => pure (Flow.goto instruction.next)) := by
    rw [← map_eq_pure_bind]
    exact (transform_framed program relative).map _
  unfold perform
  generalize instruction.opcode.action = action at relative
  cases action with
  | ifTrue =>
      exact popTruth_framed.bind fun _ => .ite (.pure _) ((Framed.accept _).bind fun _ => .pure _)
  | elseBranch => exact (Framed.accept _).bind fun _ => .pure _
  | endIf => exact .pure _
  | jump => exact pop_framed.bind fun _ => (Framed.accept _).bind fun _ => .pure _
  | jumpWhen =>
      exact popTruth_framed.bind fun _ => pop_framed.bind fun _ =>
        .ite ((Framed.accept _).bind fun _ => .pure _) (.pure _)
  | defineFunction =>
      exact pop_framed.bind fun index => (define_framed index _).bind fun _ =>
        (Framed.accept _).bind fun _ => .pure _
  | endFunction => exact .pure _
  | call => exact pop_framed.bind fun index => (lookup_framed index).bind fun _ => .pure _
  | loopCall =>
      exact pop_framed.bind fun index => pop_framed.bind fun _ =>
        .ite ((lookup_framed index).bind fun _ => .pure _) (.pure _)
  | _ => exact onward

end Engine

def Session.onto (base : List Int32) (session : Session) : Session :=
  { session with machine := session.machine.onto base }

namespace Running

def onto (base : List Int32) (running : Running) : Running :=
  { running with session := running.session.onto base }

/-- The next instruction is not about the stack as a whole. -/
def Relative (running : Running) : Prop :=
  ∀ instruction, Instruction.decode running.place.program.code running.place.offset =
    .ok instruction → instruction.opcode.action.isAbsolute = false

instance (running : Running) : Decidable running.Relative :=
  match decoded : Instruction.decode running.place.program.code running.place.offset with
  | .error _ => isTrue fun _ other => nomatch decoded.symm.trans other
  | .ok instruction =>
      decidable_of_iff (instruction.opcode.action.isAbsolute = false)
        ⟨fun relative _ same => Except.ok.inj (decoded.symm.trans same) ▸ relative,
          fun relative => relative instruction decoded⟩

variable {base : List Int32}

theorem Next.onto {running next : Running} (leads : running.Next next)
    (relative : running.Relative) (room : next.session.machine.Fits base) :
    (running.onto base).Next (next.onto base) := by
  obtain ⟨instruction, flow, steps⟩ := leads.steps
  have performed := Engine.perform_framed running.place.program
    (relative instruction steps.decoded) _ _ _ steps.performed room
  have framed : (running.onto base).Steps (next.onto base) instruction flow :=
    ⟨steps.inside, steps.budget, steps.decoded, performed, steps.counted, steps.followed⟩
  exact framed.next

/-- Every round has its like, as long as there is room at every round. -/
theorem Reaches.onto {first last : Running} (reaches : first.Reaches last)
    (relative : ∀ running, first.Reaches running → running.Relative)
    (room : ∀ running, first.Reaches running → running.session.machine.Fits base) :
    (first.onto base).Reaches (last.onto base) := by
  induction reaches with
  | refl => exact .refl
  | tail before next ih => exact ih.tail (next.onto (relative _ before) (room _ (before.tail next)))

theorem Ends.onto {first : Running} {session : Session} (ends : first.Ends session (.ok ()))
    (relative : ∀ running, first.Reaches running → running.Relative)
    (room : ∀ running, first.Reaches running → running.session.machine.Fits base) :
    (first.onto base).Ends (session.onto base) (.ok ()) := by
  obtain ⟨last, reaches, finish⟩ := ends.exists_last
  obtain ⟨atEnd, finished, rfl⟩ := (halts_of_round finish).atEnd_of_ok rfl
  refine (reaches.onto relative room).ends_of_last (.stop ?_)
  rw [← finished]
  exact round_of_atEnd atEnd

end Running

namespace Session

/--
A program that succeeds on a stack, without asking for the size of the stack or
dropping it as a whole, succeeds on the same stack on top of further elements for
which there always is room.  It carries out as many instructions, leaves the
further elements below what it leaves otherwise, and changes the machine in the
same way.
-/
theorem run_onto {session : Session} {program : Program} {base : List Int32}
    (succeeds : (session.run program).outcome = .ok ())
    (relative : ∀ running, (Running.mk session (.start program)).Reaches running →
      running.Relative)
    (room : ∀ running, (Running.mk session (.start program)).Reaches running →
      running.session.machine.stack.depth + base.length ≤ Stack.limit) :
    let alone := session.run program
    let above := (session.onto base).run program
    above.outcome = .ok () ∧
    above.session.executed = alone.session.executed ∧
    above.session.machine =
      { alone.session.machine with
        stack := .ofList (alone.session.machine.stack.items ++ base) } := by
  intro alone above
  cases valid : Program.validate program.code with
  | error failure =>
      obtain ⟨empty, _⟩ | ⟨_, _, same⟩ | ⟨accepted, _, _⟩ :=
        runNoting_cases .silent session program
      · cases (Program.validate_of_isEmpty empty).symm.trans valid
      · rw [run, same] at succeeds
        cases succeeds
      · cases accepted.symm.trans valid
  | ok _ =>
      have ends := runNoting_ends valid .silent session
      rw [show (session.runNoting .silent program).outcome = .ok () from succeeds] at ends
      obtain ⟨sameSession, sameOutcome⟩ :=
        (runNoting_ends valid .silent (session.onto base)).unique (ends.onto relative room)
      have same : above.session = alone.session.onto base := sameSession
      refine ⟨sameOutcome, ?_, ?_⟩
      · rw [same]
        rfl
      · rw [same]
        rfl

/--
A function is run twice, elements are moved and copied by their positions, a control
value is adjusted, and a jump leads past an instruction that would count the elements.
-/
theorem run_onto_jumpOverDepth :
    ∃ session, create ⟨1, 0, 0, 1, 8⟩ [100] 1000 100 = .ok session ∧
      let program : Program := ⟨.glyph, #[0xB0, 0, 0x2C, 0x20, 0x60, 0x2D, 0xB4, 1, 2, 3, 2, 0,
        0x2A, 0x8A, 0xB0, 3, 0x26, 0xB0, 2, 0x25, 0xB0, 2, 0x1C, 0x24, 0xB2, 0x1F, 0, 1, 0x73]⟩
      let above := (session.onto [7, -1]).run program
      above.outcome = .ok () ∧ above.session.machine.stack.items = [1, 2, 1, 12, 7, -1] := by
  have created : ∃ session, create ⟨1, 0, 0, 1, 8⟩ [100] 1000 100 = .ok session := ⟨_, rfl⟩
  obtain ⟨session, created⟩ := created
  refine ⟨session, created, ?_⟩
  intro program
  have succeeds : (session.run program).outcome = .ok () := by
    cases created
    decide +kernel
  have relative (running : Running)
      (reaches : (Running.mk session (.start program)).Reaches running) : running.Relative := by
    refine Running.Reaches.of_throughout Running.Relative 40 ?_ reaches
    cases created
    decide +kernel
  have room (running : Running)
      (reaches : (Running.mk session (.start program)).Reaches running) :
      running.session.machine.stack.depth + [(7 : Int32), -1].length ≤ Stack.limit := by
    refine Running.Reaches.of_throughout
      (fun running => running.session.machine.stack.depth + 2 ≤ Stack.limit) 40 ?_ reaches
    cases created
    decide +kernel
  obtain ⟨outcome, _, machine⟩ := run_onto succeeds relative room
  refine ⟨outcome, ?_⟩
  rw [machine]
  cases created
  decide +kernel

end Session

end OutlineFont.Hinting
