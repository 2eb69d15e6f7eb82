import OutlineFont.Proofs.Rounds

/-!
# The bounds of a run

A run may jump back, call itself and ask for any number of repetitions and of
exceptions.  Three bounds end it all the same: the count of instructions, which
every round raises, the number of calls in progress, and the stack, of which
every exception takes two elements.
-/

namespace OutlineFont.Hinting

namespace Engine

def examinePair (bias : Nat) : Engine Unit := do
  let index ← pop
  let packed ← popUnsigned
  applyDelta bias ⟨index, packed⟩

/-- The number of pairs that are examined, with the one that fails. -/
def pairsExamined (bias : Nat) : (count : Nat) → Machine → Nat
  | 0, _ => 0
  | count + 1, machine =>
      match examinePair bias machine with
      | .ok _ after => pairsExamined bias count after + 1
      | .error _ _ => 1

theorem applyDeltas_succ (bias count : Nat) :
    applyDeltas bias (count + 1) = examinePair bias >>= fun _ => applyDeltas bias count := by
  rw [applyDeltas, examinePair]
  simp only [bind_assoc]

theorem pop_depth {machine after : Machine} {value : Int32}
    (popped : pop machine = .ok value after) :
    after.stack.depth + 1 = machine.stack.depth := by
  unfold pop at popped
  obtain ⟨⟨items, depth, depth_eq⟩, _⟩ := machine
  cases items with
  | nil => cases popped
  | cons top rest =>
      cases popped
      simp only [List.length_cons] at depth_eq
      dsimp only
      omega

theorem popUnsigned_depth {machine after : Machine} {value : UInt32}
    (popped : popUnsigned machine = .ok value after) :
    after.stack.depth + 1 = machine.stack.depth := by
  have asBind : popUnsigned = pop >>= fun value => pure value.toUInt32 := by
    rw [popUnsigned, map_eq_pure_bind]
  rw [asBind] at popped
  obtain ⟨top, between, pops, finish⟩ := bind_eq_ok_iff.mp popped
  cases finish
  exact pop_depth pops

theorem applyDelta_stack {bias : Nat} {pair : DeltaPair} {machine after : Machine} {value : Unit}
    (applied : applyDelta bias pair machine = .ok value after) : after.stack = machine.stack := by
  obtain ⟨same, between, got, rest⟩ := bind_eq_ok_iff.mp applied
  cases got
  by_cases meets : machine.meets bias pair = true
  · rw [if_pos meets] at rest
    unfold changeControl at rest
    split at rest
    · cases rest
      rfl
    · cases rest
  · rw [if_neg meets] at rest
    cases rest
    rfl

/-- Every pair that is examined without a failure has taken two elements. -/
theorem examinePair_depth {bias : Nat} {machine after : Machine} {value : Unit}
    (examined : examinePair bias machine = .ok value after) :
    after.stack.depth + 2 = machine.stack.depth := by
  obtain ⟨index, first, popsIndex, rest⟩ := bind_eq_ok_iff.mp examined
  obtain ⟨packed, second, popsPacked, applied⟩ := bind_eq_ok_iff.mp rest
  have one := pop_depth popsIndex
  have two := popUnsigned_depth popsPacked
  rw [applyDelta_stack applied]
  omega

theorem pairsExamined_le (bias count : Nat) (machine : Machine) :
    pairsExamined bias count machine ≤ machine.stack.depth / 2 + 1 := by
  induction count generalizing machine with
  | zero => exact Nat.zero_le _
  | succ count ih =>
      cases examined : examinePair bias machine with
      | ok value after =>
          have fewer := examinePair_depth examined
          have rest := ih after
          simp only [pairsExamined, examined]
          omega
      | error failure after =>
          simp only [pairsExamined, examined]
          omega

/-- No pair behind those that are examined has an effect. -/
theorem applyDeltas_pairsExamined (bias count : Nat) (machine : Machine) :
    applyDeltas bias (pairsExamined bias count machine) machine =
      applyDeltas bias count machine := by
  induction count generalizing machine with
  | zero => rfl
  | succ count ih =>
      cases examined : examinePair bias machine with
      | ok value after =>
          simp only [pairsExamined, examined]
          rw [applyDeltas_succ, applyDeltas_succ, bind_of_ok examined, bind_of_ok examined]
          exact ih after
      | error failure after =>
          simp only [pairsExamined, examined]
          rw [applyDeltas_succ, applyDeltas_succ, bind_of_error examined,
            bind_of_error examined]

/-- A delta instruction is over after the pairs that are examined. -/
theorem transform_deltaControl {program : Program} {instruction : Instruction} {bias : Nat}
    (action : instruction.opcode.action = .deltaControl bias) {machine popped : Machine}
    {count : UInt32} (pops : popUnsigned machine = .ok count popped) :
    transform program instruction machine =
      applyDeltas bias (pairsExamined bias count.toNat popped) popped := by
  rw [applyDeltas_pairsExamined]
  unfold transform
  rw [action]
  exact bind_of_ok pops

end Engine

/-- What is in progress when one time of the innermost call is over. -/
inductive Frame.Returned (frame : Frame) (outer : List Frame) : List Frame → Prop where
  | back : Returned frame outer outer
  | again {extra : Nat} (fewer : extra < frame.extra) :
      Returned frame outer ({ frame with extra := extra } :: outer)

theorem Place.Follows.length_le {place next : Place} {flow : Flow}
    (follows : place.Follows flow next) (bounded : place.frames.length ≤ callLimit) :
    next.frames.length ≤ callLimit := by
  cases follows with
  | goto => exact bounded
  | enter space => exact space
  | back inside _ =>
      rw [inside] at bounded
      exact Nat.le_of_succ_le bounded
  | again inside _ =>
      rw [inside] at bounded
      exact bounded

/-- Unless an instruction leaves a function, the calls in progress stay in progress. -/
theorem Place.Follows.suffix {place next : Place} {flow : Flow}
    (follows : place.Follows flow next) (stays : flow ≠ .leave) :
    place.frames <:+ next.frames := by
  cases follows with
  | goto => exact List.suffix_refl _
  | enter => exact List.suffix_cons _ _
  | back | again => exact absurd rfl stays

namespace Running

/-- Every round counts, and none is begun above the limit. -/
theorem Reaches.executed {first last : Running} (reaches : first.Reaches last) :
    first = last ∨ first.session.executed < last.session.executed ∧
      last.session.executed ≤ instructionLimit := by
  induction reaches with
  | refl => exact .inl rfl
  | @tail between last before next ih =>
      obtain ⟨_, _, steps⟩ := Next.steps next
      have counted := steps.counted
      have budget := steps.budget
      right
      rcases ih with rfl | ⟨more, _⟩
      · omega
      · omega

theorem Reaches.length_frames_le {first last : Running} (reaches : first.Reaches last)
    (bounded : first.place.frames.length ≤ callLimit) :
    last.place.frames.length ≤ callLimit := by
  induction reaches with
  | refl => exact bounded
  | tail _ next ih =>
      obtain ⟨_, _, steps⟩ := Next.steps next
      exact steps.followed.length_le ih

/-- An instruction that ends a function is carried out on the way. -/
def Leaves (first last : Running) : Prop :=
  ∃ between instruction, first.Reaches between ∧
    Instruction.decode between.place.program.code between.place.offset = .ok instruction ∧
    instruction.opcode.action = .endFunction ∧
    between.session.executed < last.session.executed

/-- As long as no function is left, the calls in progress at first stay in progress. -/
theorem Reaches.leaves_or_suffix {first last : Running} (reaches : first.Reaches last) :
    first.Leaves last ∨ first.place.frames <:+ last.place.frames := by
  induction reaches with
  | refl => exact .inr (List.suffix_refl _)
  | @tail between last before next ih =>
      obtain ⟨instruction, flow, steps⟩ := Next.steps next
      have counted := steps.counted
      rcases ih with ⟨middle, earlier, reached, decoded, action, more⟩ | suffix
      · exact .inl ⟨middle, earlier, reached, decoded, action, by omega⟩
      · have leads := Engine.leads_of_perform steps.performed
        cases leads with
        | leave action _ =>
            exact .inl ⟨between, instruction, before, steps.decoded, action, by omega⟩
        | onward | skip | jump | define | enter =>
            exact .inr (suffix.trans (steps.followed.suffix nofun))

/-- One time of a call is over only by the instruction that ends its function. -/
theorem Reaches.leaves_of_returned {first last : Running} (reaches : first.Reaches last)
    {frame : Frame} {outer : List Frame} (inside : first.place.frames = frame :: outer)
    (returned : frame.Returned outer last.place.frames) : first.Leaves last := by
  rcases reaches.leaves_or_suffix with leaves | suffix
  · exact leaves
  · rw [inside] at suffix
    generalize frames : last.place.frames = remaining at returned suffix
    cases returned with
    | back => exact absurd suffix.length_le (Nat.not_succ_le_self _)
    | again fewer =>
        have same := suffix.eq_of_length rfl
        have unchanged := congrArg Frame.extra (List.cons.inj same).1
        exact absurd unchanged (Nat.ne_of_gt fewer)

/-- The bounds that hold at every round of a run. -/
structure Bounded (running : Running) : Prop where
  calls : running.place.frames.length ≤ callLimit
  times : ∀ (frame : Frame) (outer : List Frame) (last : Running),
    running.place.frames = frame :: outer → running.Reaches last →
      frame.Returned outer last.place.frames → running.Leaves last
  pairs : ∀ (instruction : Instruction) (bias : Nat) (count : UInt32) (popped : Machine),
    instruction.opcode.action = .deltaControl bias →
      Engine.popUnsigned running.session.machine = .ok count popped →
        Engine.pairsExamined bias count.toNat popped ≤ 32768 ∧
          Engine.transform running.place.program instruction running.session.machine =
            Engine.applyDeltas bias (Engine.pairsExamined bias count.toNat popped) popped

theorem Reaches.bounded {first last : Running} (reaches : first.Reaches last)
    (calls : first.place.frames.length ≤ callLimit)
    (settled : first.session.machine.Settled) : last.Bounded where
  calls := reaches.length_frames_le calls
  times frame outer later inside onward returned := onward.leaves_of_returned inside returned
  pairs instruction bias count popped action pops := by
    refine ⟨?_, Engine.transform_deltaControl action pops⟩
    have depth := (reaches.evolves.settled settled).depth
    have taken := Engine.popUnsigned_depth pops
    have examined := Engine.pairsExamined_le bias count.toNat popped
    unfold Stack.limit at depth
    omega

/-- A run is over at the limit of instructions if and only if its last round passes it. -/
theorem Halts.limit_iff {running : Running} {session : Session} {outcome : Except FontError Unit}
    (halts : running.Halts session outcome) :
    outcome = .error (.hinting (.instructionLimit instructionLimit)) ↔
      running.session.executed < session.executed ∧ instructionLimit < session.executed := by
  -- Within the limit, a failure that is not the limit itself is counted below it.
  have otherwise {failure : FontError} (budget : running.session.executed < instructionLimit)
      (different : failure ≠ .hinting (.instructionLimit instructionLimit)) :
      (Except.error failure : Except FontError Unit) =
          .error (.hinting (.instructionLimit instructionLimit)) ↔
        running.session.executed < running.session.executed + 1 ∧
          instructionLimit < running.session.executed + 1 := by
    constructor
    · intro same
      exact absurd (Except.error.inj same) different
    · rintro ⟨_, above⟩
      exact absurd budget (Nat.not_lt.mpr (Nat.le_of_lt_succ above))
  cases halts with
  | finished atEnd =>
      constructor
      · intro same
        unfold Place.finish at same
        split at same
        · cases same
        · cases same
      · rintro ⟨more, _⟩
        exact absurd more (Nat.lt_irrefl _)
  | exhausted inside budget =>
      constructor
      · exact fun _ => ⟨Nat.lt_succ_self _, Nat.lt_succ_of_le budget⟩
      · exact fun _ => rfl
  | undecoded inside budget missing =>
      exact otherwise budget (FontError.ne_limit_of_layout (Instruction.decode_error missing))
  | failed budget decoded performed =>
      apply otherwise budget
      cases Engine.fails_of_perform performed with
      | operands concerns _ => exact FontError.ne_limit_of_operands concerns
      | skip _ _ missing _ => exact FontError.ne_limit_of_layout (Program.blockEnd_error missing)
      | define _ missing _ _ =>
          exact FontError.ne_limit_of_layout (Program.functionEnd_error missing)
  | lost budget decoded performed nowhere =>
      apply otherwise budget
      rintro rfl
      cases nowhere

/-- The last round counts at most one instruction. -/
theorem Halts.executed {running : Running} {session : Session} {outcome : Except FontError Unit}
    (halts : running.Halts session outcome) :
    running.session.executed ≤ session.executed ∧
      session.executed ≤ running.session.executed + 1 := by
  cases halts with
  | finished => exact ⟨Nat.le_refl _, Nat.le_succ _⟩
  | exhausted | undecoded | failed | lost => exact ⟨Nat.le_succ _, Nat.le_refl _⟩

/-- The count of a run that is over, and when the count is the reason. -/
theorem Ends.executed {running : Running} {session : Session} {outcome : Except FontError Unit}
    (ends : running.Ends session outcome) :
    running.session.executed ≤ session.executed ∧
      session.executed ≤ max running.session.executed instructionLimit + 1 ∧
      (outcome = .error (.hinting (.instructionLimit instructionLimit)) ↔
        running.session.executed < session.executed ∧ instructionLimit < session.executed) := by
  obtain ⟨last, reaches, finish⟩ := ends.exists_last
  have halts := halts_of_round finish
  have limit := halts.limit_iff
  obtain ⟨least, greatest⟩ := halts.executed
  rcases reaches.executed with rfl | ⟨more, bounded⟩
  · exact ⟨least, by omega, limit⟩
  · refine ⟨by omega, by omega, limit.trans ?_⟩
    constructor
    · rintro ⟨_, above⟩
      exact ⟨by omega, above⟩
    · rintro ⟨_, above⟩
      exact ⟨by omega, above⟩

end Running

namespace Session

/--
Every run ends within its bounds.  A program that is not refused comes to what
the loop without a bound comes to.
-/
theorem runNoting_bounded {session : Session} (reachable : session.Reachable fun _ => True)
    (journal : Journal Notice) (program : Program) :
    let start := Running.mk session (.start program)
    let result := session.runNoting journal program
    ((∃ failure, Program.validate program.code = .error failure ∧
        result = ⟨session, journal, .error failure⟩) ∨
      start.Ends result.session result.outcome) ∧
    session.executed ≤ result.session.executed ∧
    result.session.executed ≤ max session.executed instructionLimit + 1 ∧
    (result.outcome = .error (.hinting (.instructionLimit instructionLimit)) ↔
      session.executed < result.session.executed ∧
        instructionLimit < result.session.executed) ∧
    ∀ running, start.Reaches running → running.Bounded := by
  intro start result
  have bounded (running : Running) (reaches : start.Reaches running) : running.Bounded :=
    reaches.bounded (Nat.zero_le _) reachable.settled
  obtain ⟨empty, same⟩ | ⟨failure, invalid, same⟩ | ⟨_, _, ends⟩ :=
    runNoting_cases journal session program
  · have ends : start.Ends result.session result.outcome := by
      rw [show result = ⟨session, journal, .ok ()⟩ from same]
      exact Running.ends_of_isEmpty empty
    obtain ⟨least, greatest, limit⟩ := ends.executed
    exact ⟨.inr ends, least, greatest, limit, bounded⟩
  · rw [show result = ⟨session, journal, .error failure⟩ from same]
    refine ⟨.inl ⟨failure, invalid, rfl⟩, Nat.le_refl _, by dsimp only; omega, ?_, bounded⟩
    constructor
    · intro limit
      exact absurd (Except.error.inj limit)
        (FontError.ne_limit_of_layout (Program.validate_error invalid))
    · rintro ⟨more, _⟩
      exact absurd more (Nat.lt_irrefl _)
  · obtain ⟨least, greatest, limit⟩ := ends.executed
    exact ⟨.inr ends, least, greatest, limit, bounded⟩

/-- A function that calls itself is run on a new machine. -/
theorem runNoting_bounded_selfCall :
    ∃ session, create ⟨1, 0, 0, 1, 8⟩ [] 1000 20 = .ok session ∧
      let result := session.runNoting .silent
        ⟨.glyph, #[0xB0, 0, 0x2C, 0xB0, 0, 0x2B, 0x2D, 0xB0, 0, 0x2B]⟩
      0 ≤ result.session.executed ∧ result.session.executed ≤ max 0 instructionLimit + 1 := by
  have created : ∃ session, create ⟨1, 0, 0, 1, 8⟩ [] 1000 20 = .ok session := ⟨_, rfl⟩
  obtain ⟨session, created⟩ := created
  obtain ⟨_, least, greatest, _, _⟩ := runNoting_bounded (.created created) .silent
    ⟨.glyph, #[0xB0, 0, 0x2C, 0xB0, 0, 0x2B, 0x2D, 0xB0, 0, 0x2B]⟩
  rw [(create_machine created).2.1] at least greatest
  exact ⟨session, created, least, greatest⟩

end Session

end OutlineFont.Hinting
