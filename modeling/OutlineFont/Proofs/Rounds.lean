import OutlineFont.Hinting.Hint
import OutlineFont.Proofs.ControlFlow

/-!
# A run as a sequence of rounds

A run is a loop without a bound of its own: at the end of a program it is over,
above the limit of instructions it fails, and otherwise it carries out one more
instruction.  Driving a session with the instructions that are left to it comes
to what this loop comes to, so every run ends.
-/

namespace OutlineFont.Hinting

namespace Place

/-- Where the place is that follows, by what an instruction leads to. -/
inductive Follows (place : Place) : Flow → Place → Prop where
  | goto (offset : Nat) : Follows place (.goto offset) { place with offset := offset }
  | enter {function : Function} {extra resume : Nat} (space : place.frames.length < callLimit) :
      Follows place (.enter function extra resume) ⟨function.program, function.start,
        ⟨place.program, resume, function, extra⟩ :: place.frames⟩
  | back {frame : Frame} {outer : List Frame} (inside : place.frames = frame :: outer)
      (last : frame.extra = 0) : Follows place .leave ⟨frame.caller, frame.resume, outer⟩
  | again {frame : Frame} {outer : List Frame} {extra : Nat}
      (inside : place.frames = frame :: outer) (more : frame.extra = extra + 1) :
      Follows place .leave ⟨place.program, frame.function.start,
        { frame with extra := extra } :: outer⟩

/-- Why there is no place that follows. -/
inductive Loses (place : Place) : Flow → FontError → Prop where
  | deep {function : Function} {extra resume : Nat} :
      Loses place (.enter function extra resume) (.hinting (.callDepth callLimit))
  | outside (outermost : place.frames = []) :
      Loses place .leave (.hinting (.endOutsideFunction place.offset))

theorem follows_of_follow {place next : Place} {flow : Flow}
    (followed : place.follow flow = .ok next) : place.Follows flow next := by
  unfold follow at followed
  split at followed
  · cases followed
    exact .goto _
  · split at followed
    · next space =>
        cases followed
        exact .enter space
    · cases followed
  · split at followed
    · cases followed
    · next inside =>
        split at followed
        · next last =>
            cases followed
            exact .back inside last
        · next more =>
            cases followed
            exact .again inside more

theorem Follows.follow_eq {place next : Place} {flow : Flow} (follows : place.Follows flow next) :
    place.follow flow = .ok next := by
  cases follows with
  | goto => rfl
  | enter space => exact if_pos space
  | back inside last => simp only [follow, inside, last]
  | again inside more => simp only [follow, inside, more]

theorem loses_of_follow {place : Place} {flow : Flow} {failure : FontError}
    (lost : place.follow flow = .error failure) : place.Loses flow failure := by
  unfold follow at lost
  split at lost
  · cases lost
  · split at lost
    · cases lost
    · cases lost
      exact .deep
  · split at lost
    · next outermost =>
        cases lost
        exact .outside outermost
    · split at lost
      · cases lost
      · cases lost

end Place

structure Running where
  session : Session
  place : Place

inductive Round where
  | stop (session : Session) (outcome : Except FontError Unit)
  | on (running : Running)

namespace Running

/-- One round: an instruction is counted first, and carried out if the count allows it. -/
def round : Running → Round
  | ⟨⟨machine, executed⟩, place⟩ =>
      if place.atEnd then
        .stop ⟨machine, executed⟩ place.finish
      else if instructionLimit < executed + 1 then
        .stop ⟨machine, executed + 1⟩ (.error (.hinting (.instructionLimit instructionLimit)))
      else
        match Instruction.decode place.program.code place.offset with
        | .error failure => .stop ⟨machine, executed + 1⟩ (.error failure)
        | .ok instruction =>
            match Engine.perform place.program instruction machine with
            | .error failure machine => .stop ⟨machine, executed + 1⟩ (.error failure)
            | .ok flow machine =>
                match place.follow flow with
                | .error failure => .stop ⟨machine, executed + 1⟩ (.error failure)
                | .ok place => .on ⟨⟨machine, executed + 1⟩, place⟩

section

variable {machine after : Machine} {executed : Nat} {place target : Place}
  {instruction : Instruction} {flow : Flow} {failure : FontError}

theorem round_of_atEnd (atEnd : place.atEnd = true) :
    round ⟨⟨machine, executed⟩, place⟩ = .stop ⟨machine, executed⟩ place.finish := by
  rw [round, if_pos atEnd]

theorem round_of_lt (inside : ¬place.atEnd = true) (spent : instructionLimit < executed + 1) :
    round ⟨⟨machine, executed⟩, place⟩ = .stop ⟨machine, executed + 1⟩
      (.error (.hinting (.instructionLimit instructionLimit))) := by
  rw [round, if_neg inside, if_pos spent]

theorem round_of_decode_error (inside : ¬place.atEnd = true)
    (allowed : ¬instructionLimit < executed + 1)
    (missing : Instruction.decode place.program.code place.offset = .error failure) :
    round ⟨⟨machine, executed⟩, place⟩ = .stop ⟨machine, executed + 1⟩ (.error failure) := by
  rw [round, if_neg inside, if_neg allowed, missing]

theorem round_of_perform_error (inside : ¬place.atEnd = true)
    (allowed : ¬instructionLimit < executed + 1)
    (decoded : Instruction.decode place.program.code place.offset = .ok instruction)
    (performed : Engine.perform place.program instruction machine = .error failure after) :
    round ⟨⟨machine, executed⟩, place⟩ = .stop ⟨after, executed + 1⟩ (.error failure) := by
  simp only [round, if_neg inside, if_neg allowed, decoded, performed]

theorem round_of_follow_error (inside : ¬place.atEnd = true)
    (allowed : ¬instructionLimit < executed + 1)
    (decoded : Instruction.decode place.program.code place.offset = .ok instruction)
    (performed : Engine.perform place.program instruction machine = .ok flow after)
    (nowhere : place.follow flow = .error failure) :
    round ⟨⟨machine, executed⟩, place⟩ = .stop ⟨after, executed + 1⟩ (.error failure) := by
  simp only [round, if_neg inside, if_neg allowed, decoded, performed, nowhere]

theorem round_of_follow (inside : ¬place.atEnd = true)
    (allowed : ¬instructionLimit < executed + 1)
    (decoded : Instruction.decode place.program.code place.offset = .ok instruction)
    (performed : Engine.perform place.program instruction machine = .ok flow after)
    (followed : place.follow flow = .ok target) :
    round ⟨⟨machine, executed⟩, place⟩ = .on ⟨⟨after, executed + 1⟩, target⟩ := by
  simp only [round, if_neg inside, if_neg allowed, decoded, performed, followed]

end

/-- Going round until the run is over. -/
inductive Ends : Running → Session → Except FontError Unit → Prop where
  | stop {running : Running} {session : Session} {outcome : Except FontError Unit}
      (round : running.round = .stop session outcome) : Ends running session outcome
  | on {running next : Running} {session : Session} {outcome : Except FontError Unit}
      (round : running.round = .on next) (rest : Ends next session outcome) :
      Ends running session outcome

/-- A run ends in one way only. -/
theorem Ends.unique {running : Running} {first second : Session}
    {outcome other : Except FontError Unit} (ends : running.Ends first outcome)
    (again : running.Ends second other) : first = second ∧ outcome = other := by
  induction ends with
  | stop round =>
      cases again with
      | stop same =>
          cases round.symm.trans same
          exact ⟨rfl, rfl⟩
      | on same _ => cases round.symm.trans same
  | on round _ ih =>
      cases again with
      | stop same => cases round.symm.trans same
      | on same rest =>
          cases round.symm.trans same
          exact ih rest

def Next (running next : Running) : Prop :=
  running.round = .on next

def Reaches : Running → Running → Prop :=
  Relation.ReflTransGen Next

theorem Ends.exists_last {running : Running} {session : Session}
    {outcome : Except FontError Unit} (ends : running.Ends session outcome) :
    ∃ last, running.Reaches last ∧ last.round = .stop session outcome := by
  induction ends with
  | stop round => exact ⟨_, .refl, round⟩
  | on round _ ih =>
      obtain ⟨last, reaches, finish⟩ := ih
      exact ⟨last, reaches.head round, finish⟩

/-- An instruction that is carried out, and where it leads. -/
structure Steps (running next : Running) (instruction : Instruction) (flow : Flow) : Prop where
  inside : running.place.atEnd = false
  budget : running.session.executed < instructionLimit
  decoded : Instruction.decode running.place.program.code running.place.offset = .ok instruction
  performed : Engine.perform running.place.program instruction running.session.machine =
    .ok flow next.session.machine
  counted : next.session.executed = running.session.executed + 1
  followed : running.place.Follows flow next.place

theorem Next.steps {running next : Running} (leads : running.Next next) :
    ∃ instruction flow, running.Steps next instruction flow := by
  obtain ⟨⟨machine, executed⟩, place⟩ := running
  unfold Next round at leads
  dsimp only at leads
  split at leads
  · cases leads
  · next inside =>
      split at leads
      · cases leads
      · next budget =>
          split at leads
          · cases leads
          · next instruction decoded =>
              split at leads
              · cases leads
              · next flow after performed =>
                  split at leads
                  · cases leads
                  · next target followed =>
                      cases leads
                      exact ⟨instruction, flow, by simpa using inside,
                        Nat.lt_of_succ_le (Nat.not_lt.mp budget), decoded, performed, rfl,
                        Place.follows_of_follow followed⟩

theorem Steps.next {running next : Running} {instruction : Instruction} {flow : Flow}
    (steps : running.Steps next instruction flow) : running.Next next := by
  obtain ⟨⟨after, counter⟩, target⟩ := next
  obtain ⟨inside, budget, decoded, performed, counted, followed⟩ := steps
  cases counted
  exact round_of_follow (by simp [inside]) (Nat.not_lt.mpr budget) decoded performed
    followed.follow_eq

/-- The ways in which a run is over. -/
inductive Halts (running : Running) : Session → Except FontError Unit → Prop where
  | finished (atEnd : running.place.atEnd = true) :
      Halts running running.session running.place.finish
  | exhausted (inside : running.place.atEnd = false)
      (budget : instructionLimit ≤ running.session.executed) :
      Halts running ⟨running.session.machine, running.session.executed + 1⟩
        (.error (.hinting (.instructionLimit instructionLimit)))
  | undecoded {failure : FontError} (inside : running.place.atEnd = false)
      (budget : running.session.executed < instructionLimit)
      (missing : Instruction.decode running.place.program.code running.place.offset =
        .error failure) :
      Halts running ⟨running.session.machine, running.session.executed + 1⟩ (.error failure)
  | failed {instruction : Instruction} {failure : FontError} {after : Machine}
      (budget : running.session.executed < instructionLimit)
      (decoded : Instruction.decode running.place.program.code running.place.offset =
        .ok instruction)
      (performed : Engine.perform running.place.program instruction running.session.machine =
        .error failure after) :
      Halts running ⟨after, running.session.executed + 1⟩ (.error failure)
  | lost {instruction : Instruction} {flow : Flow} {failure : FontError} {after : Machine}
      (budget : running.session.executed < instructionLimit)
      (decoded : Instruction.decode running.place.program.code running.place.offset =
        .ok instruction)
      (performed : Engine.perform running.place.program instruction running.session.machine =
        .ok flow after)
      (nowhere : running.place.Loses flow failure) :
      Halts running ⟨after, running.session.executed + 1⟩ (.error failure)

theorem halts_of_round {running : Running} {session : Session} {outcome : Except FontError Unit}
    (stops : running.round = .stop session outcome) : running.Halts session outcome := by
  obtain ⟨⟨machine, executed⟩, place⟩ := running
  unfold round at stops
  dsimp only at stops
  split at stops
  · next atEnd =>
      cases stops
      exact .finished atEnd
  · next inside =>
      have inside : place.atEnd = false := by simpa using inside
      split at stops
      · next budget =>
          cases stops
          exact .exhausted inside (Nat.le_of_lt_succ budget)
      · next budget =>
          have budget : executed < instructionLimit := Nat.lt_of_succ_le (Nat.not_lt.mp budget)
          split at stops
          · next failure missing =>
              cases stops
              exact .undecoded inside budget missing
          · next instruction decoded =>
              split at stops
              · next failure after performed =>
                  cases stops
                  exact .failed budget decoded performed
              · next flow after performed =>
                  split at stops
                  · next failure nowhere =>
                      cases stops
                      exact .lost budget decoded performed (Place.loses_of_follow nowhere)
                  · cases stops

/-- A run that succeeds is over at the end of its program. -/
theorem Halts.atEnd_of_ok {running : Running} {session : Session}
    {outcome : Except FontError Unit} (halts : running.Halts session outcome)
    (success : outcome = .ok ()) :
    running.place.atEnd = true ∧ running.place.finish = .ok () ∧ session = running.session := by
  cases halts with
  | finished atEnd => exact ⟨atEnd, success, rfl⟩
  | exhausted | undecoded | failed | lost => cases success

/-- A run that succeeds goes on before the end of its program. -/
theorem Ends.next_of_ok {running : Running} {session : Session}
    (ends : running.Ends session (.ok ())) (inside : ¬running.place.atEnd = true) :
    ∃ next instruction flow, running.Steps next instruction flow ∧ next.Ends session (.ok ()) := by
  cases ends with
  | stop round => exact absurd ((halts_of_round round).atEnd_of_ok rfl).1 inside
  | on round rest =>
      obtain ⟨instruction, flow, steps⟩ := Next.steps round
      exact ⟨_, instruction, flow, steps, rest⟩

end Running

/-- A property of machines that no instruction breaks, whether it succeeds or fails. -/
structure Machine.Kept (property : Machine → Prop) : Prop where
  leads : ∀ {program : Program} {offset : Nat} {instruction : Instruction}
    {before after : Machine} {flow : Flow},
    Instruction.decode program.code offset = .ok instruction →
      Leads program instruction before after flow → property before → property after
  fails : ∀ {program : Program} {offset : Nat} {instruction : Instruction}
    {before after : Machine} {failure : FontError},
    Instruction.decode program.code offset = .ok instruction →
      Fails program instruction before after failure → property before → property after

theorem Machine.kept_evolves (origin : Machine) : Machine.Kept origin.Evolves where
  leads _ leads before := before.trans leads.evolves
  fails _ fails before := before.trans fails.evolves

namespace Running

variable {property : Machine → Prop}

theorem Reaches.keeps {first last : Running} (reaches : first.Reaches last)
    (kept : Machine.Kept property) (holds : property first.session.machine) :
    property last.session.machine := by
  induction reaches with
  | refl => exact holds
  | tail _ next ih =>
      obtain ⟨_, _, steps⟩ := Next.steps next
      exact kept.leads steps.decoded (Engine.leads_of_perform steps.performed) ih

theorem Halts.keeps {running : Running} {session : Session} {outcome : Except FontError Unit}
    (halts : running.Halts session outcome) (kept : Machine.Kept property)
    (holds : property running.session.machine) : property session.machine := by
  cases halts with
  | finished | exhausted | undecoded => exact holds
  | failed _ decoded performed =>
      exact kept.fails decoded (Engine.fails_of_perform performed) holds
  | lost _ decoded performed _ =>
      exact kept.leads decoded (Engine.leads_of_perform performed) holds

theorem Ends.keeps {running : Running} {session : Session} {outcome : Except FontError Unit}
    (ends : running.Ends session outcome) (kept : Machine.Kept property)
    (holds : property running.session.machine) : property session.machine := by
  obtain ⟨last, reaches, finish⟩ := ends.exists_last
  exact (halts_of_round finish).keeps kept (reaches.keeps kept holds)

theorem Reaches.evolves {first last : Running} (reaches : first.Reaches last) :
    first.session.machine.Evolves last.session.machine :=
  reaches.keeps (Machine.kept_evolves _) (.refl _)

theorem Ends.evolves {running : Running} {session : Session} {outcome : Except FontError Unit}
    (ends : running.Ends session outcome) : running.session.machine.Evolves session.machine :=
  ends.keeps (Machine.kept_evolves _) (.refl _)

/-- A run that ends as it does ends so from every round that it reaches. -/
theorem Reaches.ends {first last : Running} {session : Session} {outcome : Except FontError Unit}
    (reaches : first.Reaches last) (ends : first.Ends session outcome) :
    last.Ends session outcome := by
  induction reaches with
  | refl => exact ends
  | tail _ next ih =>
      cases ih with
      | stop round => cases round.symm.trans next
      | on round rest =>
          cases round.symm.trans next
          exact rest

/-- A run ends as it does from any round that it reaches. -/
theorem Reaches.ends_of_last {first last : Running} {session : Session}
    {outcome : Except FontError Unit} (reaches : first.Reaches last)
    (ends : last.Ends session outcome) : first.Ends session outcome := by
  induction reaches using Relation.ReflTransGen.head_induction_on with
  | refl => exact ends
  | head next _ ih => exact .on next ih

/-- Whether a property holds at every round of a run that is over within `fuel` rounds. -/
def throughout (property : Running → Prop) [DecidablePred property] :
    (fuel : Nat) → Running → Bool
  | 0, _ => false
  | fuel + 1, running =>
      property running &&
        match running.round with
        | .stop _ _ => true
        | .on next => throughout property fuel next

theorem Reaches.of_throughout (property : Running → Prop) [DecidablePred property] (fuel : Nat)
    {first last : Running} (through : throughout property fuel first = true)
    (reaches : first.Reaches last) : property last := by
  induction reaches using Relation.ReflTransGen.head_induction_on generalizing fuel with
  | refl =>
      cases fuel with
      | zero => cases through
      | succ fuel =>
          rw [throughout, Bool.and_eq_true] at through
          exact of_decide_eq_true through.1
  | head next _ ih =>
      cases fuel with
      | zero => cases through
      | succ fuel =>
          unfold Next at next
          rw [throughout, Bool.and_eq_true, next] at through
          exact ih fuel through.2

/-- The run of an empty program is over at once. -/
theorem ends_of_isEmpty {session : Session} {program : Program}
    (empty : program.code.isEmpty = true) :
    (Running.mk session (.start program)).Ends session (.ok ()) := by
  apply Ends.stop
  have atEnd : (Place.start program).atEnd = true := by
    have none := Array.isEmpty_iff_size_eq_zero.mp empty
    unfold Place.start Place.atEnd
    dsimp only
    rw [none]
    rfl
  exact round_of_atEnd atEnd

end Running

namespace Session

/-- A session that is driven with what is left to it ends as the loop without a bound does. -/
theorem drive_ends (journal : Journal Notice) (session : Session) (place : Place) :
    (Running.mk session place).Ends
      (drive journal session place (instructionLimit - session.executed)).session
      (drive journal session place (instructionLimit - session.executed)).outcome := by
  generalize left : instructionLimit - session.executed = budget
  induction budget generalizing journal session place with
  | zero =>
      obtain ⟨machine, executed⟩ := session
      have spent : instructionLimit < executed + 1 := by
        dsimp only at left
        omega
      unfold drive
      split
      · next atEnd => exact .stop (Running.round_of_atEnd atEnd)
      · next inside => exact .stop (Running.round_of_lt inside spent)
  | succ budget ih =>
      obtain ⟨machine, executed⟩ := session
      dsimp only at left
      have allowed : ¬instructionLimit < executed + 1 := by omega
      unfold drive
      dsimp only
      split
      · next atEnd => exact .stop (Running.round_of_atEnd atEnd)
      · next inside =>
          split
          · next failure missing =>
              exact .stop (Running.round_of_decode_error inside allowed missing)
          · next instruction decoded =>
              split
              · next failure after performed =>
                  exact .stop (Running.round_of_perform_error inside allowed decoded performed)
              · next flow after performed =>
                  split
                  · next failure nowhere =>
                      exact .stop
                        (Running.round_of_follow_error inside allowed decoded performed nowhere)
                  · next target followed =>
                      have less : instructionLimit - (executed + 1) = budget := by omega
                      exact .on (Running.round_of_follow inside allowed decoded performed followed)
                        (ih _ ⟨after, executed + 1⟩ target less)

/-- The three ways of a run: nothing to do, a refusal, and the loop. -/
theorem runNoting_cases (journal : Journal Notice) (session : Session) (program : Program) :
    (program.code.isEmpty = true ∧
      session.runNoting journal program = ⟨session, journal, .ok ()⟩) ∨
    (∃ failure, Program.validate program.code = .error failure ∧
      session.runNoting journal program = ⟨session, journal, .error failure⟩) ∨
    (Program.validate program.code = .ok () ∧ program.code.isEmpty = false ∧
      (Running.mk session (.start program)).Ends (session.runNoting journal program).session
        (session.runNoting journal program).outcome) := by
  unfold runNoting
  split
  · next empty => exact .inl ⟨empty, rfl⟩
  · next filled =>
      split
      · next failure invalid => exact .inr (.inl ⟨failure, invalid, rfl⟩)
      · next valid =>
          exact .inr (.inr ⟨valid, by simpa using filled, drive_ends _ session (.start program)⟩)

/-- A program that is not refused ends as the loop does, also if it is empty. -/
theorem runNoting_ends {program : Program} (valid : Program.validate program.code = .ok ())
    (journal : Journal Notice) (session : Session) :
    (Running.mk session (.start program)).Ends (session.runNoting journal program).session
      (session.runNoting journal program).outcome := by
  obtain ⟨empty, same⟩ | ⟨failure, invalid, _⟩ | ⟨_, _, ends⟩ :=
    runNoting_cases journal session program
  · rw [same]
    exact Running.ends_of_isEmpty empty
  · cases valid.symm.trans invalid
  · exact ends

/-- A program that succeeds is not refused, so that it ends as the loop does. -/
theorem run_ends_of_ok {session : Session} {program : Program}
    (succeeds : (session.run program).outcome = .ok ()) :
    (Running.mk session (.start program)).Ends (session.run program).session (.ok ()) := by
  unfold run at succeeds ⊢
  rw [← succeeds]
  cases valid : Program.validate program.code with
  | ok _ => exact runNoting_ends valid .silent session
  | error failure =>
      obtain ⟨empty, _⟩ | ⟨_, _, same⟩ | ⟨accepted, _, _⟩ :=
        runNoting_cases .silent session program
      · cases (Program.validate_of_isEmpty empty).symm.trans valid
      · rw [same] at succeeds
        cases succeeds
      · cases accepted.symm.trans valid

theorem runNoting_keeps {property : Machine → Prop} (kept : Machine.Kept property)
    (journal : Journal Notice) {session : Session} (program : Program)
    (holds : property session.machine) :
    property (session.runNoting journal program).session.machine := by
  rcases runNoting_cases journal session program with ⟨_, same⟩ | ⟨_, _, same⟩ | ⟨_, _, ends⟩
  · rw [same]
    exact holds
  · rw [same]
    exact holds
  · exact ends.keeps kept holds

theorem runNoting_evolves (journal : Journal Notice) (session : Session) (program : Program) :
    session.machine.Evolves (session.runNoting journal program).session.machine :=
  runNoting_keeps (Machine.kept_evolves _) journal program (.refl _)

/-- The sessions that come of a new one by loading glyphs and by running programs of some kind. -/
inductive Reachable (allowed : Program → Prop) : Session → Prop where
  | created {profile : MaximumProfile} {controlValues : List Int16} {unitsPerEm : UInt16}
      {gridSize : Nat} {session : Session}
      (created : create profile controlValues unitsPerEm gridSize = .ok session) :
      Reachable allowed session
  | loaded {session : Session} (before : Reachable allowed session) (glyph : Glyph) :
      Reachable allowed (session.load glyph)
  | ran {session : Session} (before : Reachable allowed session) {program : Program}
      (kind : allowed program) : Reachable allowed (session.run program).session

theorem initial_settled : GraphicsState.initial.Settled :=
  ⟨by decide, by decide, by decide, ⟨.x, rfl⟩, ⟨.x, rfl⟩⟩

/-- A new machine has an empty stack, initial settings, and no function. -/
theorem create_machine {profile : MaximumProfile} {controlValues : List Int16}
    {unitsPerEm : UInt16} {gridSize : Nat} {session : Session}
    (created : create profile controlValues unitsPerEm gridSize = .ok session) :
    session.machine.Settled ∧ session.executed = 0 ∧
      ∀ function, some function ∉ session.machine.functions := by
  unfold create Machine.create at created
  split at created
  · cases created
  · cases created
    refine ⟨⟨Nat.zero_le _, initial_settled⟩, rfl, ?_⟩
    intro function bound
    obtain ⟨_, impossible⟩ := Array.mem_replicate.mp bound
    cases impossible

theorem Reachable.settled {allowed : Program → Prop} {session : Session}
    (reachable : Reachable allowed session) : session.machine.Settled := by
  induction reachable with
  | created created => exact (create_machine created).1
  | loaded _ glyph ih => exact ⟨ih.depth, ih.graphics⟩
  | ran _ _ ih => exact (runNoting_evolves _ _ _).settled ih

end Session

end OutlineFont.Hinting
