import OutlineFont.Proofs.Rounds

/-!
# Programs without jumps

Validation has looked at a program once, from its start to its end.  Without
jumps a run stays where validation was: every place at which it goes on, in the
program that runs, behind a call in progress or at the start of a function, is
one from which the rest of the program can be read and closes what is open
there.  So no fault in the layout of a program comes up while it runs, also in
functions that earlier programs have defined.
-/

namespace OutlineFont.Hinting

/-- A program in whose instructions, read from its start, there is no jump. -/
def Program.JumpFree (program : Program) : Prop :=
  ∀ instruction, .ok instruction ∈ Program.instructionsFrom program.code 0 →
    instruction.opcode.action.isJump = false

/-- What is said of the instructions that could be read can be checked for all items. -/
theorem Program.forall_ok_mem_iff {items : List (Except FontError Instruction)}
    {property : Instruction → Bool} :
    (∀ instruction, .ok instruction ∈ items → property instruction = true) ↔
      ∀ item ∈ items, item.toOption.all property = true := by
  constructor
  · intro each item listed
    cases item with
    | error failure => rfl
    | ok instruction => exact each instruction listed
  · intro each instruction listed
    exact each _ listed

/-- An instruction that could not be read is no jump. -/
theorem Program.jumpFree_iff {program : Program} :
    program.JumpFree ↔ ∀ item ∈ Program.instructionsFrom program.code 0,
      (item.toOption.all fun instruction => !instruction.opcode.action.isJump) = true := by
  rw [← Program.forall_ok_mem_iff]
  simp only [Bool.not_eq_true']
  exact Iff.rfl

instance (program : Program) : Decidable program.JumpFree :=
  decidable_of_iff _ Program.jumpFree_iff.symm

instance (code : Bytes) : Decidable (Program.validate code = .ok ()) :=
  match Program.validate code with
  | .ok () => isTrue rfl
  | .error _ => isFalse nofun

/--
A place from which a program can be read to its end, where the given brackets
are open and closed by what is read, and behind which all actions are allowed.
-/
def StandsAmong (allowed : Action → Prop) (program : Program) (offset : Nat)
    (brackets : List Bracket) : Prop :=
  ∃ instructions, Program.Reads program.code offset instructions ∧
    Bracket.stepAll brackets instructions = .ok [] ∧
    ∀ instruction ∈ instructions, allowed instruction.opcode.action

namespace StandsAmong

open OutlineFont.Hinting.Bracket Program

variable {allowed : Action → Prop} {program : Program} {offset : Nat} {brackets : List Bracket}

/-- A valid program stands at its start. -/
theorem of_validate (valid : Program.validate program.code = .ok ())
    (each : ∀ instruction, .ok instruction ∈ instructionsFrom program.code 0 →
      allowed instruction.opcode.action) : StandsAmong allowed program 0 [] := by
  obtain ⟨instructions, reads, closed⟩ := validate_eq_ok_iff_stepAll.mp valid
  refine ⟨instructions, reads, closed, ?_⟩
  intro instruction listed
  apply each instruction
  rw [reads.instructionsFrom_eq]
  exact List.mem_map_of_mem listed

/-- At the end of the program nothing is open, and no place lies behind it. -/
theorem atEnd (stands : StandsAmong allowed program offset brackets)
    (atEnd : program.code.size ≤ offset) : offset = program.code.size ∧ brackets = [] := by
  obtain ⟨instructions, reads, closed, _⟩ := stands
  cases reads with
  | done =>
      cases closed
      exact ⟨rfl, rfl⟩
  | next decoded _ => exact absurd (Instruction.decode_lt decoded) (Nat.not_lt.mpr atEnd)

/-- Before the end there is an instruction. -/
theorem exists_decode (stands : StandsAmong allowed program offset brackets)
    (inside : offset < program.code.size) :
    ∃ instruction, Instruction.decode program.code offset = .ok instruction := by
  obtain ⟨instructions, reads, _, _⟩ := stands
  cases reads with
  | done => exact absurd inside (Nat.lt_irrefl _)
  | next decoded _ => exact ⟨_, decoded⟩

/-- The action at the place is allowed, and the place behind it stands. -/
theorem next (stands : StandsAmong allowed program offset brackets) {instruction : Instruction}
    (decoded : Instruction.decode program.code offset = .ok instruction) :
    allowed instruction.opcode.action ∧
      ∃ after, Moves instruction brackets after ∧
        StandsAmong allowed program instruction.next after := by
  obtain ⟨instructions, reads, closed, each⟩ := stands
  cases reads with
  | done => exact absurd (Instruction.decode_lt decoded) (Nat.lt_irrefl _)
  | next same after =>
      cases decoded.symm.trans same
      obtain ⟨between, moves, remaining⟩ := stepAll_cons_eq_ok_iff.mp closed
      refine ⟨each _ List.mem_cons_self, between, moves, _, after, remaining, ?_⟩
      exact fun later listed => each later (List.mem_cons_of_mem _ listed)

/-- The end of the innermost block is found, and the place behind it stands. -/
theorem blockEnd {opened : Nat} {otherwise : Bool} {outer : List Bracket}
    (stands : StandsAmong allowed program offset (.conditional opened otherwise :: outer))
    (atElse : Bool) :
    ∃ target after, Program.blockEnd program.code offset atElse = .ok target ∧
      StandsAmong allowed program target after ∧ scope after = scope outer := by
  obtain ⟨instructions, reads, closed, each⟩ := stands
  obtain ⟨stop, rest, found, ⟨before, same⟩, closes⟩ := searchList_visitBlock [] closed
  have ended := reads.blockEnd_eq found
  subst same
  have reads := reads.suffix
  have each : ∀ instruction ∈ rest, allowed instruction.opcode.action := by
    intro instruction listed
    exact each instruction (List.mem_append_right _ (List.mem_cons_of_mem _ listed))
  rcases closes with ⟨_, closed⟩ | ⟨_, _, _, closed⟩
  · exact ⟨stop.next, outer, ended, ⟨rest, reads, closed, each⟩, rfl⟩
  · exact ⟨stop.next, _, ended, ⟨rest, reads, closed, each⟩, rfl⟩

/-- The end of the innermost definition is found, and the place behind it stands. -/
theorem functionEnd {opened : Nat} {outer : List Bracket}
    (stands : StandsAmong allowed program offset (.definition opened :: outer)) :
    ∃ target, Program.functionEnd program.code offset = .ok target ∧
      StandsAmong allowed program target outer := by
  obtain ⟨instructions, reads, closed, each⟩ := stands
  obtain ⟨before, stop, rest, rfl, found, _, closed⟩ :=
    searchList_visitFunction openDefinition?_nil closed
  refine ⟨stop.next, reads.functionEnd_eq found, rest, reads.suffix, closed, ?_⟩
  intro instruction listed
  exact each instruction (List.mem_append_right _ (List.mem_cons_of_mem _ listed))

end StandsAmong

/-- A place that stands among actions that are no jumps. -/
abbrev Stands (program : Program) (offset : Nat) (brackets : List Bracket) : Prop :=
  StandsAmong (fun action => action.isJump = false) program offset brackets

/-- A place that stands, in a program or in a definition. -/
def StandsIn (scope : Scope) (program : Program) (offset : Nat) : Prop :=
  ∃ brackets, Bracket.scope brackets = scope ∧ Stands program offset brackets

/-- A function that starts in a definition. -/
def Function.Sound (function : Function) : Prop :=
  StandsIn .definition function.program function.start

/-- A machine all of whose functions start in definitions. -/
def Machine.Sound (machine : Machine) : Prop :=
  ∀ function, some function ∈ machine.functions → function.Sound

/-- A run is in a definition when a call is in progress. -/
def Frame.scope : List Frame → Scope
  | [] => .program
  | _ :: _ => .definition

/-- Calls in progress whose functions start, and which go on, at places that stand. -/
inductive Frame.Sound : Program → List Frame → Prop where
  | nothing {program : Program} : Sound program []
  | call {program : Program} {frame : Frame} {outer : List Frame}
      (runs : program = frame.function.program) (starts : frame.function.Sound)
      (resumes : StandsIn (scope outer) frame.caller frame.resume)
      (below : Sound frame.caller outer) : Sound program (frame :: outer)

/-- A place that stands, with calls in progress that do. -/
structure Place.Sound (place : Place) : Prop where
  stands : StandsIn (Frame.scope place.frames) place.program place.offset
  frames : Frame.Sound place.program place.frames

/-- A run at a place that stands, on a machine whose functions do. -/
structure Running.Sound (running : Running) : Prop where
  machine : running.session.machine.Sound
  place : running.place.Sound

namespace Place.Sound

variable {place : Place} {instruction : Instruction}

/-- Behind an instruction that defines a function a definition is open. -/
theorem defines (sound : place.Sound)
    (decoded : Instruction.decode place.program.code place.offset = .ok instruction)
    (action : instruction.opcode.action = .defineFunction) :
    Function.Sound ⟨place.program, instruction.next⟩ ∧
      ∃ target, Program.functionEnd place.program.code instruction.next = .ok target ∧
        StandsIn (Frame.scope place.frames) place.program target := by
  obtain ⟨brackets, same, stands⟩ := sound.stands
  obtain ⟨_, after, moves, behind⟩ := stands.next decoded
  cases moves with
  | plain plain => simp [action, Action.isBracket] at plain
  | ifTrue other | elseBranch other | endIf other | endFunction other =>
      rw [action] at other
      cases other
  | define _ _ =>
      obtain ⟨target, found, stands⟩ := behind.functionEnd
      exact ⟨⟨_, rfl, behind⟩, target, found, _, same, stands⟩

/-- The end of a block is found that is skipped from where it starts or branches. -/
theorem skips (sound : place.Sound)
    (decoded : Instruction.decode place.program.code place.offset = .ok instruction)
    {atElse : Bool} (action : instruction.opcode.action = if atElse then .ifTrue else .elseBranch) :
    ∃ target, Program.blockEnd place.program.code instruction.next atElse = .ok target ∧
      StandsIn (Frame.scope place.frames) place.program target := by
  obtain ⟨brackets, same, stands⟩ := sound.stands
  obtain ⟨_, after, moves, behind⟩ := stands.next decoded
  cases moves with
  | plain plain => cases atElse <;> simp [action, Action.isBracket] at plain
  | endIf other | endFunction other => cases atElse <;> simp [action] at other
  | define other _ => cases atElse <;> simp [action, Action.opensDefinition] at other
  | ifTrue _ | elseBranch _ =>
      obtain ⟨target, after, found, stands, unchanged⟩ := behind.blockEnd atElse
      exact ⟨target, found, after, unchanged.trans same, stands⟩

/-- The end of a function is reached in a function only. -/
theorem leaves (sound : place.Sound)
    (decoded : Instruction.decode place.program.code place.offset = .ok instruction)
    (action : instruction.opcode.action = .endFunction) : place.frames ≠ [] := by
  obtain ⟨brackets, same, stands⟩ := sound.stands
  obtain ⟨_, after, moves, _⟩ := stands.next decoded
  intro outermost
  rw [outermost] at same
  cases moves with
  | plain plain => simp [action, Action.isBracket] at plain
  | ifTrue other | elseBranch other | endIf other =>
      rw [action] at other
      cases other
  | define other _ => simp [action, Action.opensDefinition] at other
  | endFunction _ => cases same

/-- What follows an instruction stands where it did, unless a definition starts or ends there. -/
theorem onward (sound : place.Sound)
    (decoded : Instruction.decode place.program.code place.offset = .ok instruction)
    (noStart : ¬instruction.opcode.action.opensDefinition)
    (noEnd : instruction.opcode.action ≠ .endFunction) :
    StandsIn (Frame.scope place.frames) place.program instruction.next := by
  obtain ⟨brackets, same, stands⟩ := sound.stands
  obtain ⟨_, after, moves, behind⟩ := stands.next decoded
  refine ⟨after, ?_, behind⟩
  cases moves with
  | plain _ | ifTrue _ | elseBranch _ | endIf _ => exact same
  | define other _ => exact absurd other noStart
  | endFunction other => exact absurd other noEnd

/-- Where an instruction leads, the run stands again. -/
theorem follow (sound : place.Sound) {before after : Machine} {flow : Flow} {next : Place}
    (decoded : Instruction.decode place.program.code place.offset = .ok instruction)
    (functions : before.Sound) (leads : Leads place.program instruction before after flow)
    (follows : place.Follows flow next) : after.Sound ∧ next.Sound := by
  cases leads with
  | onward action carries =>
      cases follows
      refine ⟨carries.binds functions, sound.onward decoded ?_ ?_, sound.frames⟩
      · rintro (other | other)
        · rw [other] at action
          cases action
        · rw [other] at action
          cases action
      · intro other
        rw [other] at action
        cases action
  | skip atElse action found carries =>
      obtain ⟨target, same, stands⟩ := sound.skips decoded action
      cases same.symm.trans found
      cases follows
      exact ⟨carries.binds functions, stands, sound.frames⟩
  | jump action _ _ =>
      obtain ⟨brackets, _, stands⟩ := sound.stands
      rw [(stands.next decoded).1] at action
      cases action
  | define action found carries defines =>
      obtain ⟨starts, target, same, stands⟩ := sound.defines decoded action
      cases same.symm.trans found
      cases follows
      exact ⟨defines.binds starts (carries.binds functions), stands, sound.frames⟩
  | @enter function extra action bound carries =>
      have starts := functions function bound
      have resumes : StandsIn (Frame.scope place.frames) place.program instruction.next := by
        apply sound.onward decoded
        · rintro (other | other) <;> simp [other] at action
        · intro other
          simp [other] at action
      cases follows
      exact ⟨carries.binds functions, starts, .call rfl starts resumes sound.frames⟩
  | leave action same =>
      subst same
      have chain := sound.frames
      cases follows with
      | back inside _ =>
          rw [inside] at chain
          cases chain with
          | call _ _ resumes below => exact ⟨functions, resumes, below⟩
      | again inside _ =>
          rw [inside] at chain
          cases chain with
          | call runs starts resumes below =>
              refine ⟨functions, ?_, .call runs starts resumes below⟩
              rw [runs]
              exact starts

/-- When an instruction leads nowhere, too many calls are in progress. -/
theorem nowhere (sound : place.Sound) {before after : Machine} {flow : Flow}
    {failure : FontError}
    (decoded : Instruction.decode place.program.code place.offset = .ok instruction)
    (functions : before.Sound) (leads : Leads place.program instruction before after flow)
    (loses : place.Loses flow failure) : after.Sound ∧ failure.concernsLayout = false := by
  cases loses with
  | deep =>
      cases leads with
      | enter _ _ carries => exact ⟨carries.binds functions, rfl⟩
  | outside outermost =>
      cases leads with
      | leave action _ => exact absurd outermost (sound.leaves decoded action)

end Place.Sound

namespace Running

theorem Next.sound {running next : Running} (leads : running.Next next)
    (sound : running.Sound) : next.Sound := by
  obtain ⟨instruction, flow, steps⟩ := leads.steps
  obtain ⟨machine, place⟩ := sound.place.follow steps.decoded sound.machine
    (Engine.leads_of_perform steps.performed) steps.followed
  exact ⟨machine, place⟩

theorem Reaches.sound {first last : Running} (reaches : first.Reaches last)
    (sound : first.Sound) : last.Sound := by
  induction reaches with
  | refl => exact sound
  | tail _ next ih => exact Next.sound next ih

/-- A run that stands is over for no fault of layout, and its functions stay sound. -/
theorem Halts.sound {running : Running} {session : Session} {outcome : Except FontError Unit}
    (halts : running.Halts session outcome) (sound : running.Sound) :
    session.machine.Sound ∧
      ∀ failure, outcome = .error failure → failure.concernsLayout = false := by
  cases halts with
  | finished atEnd =>
      refine ⟨sound.machine, ?_⟩
      intro failure ended
      obtain ⟨brackets, same, stands⟩ := sound.place.stands
      have closed := (stands.atEnd (of_decide_eq_true atEnd)).2
      subst closed
      unfold Place.finish at ended
      split at ended
      · cases ended
      · next frames =>
          rw [frames] at same
          cases same
  | exhausted _ _ =>
      refine ⟨sound.machine, ?_⟩
      intro failure ended
      cases ended
      rfl
  | undecoded inside _ missing =>
      obtain ⟨brackets, _, stands⟩ := sound.place.stands
      obtain ⟨instruction, decoded⟩ := stands.exists_decode
        (Nat.not_le.mp (of_decide_eq_false inside))
      cases decoded.symm.trans missing
  | failed _ decoded performed =>
      cases Engine.fails_of_perform performed with
      | operands concerns carries =>
          refine ⟨carries.binds sound.machine, ?_⟩
          intro failure ended
          cases ended
          exact FontError.concernsLayout_of_concernsOperands concerns
      | skip atElse action missing _ =>
          obtain ⟨target, found, _⟩ := sound.place.skips decoded action
          cases found.symm.trans missing
      | define action missing _ _ =>
          obtain ⟨_, target, found, _⟩ := sound.place.defines decoded action
          cases found.symm.trans missing
  | lost _ decoded performed nowhere =>
      obtain ⟨machine, kind⟩ := sound.place.nowhere decoded sound.machine
        (Engine.leads_of_perform performed) nowhere
      refine ⟨machine, ?_⟩
      intro failure ended
      cases ended
      exact kind

theorem Ends.sound {running : Running} {session : Session} {outcome : Except FontError Unit}
    (ends : running.Ends session outcome) (sound : running.Sound) :
    session.machine.Sound ∧
      ∀ failure, outcome = .error failure → failure.concernsLayout = false := by
  obtain ⟨last, reaches, finish⟩ := ends.exists_last
  exact (halts_of_round finish).sound (reaches.sound sound)

end Running

namespace Session

/-- A valid program without jumps starts at a place that stands. -/
theorem start_sound {session : Session} {program : Program} (sound : session.machine.Sound)
    (valid : Program.validate program.code = .ok ()) (jumpFree : program.JumpFree) :
    (Running.mk session (.start program)).Sound where
  machine := sound
  place := ⟨⟨[], rfl, .of_validate valid jumpFree⟩, .nothing⟩

/-- Every function that programs without jumps have defined starts in a definition. -/
theorem Reachable.sound {session : Session} (reachable : session.Reachable Program.JumpFree) :
    session.machine.Sound := by
  induction reachable with
  | created created =>
      intro function bound
      exact absurd bound ((create_machine created).2.2 function)
  | loaded _ glyph ih => exact ih
  | @ran session _ program jumpFree ih =>
      unfold run
      obtain ⟨_, same⟩ | ⟨_, _, same⟩ | ⟨valid, _, ends⟩ := runNoting_cases .silent session program
      · rw [same]
        exact ih
      · rw [same]
        exact ih
      · exact (ends.sound (start_sound ih valid jumpFree)).1

/--
Among programs without jumps, validation is all the checking that the layout
needs: a program that is refused changes nothing, and one that is accepted does
not fail for its layout, whatever functions it calls.
-/
theorem runNoting_jumpFree {session : Session}
    (reachable : session.Reachable Program.JumpFree) {program : Program}
    (jumpFree : program.JumpFree) (journal : Journal Notice) :
    (∀ failure, Program.validate program.code = .error failure →
      session.runNoting journal program = ⟨session, journal, .error failure⟩) ∧
    (Program.validate program.code = .ok () → ∀ failure,
      (session.runNoting journal program).outcome = .error failure →
        failure.concernsLayout = false) := by
  obtain ⟨empty, same⟩ | ⟨first, invalid, same⟩ | ⟨valid, _, ends⟩ :=
    runNoting_cases journal session program
  · have valid := Program.validate_of_isEmpty empty
    constructor
    · intro failure invalid
      cases valid.symm.trans invalid
    · intro _ failure ended
      rw [same] at ended
      cases ended
  · constructor
    · intro failure again
      cases invalid.symm.trans again
      exact same
    · intro valid
      cases valid.symm.trans invalid
  · constructor
    · intro failure invalid
      cases valid.symm.trans invalid
    · intro _
      exact (ends.sound (start_sound reachable.sound valid jumpFree)).2

/-- A new machine runs a program that defines a function in a block and calls it behind. -/
theorem runNoting_jumpFree_definitionInBlock :
    ∃ session, create ⟨1, 0, 0, 1, 8⟩ [] 1000 20 = .ok session ∧
      ∀ failure, (session.runNoting .silent ⟨.font, #[0xB1, 0, 1, 0x58, 0x2C, 0x58, 0x59, 0x2D,
        0x59, 0xB1, 1, 0, 0x2B]⟩).outcome = .error failure → failure.concernsLayout = false := by
  have created : ∃ session, create ⟨1, 0, 0, 1, 8⟩ [] 1000 20 = .ok session := ⟨_, rfl⟩
  obtain ⟨session, created⟩ := created
  exact ⟨session, created,
    (runNoting_jumpFree (.created created) (by decide +kernel) .silent).2 (by decide +kernel)⟩

end Session

end OutlineFont.Hinting
