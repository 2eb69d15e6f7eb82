import OutlineFont.Proofs.Relocation
import OutlineFont.Proofs.UncountedRuns

/-!
# Running a part of a program

A program without jumps and definitions may stand inside another one of its
kind.  Running it there, perhaps in a function, does what running it alone does,
and then goes on behind it.  The two runs go side by side: in the program they
are at places that correspond, and in the functions that it calls they are at
the same place, with calls in progress that differ at the bottom only.
-/

namespace OutlineFont.Hinting

/-- Whether an action is no jump and opens no definition. -/
def Action.isStraight : Action → Bool
  | .jump | .jumpWhen _ | .defineFunction | .defineInstruction => false
  | _ => true

theorem Action.isJump_of_isStraight {action : Action} (straight : action.isStraight = true) :
    action.isJump = false ∧ action ≠ .defineFunction := by
  cases action with
  | jump | jumpWhen | defineFunction | defineInstruction => cases straight
  | _ => exact ⟨rfl, nofun⟩

/-- Byte code in whose instructions, read from its start, there is no jump and no definition. -/
def Program.Straight (code : Bytes) : Prop :=
  ∀ instruction, .ok instruction ∈ Program.instructionsFrom code 0 →
    instruction.opcode.action.isStraight = true

instance (code : Bytes) : Decidable (Program.Straight code) :=
  decidable_of_iff _ Program.forall_ok_mem_iff.symm

/-- A place outside of definitions, behind which there are no jumps and no definitions. -/
def StandsStraight (program : Program) (offset : Nat) : Prop :=
  ∃ brackets, Bracket.scope brackets = .program ∧
    StandsAmong (fun action => action.isStraight = true) program offset brackets

namespace StandsStraight

variable {program : Program} {offset : Nat} {instruction : Instruction}

theorem of_validate (valid : Program.validate program.code = .ok ())
    (straight : Program.Straight program.code) : StandsStraight program 0 :=
  ⟨[], rfl, .of_validate valid straight⟩

theorem eq_size (stands : StandsStraight program offset) (atEnd : program.code.size ≤ offset) :
    offset = program.code.size := by
  obtain ⟨brackets, _, stands⟩ := stands
  exact (stands.atEnd atEnd).1

theorem exists_decode (stands : StandsStraight program offset)
    (inside : offset < program.code.size) :
    ∃ instruction, Instruction.decode program.code offset = .ok instruction := by
  obtain ⟨brackets, _, stands⟩ := stands
  exact stands.exists_decode inside

/-- Nothing jumps or defines there, no definition ends, and what follows stands straight again. -/
theorem next (stands : StandsStraight program offset)
    (decoded : Instruction.decode program.code offset = .ok instruction) :
    instruction.opcode.action.isJump = false ∧ instruction.opcode.action ≠ .defineFunction ∧
      instruction.opcode.action ≠ .endFunction ∧ StandsStraight program instruction.next := by
  obtain ⟨brackets, same, stands⟩ := stands
  obtain ⟨straight, after, moves, behind⟩ := stands.next decoded
  obtain ⟨noJump, noDefinition⟩ := Action.isJump_of_isStraight straight
  have opensNothing : ¬instruction.opcode.action.opensDefinition := by
    rintro (opens | opens)
    · exact noDefinition opens
    · rw [opens] at straight
      cases straight
  refine ⟨noJump, noDefinition, ?_, after, ?_, behind⟩
  · intro ends
    cases moves with
    | plain plain =>
        rw [ends] at plain
        cases plain
    | ifTrue action | elseBranch action | endIf action => cases ends.symm.trans action
    | define opens _ => exact opensNothing opens
    | endFunction _ => cases same
  · cases moves with
    | plain _ | ifTrue _ | elseBranch _ | endIf _ => exact same
    | define opens _ => exact absurd opens opensNothing
    | endFunction _ => cases same

/-- The end of a block is found that is skipped, and the place behind it stands straight. -/
theorem skips (stands : StandsStraight program offset)
    (decoded : Instruction.decode program.code offset = .ok instruction) {atElse : Bool}
    (action : instruction.opcode.action = if atElse then .ifTrue else .elseBranch) :
    ∃ target, Program.blockEnd program.code instruction.next atElse = .ok target ∧
      StandsStraight program target := by
  obtain ⟨brackets, same, stands⟩ := stands
  obtain ⟨_, after, moves, behind⟩ := stands.next decoded
  cases moves with
  | plain plain => cases atElse <;> simp [action, Action.isBracket] at plain
  | endIf other | endFunction other => cases atElse <;> simp [action] at other
  | define other _ => cases atElse <;> simp [action, Action.opensDefinition] at other
  | ifTrue _ | elseBranch _ =>
      obtain ⟨target, after, found, stands, unchanged⟩ := behind.blockEnd atElse
      exact ⟨target, found, after, unchanged.trans same, stands⟩

end StandsStraight

/-- A program inside another one of its kind, run with further calls in progress. -/
structure Embedding where
  part : Program
  whole : Program
  shift : Nat
  /-- The calls in progress around the part. -/
  bottom : List Frame
  encloses : Encloses whole.code shift part.code
  kinds : whole.kind = part.kind

namespace Embedding

/-- The place behind the part. -/
def behind (embedding : Embedding) : Place :=
  ⟨embedding.whole, embedding.part.code.size + embedding.shift, embedding.bottom⟩

/-- Places of a run of the part alone and of a run of the part inside the whole. -/
inductive Relates (embedding : Embedding) : Place → Place → Prop where
  | inside {offset : Nat} (stands : StandsStraight embedding.part offset) :
      Relates embedding ⟨embedding.part, offset, []⟩
        ⟨embedding.whole, offset + embedding.shift, embedding.bottom⟩
  | called {program : Program} {offset resume extra : Nat} {function : Function}
      (calls : List Frame) (resumes : StandsStraight embedding.part resume) :
      Relates embedding
        ⟨program, offset, calls ++ [⟨embedding.part, resume, function, extra⟩]⟩
        ⟨program, offset, calls ++
          ⟨embedding.whole, resume + embedding.shift, function, extra⟩ :: embedding.bottom⟩

/-- Where instructions lead from places that relate, unless there are too many calls below. -/
inductive Continues (embedding : Embedding) :
    Except FontError Place → Except FontError Place → Prop where
  | on {place other : Place} (relates : embedding.Relates place other) :
      Continues embedding (.ok place) (.ok other)
  | stop (failure : FontError) : Continues embedding (.error failure) (.error failure)
  | deep (occupied : embedding.bottom ≠ []) (result : Except FontError Place) :
      Continues embedding result (.error (.hinting (.callDepth callLimit)))

/-- What comes of rounds at places that relate, unless there are too many calls below. -/
inductive Agrees (embedding : Embedding) : Advance → Advance → Prop where
  | on {place other : Place} (machine : Machine) (relates : embedding.Relates place other) :
      Agrees embedding (.on machine place) (.on machine other)
  | stop {failure other : FontError} (machine : Machine)
      (same : failure.unplaced = other.unplaced) :
      Agrees embedding (.stop machine (.error failure)) (.stop machine (.error other))
  | deep (machine : Machine) (occupied : embedding.bottom ≠ []) (round : Advance) :
      Agrees embedding round (.stop machine (.error (.hinting (.callDepth callLimit))))

variable {embedding : Embedding}

theorem agrees_of_stop {place other : Place} {machine after : Machine} {failure fault : FontError}
    (first : place.advance machine = .stop after (.error failure))
    (second : other.advance machine = .stop after (.error fault))
    (same : failure.unplaced = fault.unplaced) :
    embedding.Agrees (place.advance machine) (other.advance machine) := by
  rw [first, second]
  exact .stop after same

theorem Continues.advance {place other : Place} {instruction another : Instruction}
    {flow otherFlow : Flow} {machine after : Machine}
    (continues : embedding.Continues (place.follow flow) (other.follow otherFlow))
    (decoded : Instruction.decode place.program.code place.offset = .ok instruction)
    (performed : Engine.perform place.program instruction machine = .ok flow after)
    (decodedOther : Instruction.decode other.program.code other.offset = .ok another)
    (performedOther : Engine.perform other.program another machine = .ok otherFlow after) :
    embedding.Agrees (place.advance machine) (other.advance machine) := by
  generalize followed : place.follow flow = result at continues
  generalize followedOther : other.follow otherFlow = otherResult at continues
  cases continues with
  | on relates =>
      rw [Place.advance_of_follow decoded performed followed,
        Place.advance_of_follow decodedOther performedOther followedOther]
      exact .on after relates
  | stop failure =>
      rw [Place.advance_of_follow_error decoded performed followed,
        Place.advance_of_follow_error decodedOther performedOther followedOther]
      exact .stop after rfl
  | deep occupied =>
      rw [Place.advance_of_follow_error decodedOther performedOther followedOther]
      exact .deep after occupied _

/-- A call starts from both places or from neither, unless there are too many calls below. -/
theorem continues_enter {place other : Place} {function : Function} {extra resume again : Nat}
    (lengths : other.frames.length = place.frames.length + embedding.bottom.length)
    (relates : embedding.Relates
      ⟨function.program, function.start, ⟨place.program, resume, function, extra⟩ :: place.frames⟩
      ⟨function.program, function.start, ⟨other.program, again, function, extra⟩ :: other.frames⟩) :
    embedding.Continues (place.follow (.enter function extra resume))
      (other.follow (.enter function extra again)) := by
  unfold Place.follow
  dsimp only
  by_cases room : other.frames.length < callLimit
  · rw [if_pos room, if_pos (by omega)]
    exact .on relates
  · rw [if_neg room]
    by_cases alone : place.frames.length < callLimit
    · refine .deep ?_ _
      intro empty
      rw [empty, List.length_nil] at lengths
      omega
    · rw [if_neg alone]
      exact .stop _

/-- A function that is called from the part returns from it as from the whole. -/
theorem continues_leave {program : Program} {offset resume extra : Nat} {function : Function}
    (calls : List Frame) (resumes : StandsStraight embedding.part resume) :
    embedding.Continues
      (Place.follow ⟨program, offset, calls ++ [⟨embedding.part, resume, function, extra⟩]⟩ .leave)
      (Place.follow ⟨program, offset, calls ++
        ⟨embedding.whole, resume + embedding.shift, function, extra⟩ :: embedding.bottom⟩
        .leave) := by
  cases calls with
  | nil =>
      cases extra with
      | zero => exact .on (.inside resumes)
      | succ extra => exact .on (.called [] resumes)
  | cons frame calls =>
      obtain ⟨caller, next, called, more⟩ := frame
      cases more with
      | zero => exact .on (.called calls resumes)
      | succ more => exact .on (.called (⟨caller, next, called, more⟩ :: calls) resumes)

/-- In the part, a round does what it does inside the whole. -/
theorem advance_inside {offset : Nat} (stands : StandsStraight embedding.part offset)
    (before : offset < embedding.part.code.size) (machine : Machine) :
    embedding.Agrees (Place.advance ⟨embedding.part, offset, []⟩ machine)
      (Place.advance ⟨embedding.whole, offset + embedding.shift, embedding.bottom⟩ machine) := by
  obtain ⟨instruction, decoded⟩ := stands.exists_decode before
  have decodedWhole := Instruction.decode_shift embedding.encloses decoded
  obtain ⟨noJump, noDefinition, noEnd, onward⟩ := stands.next decoded
  have performs := Engine.perform_shift embedding.encloses embedding.kinds noJump noDefinition
    (fun atElse action => (stands.skips decoded action).imp fun _ => And.left) machine
  generalize performed : Engine.perform embedding.part instruction machine = result at performs
  generalize performedWhole : Engine.perform embedding.whole
    (instruction.shift embedding.shift) machine = other at performs
  cases performs with
  | error same after =>
      exact agrees_of_stop (Place.advance_of_perform_error decoded performed)
        (Place.advance_of_perform_error decodedWhole performedWhole) same
  | @ok flow _ related after =>
      subst related
      refine Continues.advance ?_ decoded performed decodedWhole performedWhole
      cases Engine.leads_of_perform performed with
      | onward _ _ => exact .on (.inside onward)
      | skip atElse action found _ =>
          obtain ⟨target, same, lands⟩ := stands.skips decoded action
          cases same.symm.trans found
          exact .on (.inside lands)
      | jump action _ _ => cases noJump.symm.trans action
      | define action _ _ _ => exact absurd action noDefinition
      | leave action _ => exact absurd action noEnd
      | enter _ _ _ =>
          exact continues_enter (Nat.zero_add _).symm (.called [] onward)

/-- In a function, a round does what it does there, whatever calls are in progress below. -/
theorem advance_called {program : Program} {offset resume extra : Nat} {function : Function}
    (calls : List Frame) (resumes : StandsStraight embedding.part resume) (machine : Machine) :
    embedding.Agrees
      (Place.advance ⟨program, offset, calls ++ [⟨embedding.part, resume, function, extra⟩]⟩
        machine)
      (Place.advance ⟨program, offset, calls ++
        ⟨embedding.whole, resume + embedding.shift, function, extra⟩ :: embedding.bottom⟩
        machine) := by
  by_cases atEnd : program.code.size ≤ offset
  · have finished (frames : List Frame) : Place.advance ⟨program, offset, frames⟩ machine =
        .stop machine (Place.finish ⟨program, offset, frames⟩) :=
      Place.advance_of_atEnd (decide_eq_true atEnd)
    cases calls with
    | nil => exact agrees_of_stop (finished _) (finished _) rfl
    | cons frame calls => exact agrees_of_stop (finished _) (finished _) rfl
  · have inside : ¬decide (program.code.size ≤ offset) = true := by simpa using atEnd
    cases decoded : Instruction.decode program.code offset with
    | error failure =>
        exact agrees_of_stop (Place.advance_of_decode_error inside decoded)
          (Place.advance_of_decode_error inside decoded) rfl
    | ok instruction =>
        cases performed : Engine.perform program instruction machine with
        | error failure after =>
            exact agrees_of_stop (Place.advance_of_perform_error decoded performed)
              (Place.advance_of_perform_error decoded performed) rfl
        | ok flow after =>
            refine Continues.advance ?_ decoded performed decoded performed
            cases flow with
            | goto target => exact .on (.called calls resumes)
            | enter called more next =>
                refine continues_enter ?_ (.called (⟨program, next, called, more⟩ :: calls) resumes)
                simp only [List.length_append, List.length_cons, List.length_nil]
                omega
            | leave => exact continues_leave calls resumes

/-- A round agrees at places that relate, until the part is over. -/
theorem Relates.advance {place other : Place} (relates : embedding.Relates place other)
    (machine : Machine) :
    (place = ⟨embedding.part, embedding.part.code.size, []⟩ ∧ other = embedding.behind) ∨
      embedding.Agrees (place.advance machine) (other.advance machine) := by
  cases relates with
  | @inside offset stands =>
      by_cases atEnd : embedding.part.code.size ≤ offset
      · cases stands.eq_size atEnd
        exact .inl ⟨rfl, rfl⟩
      · exact .inr (advance_inside stands (Nat.lt_of_not_le atEnd) machine)
  | called calls resumes => exact .inr (advance_called calls resumes machine)

/-- What the run of a part alone means for the run inside the whole. -/
inductive Carries (embedding : Embedding) (machine : Machine) (place : Place) (after : Machine) :
    Except FontError Unit → Prop where
  /-- The whole goes on behind the part. -/
  | onward (further : ∀ {last : Machine} {outcome : Except FontError Unit},
      Comes after embedding.behind last outcome → Comes machine place last outcome) :
      Carries embedding machine place after (.ok ())
  /-- The whole fails as the part does. -/
  | fails {failure other : FontError} (same : failure.unplaced = other.unplaced)
      (comes : Comes machine place after (.error other)) :
      Carries embedding machine place after (.error failure)
  /-- There are too many calls below. -/
  | deep {last : Machine} (occupied : embedding.bottom ≠ [])
      (comes : Comes machine place last (.error (.hinting (.callDepth callLimit))))
      (outcome : Except FontError Unit) : Carries embedding machine place after outcome

theorem Relates.carries {machine after : Machine} {place other : Place}
    {outcome : Except FontError Unit} (comes : Comes machine place after outcome)
    (relates : embedding.Relates place other) :
    embedding.Carries machine other after outcome := by
  induction comes generalizing other with
  | @stop machine after place outcome round =>
      obtain ⟨rfl, rfl⟩ | agrees := relates.advance machine
      · cases round.symm.trans (Place.advance_of_atEnd (decide_eq_true (Nat.le_refl _)))
        exact .onward id
      · rw [round] at agrees
        generalize roundOther : other.advance machine = otherRound at agrees
        cases agrees with
        | stop _ same => exact .fails same (.stop roundOther)
        | deep _ occupied => exact .deep occupied (.stop roundOther) _
  | @on machine between after place target outcome round rest ih =>
      obtain ⟨rfl, rfl⟩ | agrees := relates.advance machine
      · cases round.symm.trans (Place.advance_of_atEnd (decide_eq_true (Nat.le_refl _)))
      · rw [round] at agrees
        generalize roundOther : other.advance machine = otherRound at agrees
        cases agrees with
        | on _ relates =>
            cases ih relates with
            | onward further => exact .onward fun last => .on roundOther (further last)
            | fails same comes => exact .fails same (.on roundOther comes)
            | deep occupied comes => exact .deep occupied (.on roundOther comes) _
        | deep _ occupied => exact .deep occupied (.stop roundOther) _

end Embedding

/--
Two runs that both succeed or both fail, leave equal machines, and fail for the same
reason, except that the instruction that is not carried out may stand elsewhere.
-/
structure Finish.Alike (first second : Finish) : Prop where
  success : first.outcome = .ok () ↔ second.outcome = .ok ()
  machine : first.session.machine = second.session.machine
  failure : first.outcome.mapError FontError.unplaced = second.outcome.mapError FontError.unplaced

/-- Inside a whole that is over behind the part, the part runs as it does alone. -/
theorem Embedding.alike (embedding : Embedding) {machine : Machine} {whole alone : Finish}
    (stands : StandsStraight embedding.part 0)
    (inside : Comes machine ⟨embedding.whole, embedding.shift, embedding.bottom⟩
      whole.session.machine whole.outcome)
    (outside : Comes machine (.start embedding.part) alone.session.machine alone.outcome)
    (finishes : ∀ machine, Comes machine embedding.behind machine (.ok ()))
    (shallow : embedding.bottom ≠ [] →
      whole.outcome ≠ .error (.hinting (.callDepth callLimit))) : whole.Alike alone := by
  have relates := Relates.inside stands
  rw [Nat.zero_add] at relates
  have carries := relates.carries outside
  generalize same : alone.outcome = outcome at carries
  cases carries with
  | onward further =>
      obtain ⟨machines, outcomes⟩ := inside.unique (further (finishes _))
      exact ⟨by rw [outcomes, same], machines, by rw [outcomes, same]⟩
  | @fails failure other unplaced comes =>
      obtain ⟨machines, outcomes⟩ := inside.unique comes
      refine ⟨?_, machines, ?_⟩
      · rw [outcomes, same]
        constructor
        · intro impossible
          cases impossible
        · intro impossible
          cases impossible
      · rw [outcomes, same]
        exact congrArg Except.error unplaced.symm
  | deep occupied comes => exact absurd (inside.unique comes).2 (shallow occupied)

end OutlineFont.Hinting
