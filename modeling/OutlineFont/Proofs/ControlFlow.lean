import OutlineFont.Proofs.InstructionFrame

/-!
# Where an instruction leads

An instruction goes on behind itself, skips a part of its program, jumps, binds a
function, returns or calls.  This module says once for each of these what it asks
of the program and what it does to the machine, and in which ways it can fail.
-/

namespace OutlineFont.Hinting

/-- An index that was free is bound to a function, and nothing else has changed. -/
def Machine.Defines (before after : Machine) (function : Function) : Prop :=
  ∃ (index : Nat) (inside : index < before.functions.size),
    before.functions[index] = none ∧
      after = { before with functions := before.functions.set index (some function) inside }

/-- What a run keeps: sizes, bounds, and the functions that have been bound. -/
structure Machine.Evolves (before after : Machine) : Prop where
  storage : after.storage.size = before.storage.size
  slots : after.functions.size = before.functions.size
  functions : ∀ (index : Nat) (function : Function), before.functions[index]? =
    some (some function) → after.functions[index]? = some (some function)
  controls : after.controls.size = before.controls.size
  twilight : after.twilight = before.twilight
  outline : after.outline = before.outline
  ppem : after.ppem = before.ppem
  unitsPerEm : after.unitsPerEm = before.unitsPerEm
  settled : before.Settled → after.Settled

namespace Machine

theorem Evolves.refl (machine : Machine) : machine.Evolves machine :=
  ⟨rfl, rfl, fun _ _ => id, rfl, rfl, rfl, rfl, rfl, id⟩

theorem Evolves.trans {first second third : Machine} (before : first.Evolves second)
    (after : second.Evolves third) : first.Evolves third where
  storage := after.storage.trans before.storage
  slots := after.slots.trans before.slots
  functions index function bound := after.functions index function
    (before.functions index function bound)
  controls := after.controls.trans before.controls
  twilight := after.twilight.trans before.twilight
  outline := after.outline.trans before.outline
  ppem := after.ppem.trans before.ppem
  unitsPerEm := after.unitsPerEm.trans before.unitsPerEm
  settled := after.settled ∘ before.settled

theorem Carries.evolves {before after : Machine} (carries : before.Carries after) :
    before.Evolves after where
  storage := carries.storage
  slots := by rw [carries.functions]
  functions index function bound := by rw [carries.functions]; exact bound
  controls := carries.controls
  twilight := carries.twilight
  outline := carries.outline
  ppem := carries.ppem
  unitsPerEm := carries.unitsPerEm
  settled := carries.settled

theorem Defines.evolves {before after : Machine} {function : Function}
    (defines : before.Defines after function) : before.Evolves after := by
  obtain ⟨index, inside, free, rfl⟩ := defines
  refine ⟨rfl, Array.size_set inside, ?_, rfl, rfl, rfl, rfl, rfl,
    fun settled => ⟨settled.depth, settled.graphics⟩⟩
  intro other bound found
  by_cases same : index = other
  · subst same
    rw [Array.getElem?_eq_getElem inside, free] at found
    cases found
  · rw [Array.getElem?_set_ne inside same]
    exact found

/-- A machine all of whose functions have a property. -/
def Binds (property : Function → Prop) (machine : Machine) : Prop :=
  ∀ function, some function ∈ machine.functions → property function

theorem Carries.binds {property : Function → Prop} {before after : Machine}
    (carries : before.Carries after) (binds : before.Binds property) : after.Binds property := by
  intro function bound
  rw [carries.functions] at bound
  exact binds function bound

theorem Defines.binds {property : Function → Prop} {before after : Machine} {function : Function}
    (defines : before.Defines after function) (holds : property function)
    (binds : before.Binds property) : after.Binds property := by
  obtain ⟨index, inside, _, rfl⟩ := defines
  intro other bound
  have bound : some other ∈ before.functions.set index (some function) inside := bound
  rcases Array.mem_or_eq_of_mem_set bound with earlier | same
  · exact binds other earlier
  · cases same
    exact holds

end Machine

namespace Engine

variable {α β : Type}

theorem accept_eq_ok_iff {result : Except FontError α} {machine after : Machine} {value : α} :
    accept result machine = .ok value after ↔ result = .ok value ∧ after = machine := by
  cases result with
  | ok other =>
      constructor
      · intro same
        cases same
        exact ⟨rfl, rfl⟩
      · rintro ⟨same, rfl⟩
        cases same
        rfl
  | error failure =>
      constructor
      · intro impossible
        cases impossible
      · rintro ⟨impossible, _⟩
        cases impossible

theorem accept_eq_error_iff {result : Except FontError α} {machine after : Machine}
    {failure : FontError} :
    accept result machine = .error failure after ↔ result = .error failure ∧ after = machine := by
  cases result with
  | ok other =>
      constructor
      · intro impossible
        cases impossible
      · rintro ⟨impossible, _⟩
        cases impossible
  | error first =>
      constructor
      · intro same
        cases same
        exact ⟨rfl, rfl⟩
      · rintro ⟨same, rfl⟩
        cases same
        rfl

theorem Safe.of_ok {work : Engine α} (safe : Safe work) {machine after : Machine} {value : α}
    (outcome : work machine = .ok value after) : machine.Carries after := by
  have carries := safe machine
  rw [outcome] at carries
  exact carries

theorem Safe.of_error {work : Engine α} (safe : Safe work) {machine after : Machine}
    {failure : FontError} (outcome : work machine = .error failure after) :
    machine.Carries after ∧ failure.concernsOperands = true := by
  have carries := safe machine
  rw [outcome] at carries
  exact carries

theorem define_of_ok {index : Int32} {function : Function} {machine after : Machine} {value : Unit}
    (defined : define index function machine = .ok value after) :
    machine.Defines after function := by
  unfold define at defined
  split at defined
  · next inside =>
      split at defined
      · next free =>
          cases defined
          exact ⟨_, inside, free, rfl⟩
      · cases defined
  · cases defined

theorem define_of_error {index : Int32} {function : Function} {machine after : Machine}
    {failure : FontError} (failed : define index function machine = .error failure after) :
    machine.Carries after ∧ failure.concernsOperands = true := by
  unfold define at failed
  split at failed
  · split at failed
    · cases failed
    · cases failed
      exact ⟨.refl machine, rfl⟩
  · cases failed
    exact ⟨.refl machine, rfl⟩

theorem lookup_of_ok {index : Int32} {function : Function} {machine after : Machine}
    (found : lookup index machine = .ok function after) :
    after = machine ∧ some function ∈ machine.functions := by
  unfold lookup at found
  split at found
  · next other bound =>
      cases found
      exact ⟨rfl, Array.mem_of_getElem? bound⟩
  · cases found
  · cases found

end Engine

theorem jumpTarget_error {code : Bytes} {offset : Nat} {distance : Int32} {failure : FontError}
    (failed : Program.jumpTarget code offset distance = .error failure) :
    failure.concernsOperands = true := by
  unfold Program.jumpTarget at failed
  dsimp only at failed
  split at failed
  · cases failed
  · cases failed
    rfl

/-- Whether an instruction may lead to the one behind it. -/
def Action.fallsThrough : Action → Bool
  | .elseBranch | .jump | .defineFunction | .defineInstruction | .endFunction | .call => false
  | _ => true

def Action.isJump : Action → Bool
  | .jump | .jumpWhen _ => true
  | _ => false

/-- Where an instruction that succeeds leads, and what it has done to the machine. -/
inductive Leads (program : Program) (instruction : Instruction) (before after : Machine) :
    Flow → Prop where
  | onward (action : instruction.opcode.action.fallsThrough = true)
      (carries : before.Carries after) :
      Leads program instruction before after (.goto instruction.next)
  | skip (atElse : Bool) {target : Nat}
      (action : instruction.opcode.action = if atElse then .ifTrue else .elseBranch)
      (found : Program.blockEnd program.code instruction.next atElse = .ok target)
      (carries : before.Carries after) : Leads program instruction before after (.goto target)
  | jump {distance : Int32} {target : Nat} (action : instruction.opcode.action.isJump = true)
      (found : Program.jumpTarget program.code instruction.offset distance = .ok target)
      (carries : before.Carries after) : Leads program instruction before after (.goto target)
  | define {popped : Machine} {target : Nat} (action : instruction.opcode.action = .defineFunction)
      (found : Program.functionEnd program.code instruction.next = .ok target)
      (carries : before.Carries popped)
      (defines : popped.Defines after ⟨program, instruction.next⟩) :
      Leads program instruction before after (.goto target)
  | leave (action : instruction.opcode.action = .endFunction) (same : after = before) :
      Leads program instruction before after .leave
  | enter {function : Function} {extra : Nat}
      (action : instruction.opcode.action = .call ∨ instruction.opcode.action = .loopCall)
      (bound : some function ∈ before.functions) (carries : before.Carries after) :
      Leads program instruction before after (.enter function extra instruction.next)

theorem Leads.evolves {program : Program} {instruction : Instruction} {before after : Machine}
    {flow : Flow} (leads : Leads program instruction before after flow) : before.Evolves after := by
  cases leads with
  | onward _ carries | skip _ _ _ carries | jump _ _ carries | enter _ _ carries =>
      exact carries.evolves
  | define _ _ carries defines => exact carries.evolves.trans defines.evolves
  | leave _ same =>
      subst same
      exact .refl _

theorem Leads.binds {property : Function → Prop} {program : Program} {instruction : Instruction}
    {before after : Machine} {flow : Flow} (leads : Leads program instruction before after flow)
    (holds : property ⟨program, instruction.next⟩) (binds : before.Binds property) :
    after.Binds property := by
  cases leads with
  | onward _ carries | skip _ _ _ carries | jump _ _ carries | enter _ _ carries =>
      exact carries.binds binds
  | define _ _ carries defines => exact defines.binds holds (carries.binds binds)
  | leave _ same =>
      subst same
      exact binds

/-- How an instruction fails, and what it has done to the machine before. -/
inductive Fails (program : Program) (instruction : Instruction) (before after : Machine)
    (failure : FontError) : Prop where
  | operands (concerns : failure.concernsOperands = true) (carries : before.Carries after)
  | skip (atElse : Bool)
      (action : instruction.opcode.action = if atElse then .ifTrue else .elseBranch)
      (missing : Program.blockEnd program.code instruction.next atElse = .error failure)
      (carries : before.Carries after)
  | define {popped : Machine} (action : instruction.opcode.action = .defineFunction)
      (missing : Program.functionEnd program.code instruction.next = .error failure)
      (carries : before.Carries popped)
      (defines : popped.Defines after ⟨program, instruction.next⟩)

theorem Fails.evolves {program : Program} {instruction : Instruction} {before after : Machine}
    {failure : FontError} (fails : Fails program instruction before after failure) :
    before.Evolves after := by
  cases fails with
  | operands _ carries | skip _ _ _ carries => exact carries.evolves
  | define _ _ carries defines => exact carries.evolves.trans defines.evolves

theorem Fails.binds {property : Function → Prop} {program : Program} {instruction : Instruction}
    {before after : Machine} {failure : FontError}
    (fails : Fails program instruction before after failure)
    (holds : property ⟨program, instruction.next⟩) (binds : before.Binds property) :
    after.Binds property := by
  cases fails with
  | operands _ carries | skip _ _ _ carries => exact carries.binds binds
  | define _ _ carries defines => exact defines.binds holds (carries.binds binds)

namespace Engine

theorem leads_of_perform {program : Program} {instruction : Instruction} {before after : Machine}
    {flow : Flow} (performed : perform program instruction before = .ok flow after) :
    Leads program instruction before after flow := by
  unfold perform at performed
  cases action : instruction.opcode.action with
  | ifTrue =>
      rw [action] at performed
      obtain ⟨taken, popped, pops, rest⟩ := bind_eq_ok_iff.mp performed
      have carries := popTruth_safe.of_ok pops
      cases taken with
      | true =>
          cases rest
          exact .onward (by rw [action]; rfl) carries
      | false =>
          obtain ⟨target, between, accepted, finish⟩ := bind_eq_ok_iff.mp rest
          obtain ⟨found, rfl⟩ := accept_eq_ok_iff.mp accepted
          cases finish
          exact .skip true action found carries
  | elseBranch =>
      rw [action] at performed
      obtain ⟨target, between, accepted, finish⟩ := bind_eq_ok_iff.mp performed
      obtain ⟨found, rfl⟩ := accept_eq_ok_iff.mp accepted
      cases finish
      exact .skip false action found (.refl _)
  | endIf =>
      rw [action] at performed
      cases performed
      exact .onward (by rw [action]; rfl) (.refl _)
  | jump =>
      rw [action] at performed
      obtain ⟨distance, popped, pops, rest⟩ := bind_eq_ok_iff.mp performed
      obtain ⟨target, between, accepted, finish⟩ := bind_eq_ok_iff.mp rest
      obtain ⟨found, rfl⟩ := accept_eq_ok_iff.mp accepted
      cases finish
      exact .jump (by rw [action]; rfl) found (pop_safe.of_ok pops)
  | jumpWhen condition =>
      rw [action] at performed
      obtain ⟨given, between, popsTruth, rest⟩ := bind_eq_ok_iff.mp performed
      obtain ⟨distance, popped, pops, rest⟩ := bind_eq_ok_iff.mp rest
      have carries := (popTruth_safe.of_ok popsTruth).trans (pop_safe.of_ok pops)
      by_cases jumps : given = condition
      · rw [if_pos jumps] at rest
        obtain ⟨target, last, accepted, finish⟩ := bind_eq_ok_iff.mp rest
        obtain ⟨found, rfl⟩ := accept_eq_ok_iff.mp accepted
        cases finish
        exact .jump (by rw [action]; rfl) found carries
      · rw [if_neg jumps] at rest
        cases rest
        exact .onward (by rw [action]; rfl) carries
  | defineFunction =>
      rw [action] at performed
      obtain ⟨index, popped, pops, rest⟩ := bind_eq_ok_iff.mp performed
      obtain ⟨_, defined, defines, rest⟩ := bind_eq_ok_iff.mp rest
      obtain ⟨target, between, accepted, finish⟩ := bind_eq_ok_iff.mp rest
      obtain ⟨found, rfl⟩ := accept_eq_ok_iff.mp accepted
      cases finish
      exact .define action found (pop_safe.of_ok pops) (define_of_ok defines)
  | endFunction =>
      rw [action] at performed
      cases performed
      exact .leave action rfl
  | call =>
      rw [action] at performed
      obtain ⟨index, popped, pops, rest⟩ := bind_eq_ok_iff.mp performed
      obtain ⟨function, between, found, finish⟩ := bind_eq_ok_iff.mp rest
      obtain ⟨rfl, bound⟩ := lookup_of_ok found
      have carries := pop_safe.of_ok pops
      cases finish
      rw [carries.functions] at bound
      exact .enter (.inl action) bound carries
  | loopCall =>
      rw [action] at performed
      obtain ⟨index, first, popsIndex, rest⟩ := bind_eq_ok_iff.mp performed
      obtain ⟨count, popped, pops, rest⟩ := bind_eq_ok_iff.mp rest
      have carries := (pop_safe.of_ok popsIndex).trans (pop_safe.of_ok pops)
      by_cases positive : 0 < count
      · rw [if_pos positive] at rest
        obtain ⟨function, between, found, finish⟩ := bind_eq_ok_iff.mp rest
        obtain ⟨rfl, bound⟩ := lookup_of_ok found
        cases finish
        rw [carries.functions] at bound
        exact .enter (.inr action) bound carries
      · rw [if_neg positive] at rest
        cases rest
        exact .onward (by rw [action]; rfl) carries
  | defineInstruction =>
      rw [action] at performed
      obtain ⟨_, between, transformed, _⟩ := bind_eq_ok_iff.mp performed
      unfold transform at transformed
      rw [action] at transformed
      cases transformed
  | _ =>
      rw [action] at performed
      obtain ⟨_, between, transformed, finish⟩ := bind_eq_ok_iff.mp performed
      cases finish
      exact .onward (by rw [action]; rfl)
        ((transform_safe program instruction).of_ok transformed)

/-- Work that only operands can make fail. -/
theorem Safe.fails {work : Engine α} (safe : Safe work) {program : Program}
    {instruction : Instruction} {before after : Machine} {failure : FontError}
    (failed : work before = .error failure after) :
    Fails program instruction before after failure := by
  obtain ⟨carries, concerns⟩ := safe.of_error failed
  exact .operands concerns carries

/-- Skipping fails when the end of the block is not found. -/
theorem fails_of_skip {program : Program} {instruction : Instruction} (atElse : Bool)
    {before between after : Machine} {failure : FontError}
    (action : instruction.opcode.action = if atElse then .ifTrue else .elseBranch)
    (carries : before.Carries between)
    (failed : (accept (Program.blockEnd program.code instruction.next atElse) >>= fun target =>
      pure (Flow.goto target)) between = .error failure after) :
    Fails program instruction before after failure := by
  obtain ⟨missing, rfl⟩ := accept_eq_error_iff.mp (error_of_bind_pure failed)
  exact .skip atElse action missing carries

theorem fails_of_perform {program : Program} {instruction : Instruction} {before after : Machine}
    {failure : FontError} (performed : perform program instruction before = .error failure after) :
    Fails program instruction before after failure := by
  have jumpTarget_safe (distance : Int32) :
      Safe (accept (Program.jumpTarget program.code instruction.offset distance)) :=
    Safe.accept fun _ => jumpTarget_error
  unfold perform at performed
  cases action : instruction.opcode.action with
  | ifTrue =>
      rw [action] at performed
      rcases bind_eq_error_iff.mp performed with failed | ⟨taken, popped, pops, rest⟩
      · exact popTruth_safe.fails failed
      · cases taken with
        | true => cases rest
        | false => exact fails_of_skip true action (popTruth_safe.of_ok pops) rest
  | elseBranch =>
      rw [action] at performed
      exact fails_of_skip false action (.refl _) performed
  | endIf =>
      rw [action] at performed
      cases performed
  | jump =>
      rw [action] at performed
      exact (pop_safe.bind fun distance => (jumpTarget_safe distance).bind fun _ =>
        .pure _).fails performed
  | jumpWhen condition =>
      rw [action] at performed
      exact (popTruth_safe.bind fun _ => pop_safe.bind fun distance =>
        .ite (fun _ => (jumpTarget_safe distance).bind fun _ => .pure _) fun _ =>
          .pure _).fails performed
  | defineFunction =>
      rw [action] at performed
      rcases bind_eq_error_iff.mp performed with failed | ⟨index, popped, pops, rest⟩
      · exact pop_safe.fails failed
      · have carries := pop_safe.of_ok pops
        rcases bind_eq_error_iff.mp rest with failed | ⟨_, defined, defines, rest⟩
        · obtain ⟨last, concerns⟩ := define_of_error failed
          exact .operands concerns (carries.trans last)
        · obtain ⟨missing, rfl⟩ := accept_eq_error_iff.mp (error_of_bind_pure rest)
          exact .define action missing carries (define_of_ok defines)
  | endFunction =>
      rw [action] at performed
      cases performed
  | call =>
      rw [action] at performed
      exact (pop_safe.bind fun index => (lookup_safe index).bind fun _ => .pure _).fails performed
  | loopCall =>
      rw [action] at performed
      exact (pop_safe.bind fun index => pop_safe.bind fun _ =>
        .ite (fun _ => (lookup_safe index).bind fun _ => .pure _) fun _ =>
          .pure _).fails performed
  | _ =>
      rw [action] at performed
      exact ((transform_safe program instruction).bind fun _ => .pure _).fails performed

end Engine

end OutlineFont.Hinting
