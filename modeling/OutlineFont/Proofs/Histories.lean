import OutlineFont.Proofs.Rounds

/-!
# Programs that run one after the other

A machine is shared by all programs of a session, and a program may fail after
any of its instructions.  Whatever programs have run, and however they ended,
the machine has the sizes that it was made with, its stack and its settings are
within their bounds, and every function that was once bound is still bound to the
same place, which lies in its program.
-/

namespace OutlineFont.Hinting

/-- A function that starts in its program, or right behind it. -/
def Function.InBounds (function : Function) : Prop :=
  function.start ≤ function.program.code.size

/-- What is bound while a program runs starts behind an instruction of that program. -/
theorem Machine.kept_inBounds : Machine.Kept fun machine => machine.Binds Function.InBounds where
  leads decoded leads := leads.binds (Instruction.decode_spec decoded).2
  fails decoded fails := fails.binds (Instruction.decode_spec decoded).2

/-- A machine of the sizes of `origin`, with its stack and its settings within their bounds. -/
structure Machine.Regular (origin machine : Machine) : Prop where
  depth : machine.stack.items.length ≤ 65536
  controls : machine.controls.size = origin.controls.size
  storage : machine.storage.size = origin.storage.size
  slots : machine.functions.size = origin.functions.size
  twilight : machine.twilight.size = origin.twilight.size
  ppem : machine.ppem = origin.ppem
  starts : ∀ function, some function ∈ machine.functions →
    function.start ≤ function.program.code.size
  deltaShift : machine.graphics.deltaShift ≤ 6
  loopCount : 1 ≤ machine.graphics.loopCount
  instructionControl : machine.graphics.instructionControl.toNat < 8
  projection : machine.graphics.projection = .ofAxis .x ∨ machine.graphics.projection = .ofAxis .y
  freedom : machine.graphics.freedom = .ofAxis .x ∨ machine.graphics.freedom = .ofAxis .y

theorem UnitVector.eq_ofAxis_or {vector : UnitVector} (along : ∃ axis, vector = .ofAxis axis) :
    vector = .ofAxis .x ∨ vector = .ofAxis .y := by
  obtain ⟨axis, same⟩ := along
  cases axis with
  | x => exact .inl same
  | y => exact .inr same

theorem Machine.Evolves.regular {origin machine : Machine} (evolves : origin.Evolves machine)
    (settled : origin.Settled) (starts : machine.Binds Function.InBounds) :
    origin.Regular machine := by
  obtain ⟨depth, graphics⟩ := evolves.settled settled
  refine ⟨?_, evolves.controls, evolves.storage, evolves.slots, ?_, evolves.ppem, starts,
    graphics.deltaShift, graphics.loopCount, graphics.instructionControl,
    UnitVector.eq_ofAxis_or graphics.projection, UnitVector.eq_ofAxis_or graphics.freedom⟩
  · rw [← machine.stack.depth_eq]
    exact depth
  · rw [evolves.twilight]

namespace Session

/-- Run programs one after the other, whether they fail or not. -/
def runAll (session : Session) (programs : List Program) : Session :=
  programs.foldl (fun session program => (session.run program).session) session

/-- The machines that there are while programs run one after the other. -/
inductive Passes : Session → List Program → Machine → Prop where
  | start (session : Session) (programs : List Program) :
      Passes session programs session.machine
  | during {session : Session} {program : Program} {running : Running} (later : List Program)
      (valid : Program.validate program.code = .ok ())
      (reaches : (Running.mk session (.start program)).Reaches running) :
      Passes session (program :: later) running.session.machine
  | later {session : Session} {program : Program} {rest : List Program} {machine : Machine}
      (passes : Passes (session.run program).session rest machine) :
      Passes session (program :: rest) machine

theorem runAll_keeps {property : Machine → Prop} (kept : Machine.Kept property)
    {session : Session} (programs : List Program) (holds : property session.machine) :
    property (session.runAll programs).machine := by
  induction programs generalizing session with
  | nil => exact holds
  | cons program rest ih => exact ih (runNoting_keeps kept .silent program holds)

/-- The machine in the end has come of every machine that there was on the way. -/
theorem Passes.evolves {session : Session} {programs : List Program} {machine : Machine}
    (passes : session.Passes programs machine) :
    machine.Evolves (session.runAll programs).machine := by
  induction passes with
  | start session programs =>
      exact runAll_keeps (Machine.kept_evolves _) programs (.refl _)
  | @during session program _ later valid reaches =>
      have ends := reaches.ends (runNoting_ends valid .silent session)
      exact runAll_keeps (Machine.kept_evolves _) later ends.evolves
  | later _ ih => exact ih

/--
After any programs, failed ones included, a machine has its sizes and is within
its bounds, and what was bound at any time before is still bound to the same.
-/
theorem runAll_regular {profile : MaximumProfile} {controlValues : List Int16}
    {unitsPerEm : UInt16} {gridSize : Nat} {session : Session}
    (created : create profile controlValues unitsPerEm gridSize = .ok session)
    (programs : List Program) :
    session.machine.Regular (session.runAll programs).machine ∧
    ∀ machine, session.Passes programs machine →
      ∀ (index : Nat) (function : Function), machine.functions[index]? = some (some function) →
        (session.runAll programs).machine.functions[index]? = some (some function) := by
  obtain ⟨settled, _, unbound⟩ := create_machine created
  constructor
  · have evolves := (Passes.start session programs).evolves
    refine evolves.regular settled (runAll_keeps Machine.kept_inBounds programs ?_)
    intro function bound
    exact absurd bound (unbound function)
  · intro machine passes index function bound
    exact passes.evolves.functions index function bound

/--
The first program binds a function and fails behind it; the second one tries to
bind the function again.
-/
theorem runAll_regular_definedTwice :
    ∃ session, create ⟨1, 0, 0, 1, 8⟩ [] 1000 20 = .ok session ∧
      let first : Program := ⟨.font, #[0xB0, 0, 0x2C, 0x2D, 0x21]⟩
      let programs := [first, ⟨.controlValue, #[0xB0, 0, 0x2C, 0x21, 0x2D]⟩]
      session.machine.Regular (session.runAll programs).machine ∧
        (session.runAll programs).machine.functions[0]? = some (some ⟨first, 3⟩) := by
  have created : ∃ session, create ⟨1, 0, 0, 1, 8⟩ [] 1000 20 = .ok session := ⟨_, rfl⟩
  obtain ⟨session, created⟩ := created
  refine ⟨session, created, ?_⟩
  intro first programs
  obtain ⟨regular, bound⟩ := runAll_regular created programs
  refine ⟨regular, bound _ (.later (.start _ _)) 0 ⟨first, 3⟩ ?_⟩
  cases created
  decide +kernel

end Session

end OutlineFont.Hinting
