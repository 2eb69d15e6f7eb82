import OutlineFont.Hinting.Perform

/-!
# Running programs

A session runs programs one after the other on one machine and counts the
instructions of all of them.  A run is a sequence of steps; calls in progress
are kept in a list, so a step is a function of plain values.  Three bounds end
every run: the count of instructions, the number of calls in progress, and the
size of the stack.
-/

namespace OutlineFont.Hinting

/-- The greatest number of instructions of a session. -/
def instructionLimit : Nat := 1000000

/-- The greatest number of calls in progress. -/
def callLimit : Nat := 64

/-- The engine version, limits and sizes that are worth a note while programs run. -/
inductive Notice where
  /-- A font declares more storage than is provided. -/
  | storageReduced (requested : Nat)
  /-- A font declares more functions than are provided. -/
  | functionsReduced (requested : Nat)
  /-- A program has been checked and starts. -/
  | executing (kind : ProgramKind) (size ppem : Nat)
  /-- An instruction is about to be carried out. -/
  | step (kind : ProgramKind) (offset : Nat) (opcode : Opcode) (depth : Nat)
  /-- A font or glyph program tried to change the instruction control. -/
  | controlIgnored
  /-- A delta exception applies. -/
  | controlAdjusted (index : Int32) (amount : Int) (ppem : Nat)
  /-- A point became the reference but was not moved. -/
  | pointKept (offset : Nat) (point : UInt32) (zone : Zone)
  /-- The control value program inhibited the glyph program. -/
  | glyphProgramInhibited
  deriving DecidableEq, Repr

instance : Notable Notice where
  level
    | .storageReduced _ | .functionsReduced _ | .pointKept _ _ _ => .warn
    | .executing _ _ _ | .controlIgnored | .controlAdjusted _ _ _ | .glyphProgramInhibited => .debug
    | .step _ _ _ _ => .trace
  message
    | .storageReduced requested =>
        s!"Font needs {requested} storage areas, but we won't reserve more than {reservationLimit}"
    | .functionsReduced requested =>
        s!"Font needs {requested} function definitions, but we won't reserve more than " ++
          s!"{reservationLimit}"
    | .executing kind size ppem =>
        s!"Executing {kind.name} program ({size} bytes) at {ppem} ppem"
    | .step kind offset opcode depth =>
        s!"{kind.name}@{offset}: {opcode.mnemonic} (stack depth {depth})"
    | .controlIgnored => "Ignoring INSTCTRL outside of the control value program"
    | .controlAdjusted index amount ppem =>
        s!"Adjusting cvt[{index.toInt}] by {amount}/64 at {ppem} ppem"
    | .pointKept offset point zone =>
        s!"MIAP at offset {offset} does not move point {point.toNat} in the {zone.name} zone, " ++
          "positioning is not applied"
    | .glyphProgramInhibited => "Glyph program is inhibited by the control value program"

namespace Notice

/-- What is worth a note when a machine is set up. -/
def ofProfile (profile : MaximumProfile) : List Notice :=
  (if reservationLimit < profile.storage.toNat then
    [.storageReduced profile.storage.toNat] else []) ++
  (if reservationLimit < profile.functions.toNat then
    [.functionsReduced profile.functions.toNat] else [])

/--
What is worth a note about an instruction, from the stack before it, the
machine after it and whether it succeeded.  Every exception that was examined
and meant for this size is noted, also one that failed.
-/
def ofInstruction (program : Program) (instruction : Instruction) (before : Stack)
    (after : Machine) (succeeded : Bool) : List Notice :=
  match instruction.opcode.action with
  | .setInstructionControl =>
      if succeeded && program.kind != .controlValue then [.controlIgnored] else []
  | .moveToControl =>
      if succeeded then
        [.pointKept instruction.offset after.graphics.firstReference after.graphics.firstZone]
      else
        []
  | .deltaControl bias =>
      let examined := DeltaPair.ofItems ((before.depth - 1 - after.stack.depth) / 2)
        (before.items.drop 1)
      (examined.filter (after.meets bias)).map fun pair =>
        .controlAdjusted pair.index (pair.adjustment after.graphics.deltaShift) after.ppem
  | _ => []

end Notice

/-- A call in progress. -/
structure Frame where
  /-- The program that called. -/
  caller : Program
  /-- Where it goes on. -/
  resume : Nat
  function : Function
  /-- How often the function is still to be run after this time. -/
  extra : Nat
  deriving DecidableEq

/-- The place of the next instruction, with the calls in progress, innermost first. -/
structure Place where
  program : Program
  offset : Nat
  frames : List Frame
  deriving DecidableEq

namespace Place

def start (program : Program) : Place :=
  ⟨program, 0, []⟩

/-- Whether the program has no instruction at a place. -/
def atEnd (place : Place) : Bool :=
  place.program.code.size ≤ place.offset

/-- The end of a program ends the run, unless a function is in progress. -/
def finish (place : Place) : Except FontError Unit :=
  match place.frames with
  | [] => .ok ()
  | _ :: _ => .error (.hinting .bodyRunsPastEnd)

/-- The next place after the instruction at a place. -/
def follow (place : Place) : Flow → Except FontError Place
  | .goto offset => .ok { place with offset := offset }
  | .enter function extra resume =>
      if place.frames.length < callLimit then
        .ok ⟨function.program, function.start,
          ⟨place.program, resume, function, extra⟩ :: place.frames⟩
      else
        .error (.hinting (.callDepth callLimit))
  | .leave =>
      match place.frames with
      | [] => .error (.hinting (.endOutsideFunction place.offset))
      | frame :: outer =>
          match frame.extra with
          | 0 => .ok ⟨frame.caller, frame.resume, outer⟩
          | extra + 1 =>
              .ok { place with
                offset := frame.function.start
                frames := { frame with extra := extra } :: outer }

end Place

/-- A machine with the number of instructions that it has carried out. -/
structure Session where
  machine : Machine
  executed : Nat
  deriving Inhabited

/-- What a run leaves behind. -/
structure Finish where
  session : Session
  journal : Journal Notice
  outcome : Except FontError Unit

namespace Session

def create (profile : MaximumProfile) (controlValues : List Int16) (unitsPerEm : UInt16)
    (gridSize : Nat) : Except FontError Session :=
  (Machine.create profile controlValues unitsPerEm gridSize).map fun machine => ⟨machine, 0⟩

/-- A session on a new machine, with a journal of what is worth a note about its size. -/
def createNoting (threshold : Option Level) (profile : MaximumProfile)
    (controlValues : List Int16) (unitsPerEm : UInt16) (gridSize : Nat) :
    Except FontError (Session × Journal Notice) :=
  (create profile controlValues unitsPerEm gridSize).map fun session =>
    (session, (Journal.opened threshold).recordAll (Notice.ofProfile profile))

/--
Carry out instructions from a place on, at most `budget` of them.  One more
counts as carried out and fails.
-/
def drive (journal : Journal Notice) : Session → Place → (budget : Nat) → Finish
  | session, place, 0 =>
      if place.atEnd then
        ⟨session, journal, place.finish⟩
      else
        ⟨⟨session.machine, session.executed + 1⟩, journal,
          .error (.hinting (.instructionLimit instructionLimit))⟩
  | ⟨machine, executed⟩, place, budget + 1 =>
      if place.atEnd then
        ⟨⟨machine, executed⟩, journal, place.finish⟩
      else
        match Instruction.decode place.program.code place.offset with
        | .error failure => ⟨⟨machine, executed + 1⟩, journal, .error failure⟩
        | .ok instruction =>
            let before := machine.stack
            let journal := journal.record
              (.step place.program.kind instruction.offset instruction.opcode before.depth)
            match Engine.perform place.program instruction machine with
            | .error failure machine =>
                ⟨⟨machine, executed + 1⟩,
                  journal.recordAll
                    (Notice.ofInstruction place.program instruction before machine false),
                  .error failure⟩
            | .ok flow machine =>
                let journal := journal.recordAll
                  (Notice.ofInstruction place.program instruction before machine true)
                match place.follow flow with
                | .error failure => ⟨⟨machine, executed + 1⟩, journal, .error failure⟩
                | .ok place => drive journal ⟨machine, executed + 1⟩ place budget

/-- Check a program and run it.  An empty program does nothing and is not checked. -/
def runNoting (journal : Journal Notice) (session : Session) (program : Program) : Finish :=
  if program.code.isEmpty then
    ⟨session, journal, .ok ()⟩
  else
    match Program.validate program.code with
    | .error failure => ⟨session, journal, .error failure⟩
    | .ok () =>
        drive
          (journal.record (.executing program.kind program.code.size session.machine.ppem))
          session (.start program) (instructionLimit - session.executed)

/-- Check a program and run it without taking notes. -/
def run (session : Session) (program : Program) : Finish :=
  session.runNoting .silent program

end Session

end OutlineFont.Hinting
