import OutlineFont.Hinting.Brackets
import OutlineFont.Hinting.Delta

/-!
# Single instructions

What one instruction does to the machine, and where the program goes on after
it.  Operands are popped before anything can fail because of them, so a failed
instruction may leave a shorter stack.
-/

namespace OutlineFont.Hinting

/-- Where a program goes on after an instruction. -/
inductive Flow where
  /-- At an offset of the same program. -/
  | goto (offset : Nat)
  /-- In a function, which is run `extra` times more, and then at an offset. -/
  | enter (function : Function) (extra resume : Nat)
  /-- Where the function was called. -/
  | leave
  deriving DecidableEq

/-- The version that programs are told. -/
def engineVersion : Int32 := 35

/-- The numbers in the data of a push instruction; words carry a sign. -/
def pushedNumbers : PushWidth → List UInt8 → List Int32
  | .byte, operands => operands.map fun byte => Int32.ofNat byte.toNat
  | .word, high :: low :: rest =>
      (Int16.ofNat (bigEndian [high, low])).toInt32 :: pushedNumbers .word rest
  | .word, _ => []

/-- The result of arithmetic; products and quotients count in sixty-fourths. -/
def Arithmetic.compute (operation : Arithmetic) (a b : Int32) : Except HintingFault Int32 :=
  match operation with
  | .add => .ok (a + b)
  | .subtract => .ok (a - b)
  | .divide =>
      if b = 0 then
        .error .divisionByZero
      else
        .ok (Int32.ofInt ((a.toInt * 64).tdiv b.toInt))
  | .multiply => .ok (Int32.ofInt ((a.toInt * b.toInt).tdiv 64))
  | .maximum => .ok (if a ≤ b then b else a)
  | .minimum => .ok (if a ≤ b then a else b)

/-- The result of a function of one distance, under a round state. -/
def DistanceMap.compute (operation : DistanceMap) (state : Rounding) (value : Fixed) : Fixed :=
  match operation with
  | .magnitude => value.abs
  | .negate => -value
  | .floor => value.floor
  | .ceiling => value.ceil
  | .round => state.round value .zero

namespace Engine

/-- Set the repeat count of point instructions, which must be positive. -/
def setLoop : Engine Unit := do
  let count ← pop
  if count ≤ 0 then
    fail (.loopCount count)
  changeGraphics fun state => { state with loopCount := count.toInt.toNat }

/-- Set the step exponent of delta exceptions, which is at most six. -/
def setDeltaShift : Engine Unit := do
  let shift ← popUnsigned
  if 6 < shift then
    fail (.deltaShift shift)
  changeGraphics fun state => { state with deltaShift := shift.toNat }

/-- Set when dropouts are filled. -/
def setScanControl : Engine Unit := do
  let flags ← popUnsigned
  let machine ← get
  let graphics ← accept (machine.graphics.setScanControl flags machine.ppem)
  changeGraphics fun _ => graphics

/-- Set or clear a flag of the instruction control; only control value programs may. -/
def setInstructionControl (kind : ProgramKind) : Engine Unit := do
  let selector ← pop
  let value ← pop
  if selector < 1 ∨ 3 < selector then
    fail (.controlSelector selector)
  if kind = .controlValue then
    changeGraphics fun state =>
      state.setInstructionControl selector.toInt.toNat (value != 0)

/-- Pop a control value index and a point, and make the point the reference. -/
def moveToControl : Engine Unit := do
  let index ← pop
  let point ← popUnsigned
  let _ ← readControl index
  let machine ← get
  let count := (machine.zone machine.graphics.firstZone).size
  if count ≤ point.toNat then
    throw (.outOfRange .point point.toNat count)
  changeGraphics fun state => state.setFirstReferences point

/-- Carry out an instruction that does not change where the program goes on. -/
def transform (program : Program) (instruction : Instruction) : Engine Unit :=
  match instruction.opcode.action with
  | .setVectors choice axis => changeGraphics fun state => state.setVectors choice axis
  | .setReference index => do
      let point ← popUnsigned
      changeGraphics fun state => { state with references := state.references.set index point }
  | .setZone index => do
      let zone ← accept (Zone.ofNumber (← pop))
      changeGraphics fun state => { state with zones := state.zones.set index zone }
  | .setZones => do
      let zone ← accept (Zone.ofNumber (← pop))
      changeGraphics fun state => { state with zones := Vector.replicate 3 zone }
  | .setLoop => setLoop
  | .setRounding rounding => changeGraphics fun state => { state with rounding := rounding }
  | .setMinimumDistance => do
      let distance ← popDistance
      changeGraphics fun state => { state with minimumDistance := distance }
  | .setControlCutIn => do
      let distance ← popDistance
      changeGraphics fun state => { state with controlCutIn := distance }
  | .setWidthCutIn => do
      let distance ← popDistance
      changeGraphics fun state => { state with widthCutIn := distance }
  | .setWidth => do
      let distance := (← get).scale (← pop)
      changeGraphics fun state => { state with width := distance }
  | .setAutoFlip on => changeGraphics fun state => { state with autoFlip := on }
  | .setDeltaBase => do
      let base ← popUnsigned
      changeGraphics fun state => { state with deltaBase := base }
  | .setDeltaShift => setDeltaShift
  | .setScanControl => setScanControl
  | .setScanType => do
      let scanType ← pop
      changeGraphics fun state => { state with scanType := scanType }
  | .setInstructionControl => setInstructionControl program.kind
  | .getInformation => do
      let request ← pop
      push (if request &&& 1 != 0 then engineVersion else 0)
  | .duplicate => do push (← peek)
  | .discard => do let _ ← pop
  | .clear => modify fun machine => { machine with stack := .empty }
  | .swap => rearrange Stack.swap
  | .depth => do push (Int32.ofNat (← get).stack.depth)
  | .copyIndexed => do
      let position ← pop
      rearrange fun stack => stack.copyToTop position
  | .moveIndexed => do
      let position ← pop
      rearrange fun stack => stack.moveToTop position
  | .roll => rearrange Stack.roll
  | .push width _ => pushAll (pushedNumbers width instruction.operands)
  | .writeStorage => do
      let value ← pop
      let index ← pop
      writeStorage index value
  | .readStorage => do push (← readStorage (← pop))
  | .writeControl => do
      let distance ← popDistance
      let index ← pop
      changeControl index fun _ => distance
  | .writeScaledControl => do
      let length ← pop
      let index ← pop
      let distance := (← get).scale length
      changeControl index fun _ => distance
  | .readControl => do push (← readControl (← pop)).bits
  | .pixelsPerEm => do push (Int32.ofNat (← get).ppem)
  | .compare test => do
      let second ← pop
      let first ← pop
      pushTruth (test.holds first second)
  | .negateLogical => do pushTruth (!(← popTruth))
  | .parity odd => do
      let distance ← popDistance
      let rounded := (← get).graphics.rounding.round distance .zero
      pushTruth ((rounded.toPixels % 2 == 1) == odd)
  | .combine operation => do
      let second ← pop
      let first ← pop
      push (← accept ((operation.compute first second).mapError .hinting))
  | .mapDistance operation => do
      let distance ← popDistance
      push (operation.compute (← get).graphics.rounding distance).bits
  | .inspect => do let _ ← peek
  | .deltaControl bias => do
      let count ← popUnsigned
      applyDeltas bias count.toNat
  | .moveToControl => moveToControl
  | .unknown => fail (.unknownOpcode instruction.opcode.byte instruction.offset)
  | _ => throw (.unimplemented instruction.opcode instruction.offset)

def perform (program : Program) (instruction : Instruction) : Engine Flow :=
  match instruction.opcode.action with
  | .ifTrue => do
      if ← popTruth then
        return .goto instruction.next
      else
        return .goto (← accept (Program.blockEnd program.code instruction.next true))
  | .elseBranch => do
      return .goto (← accept (Program.blockEnd program.code instruction.next false))
  | .endIf => return .goto instruction.next
  | .jump => do
      let distance ← pop
      return .goto (← accept (Program.jumpTarget program.code instruction.offset distance))
  | .jumpWhen condition => do
      let given ← popTruth
      let distance ← pop
      if given = condition then
        return .goto (← accept (Program.jumpTarget program.code instruction.offset distance))
      else
        return .goto instruction.next
  | .defineFunction => do
      define (← pop) ⟨program, instruction.next⟩
      return .goto (← accept (Program.functionEnd program.code instruction.next))
  | .endFunction => return .leave
  | .call => do
      let function ← lookup (← pop)
      return .enter function 0 instruction.next
  | .loopCall => do
      let index ← pop
      let count ← pop
      if 0 < count then
        return .enter (← lookup index) (count.toInt.toNat - 1) instruction.next
      else
        return .goto instruction.next
  | _ => do
      transform program instruction
      return .goto instruction.next

end Engine

end OutlineFont.Hinting
