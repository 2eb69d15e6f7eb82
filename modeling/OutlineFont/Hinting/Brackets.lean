import OutlineFont.Hinting.Instruction

/-!
# Blocks and definitions

Conditional blocks and definitions bracket the instructions of a program.  A
program is checked once, before any of it runs; a running program then finds
the end of a block or of a definition by looking ahead.
-/

namespace OutlineFont.Hinting

/-- A bracket that is open, with the offset of the instruction that opened it. -/
inductive Bracket where
  | conditional (opened : Nat) (otherwise : Bool)
  | definition (opened : Nat)
  deriving DecidableEq, Repr

namespace Bracket

/-- The offset of the open definition, of which there is at most one. -/
def openDefinition? (brackets : List Bracket) : Option Nat :=
  brackets.findSome? fun
    | .conditional _ _ => none
    | .definition opened => some opened

/--
The open brackets, innermost first, after one more instruction.  A definition
hides the blocks around it, so a branch or an end inside it cannot belong to
them.
-/
def step (brackets : List Bracket) (instruction : Instruction) :
    Except HintingFault (List Bracket) :=
  let offset := instruction.offset
  match instruction.opcode.action with
  | .ifTrue => .ok (.conditional offset false :: brackets)
  | .elseBranch =>
      match brackets with
      | .conditional opened false :: outer => .ok (.conditional opened true :: outer)
      | .conditional opened true :: _ => .error (.secondElse offset opened)
      | _ => .error (.strayElse offset)
  | .endIf =>
      match brackets with
      | .conditional _ _ :: outer => .ok outer
      | _ => .error (.strayEndIf offset)
  | .defineFunction | .defineInstruction =>
      match openDefinition? brackets with
      | none => .ok (.definition offset :: brackets)
      | some opened => .error (.nestedDefinition instruction.opcode offset opened)
  | .endFunction =>
      match brackets, openDefinition? brackets with
      | .definition _ :: outer, _ => .ok outer
      | _, some opened => .error (.definitionEndsInBlock opened)
      | _, none => .error (.strayEndFunction offset)
  | _ => .ok brackets

/-- Nothing may be open at the end; an open definition is reported before a block. -/
def finish (brackets : List Bracket) : Except HintingFault Unit :=
  match openDefinition? brackets, brackets with
  | some opened, _ => .error (.unclosedDefinition opened)
  | none, .conditional opened _ :: _ => .error (.unclosedIf opened)
  | none, _ => .ok ()

end Bracket

namespace Program

/-- Read a whole program and check that its blocks and definitions are closed. -/
def validate (code : Bytes) : Except FontError Unit := do
  let brackets ← (instructionsFrom code 0).foldlM
    (fun brackets item => do (Bracket.step brackets (← item)).mapError .hinting) []
  (Bracket.finish brackets).mapError .hinting

/--
The offset after the instruction that ends the running block: its end, or its
other branch when `atElse` is set.  Blocks in between are passed over.
-/
def blockEnd (code : Bytes) (start : Nat) (atElse : Bool) : Except FontError Nat := do
  let visit (depth : Nat) (instruction : Instruction) : Nat ⊕ Nat :=
    match instruction.opcode.action with
    | .ifTrue => .inl (depth + 1)
    | .elseBranch => if depth = 0 ∧ atElse then .inr instruction.next else .inl depth
    | .endIf => if depth = 0 then .inr instruction.next else .inl (depth - 1)
    | _ => .inl depth
  match ← searchFrom code visit start 0 with
  | some offset => .ok offset
  | none => .error (.hinting (.unclosedBlock start))

/-- The offset after the instruction that ends the definition around `start`. -/
def functionEnd (code : Bytes) (start : Nat) : Except FontError Nat := do
  let visit (_ : Unit) (instruction : Instruction) : Unit ⊕ Nat :=
    if instruction.opcode.action = .endFunction then .inr instruction.next else .inl ()
  match ← searchFrom code visit start () with
  | some offset => .ok offset
  | none => .error (.hinting (.unclosedFunction start))

/-- The place that a jump from `offset` leads to, which may be the end of the program. -/
def jumpTarget (code : Bytes) (offset : Nat) (distance : Int32) : Except FontError Nat :=
  let target := (offset : Int) + distance.toInt
  if 0 ≤ target ∧ target ≤ code.size then
    .ok target.toNat
  else
    .error (.hinting (.jumpLeaves offset distance))

end Program

end OutlineFont.Hinting
