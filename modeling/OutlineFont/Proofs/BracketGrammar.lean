import OutlineFont.Proofs.Decoding
import OutlineFont.Proofs.Sequencing

/-!
# The grammar of blocks and definitions

Validation keeps a list of open brackets and looks at one instruction after the
other.  What it accepts is a recursive grammar: blocks with at most one other
branch, which may be nested, and definitions, which may stand in blocks but not
in definitions.  The middle term is the rest of a program, which closes the
brackets that are still open, innermost first.
-/

namespace OutlineFont.Hinting

/-- Whether an action opens, divides or closes a block or a definition. -/
def Action.isBracket : Action → Bool
  | .ifTrue | .elseBranch | .endIf | .defineFunction | .defineInstruction | .endFunction => true
  | _ => false

def Action.opensDefinition (action : Action) : Prop :=
  action = .defineFunction ∨ action = .defineInstruction

/-- Where instructions stand: a definition may start in a program, but not in a definition. -/
inductive Scope where
  | program
  | definition
  deriving DecidableEq, Repr

/-- The sequences of instructions in which every bracket that is opened is closed. -/
inductive Balanced : Scope → List Instruction → Prop where
  | nil {scope : Scope} : Balanced scope []
  | plain {scope : Scope} {instruction : Instruction} {rest : List Instruction}
      (plain : instruction.opcode.action.isBracket = false) (after : Balanced scope rest) :
      Balanced scope (instruction :: rest)
  | block {scope : Scope} {opening closing : Instruction} {body rest : List Instruction}
      (opens : opening.opcode.action = .ifTrue) (inner : Balanced scope body)
      (closes : closing.opcode.action = .endIf) (after : Balanced scope rest) :
      Balanced scope (opening :: (body ++ closing :: rest))
  | branches {scope : Scope} {opening dividing closing : Instruction}
      {first second rest : List Instruction}
      (opens : opening.opcode.action = .ifTrue) (whenTrue : Balanced scope first)
      (divides : dividing.opcode.action = .elseBranch) (otherwise : Balanced scope second)
      (closes : closing.opcode.action = .endIf) (after : Balanced scope rest) :
      Balanced scope (opening :: (first ++ dividing :: (second ++ closing :: rest)))
  | definition {opening closing : Instruction} {body rest : List Instruction}
      (opens : opening.opcode.action.opensDefinition) (inner : Balanced .definition body)
      (closes : closing.opcode.action = .endFunction) (after : Balanced .program rest) :
      Balanced .program (opening :: (body ++ closing :: rest))

theorem Balanced.append {scope : Scope} {first second : List Instruction}
    (left : Balanced scope first) (right : Balanced scope second) :
    Balanced scope (first ++ second) := by
  induction left with
  | nil => exact right
  | plain plain _ ih => exact .plain plain (ih right)
  | block opens inner closes _ _ ih =>
      simpa only [List.cons_append, List.append_assoc] using .block opens inner closes (ih right)
  | branches opens whenTrue divides otherwise closes _ _ _ ih =>
      simpa only [List.cons_append, List.append_assoc] using
        .branches opens whenTrue divides otherwise closes (ih right)
  | definition opens inner closes _ _ ih =>
      simpa only [List.cons_append, List.append_assoc] using
        .definition opens inner closes (ih right)

namespace Bracket

/-- How one instruction changes the open brackets, when it may stand where it does. -/
inductive Moves (instruction : Instruction) : List Bracket → List Bracket → Prop where
  | plain {brackets : List Bracket} (plain : instruction.opcode.action.isBracket = false) :
      Moves instruction brackets brackets
  | ifTrue {brackets : List Bracket} (opens : instruction.opcode.action = .ifTrue) :
      Moves instruction brackets (.conditional instruction.offset false :: brackets)
  | elseBranch {opened : Nat} {outer : List Bracket}
      (divides : instruction.opcode.action = .elseBranch) :
      Moves instruction (.conditional opened false :: outer) (.conditional opened true :: outer)
  | endIf {opened : Nat} {otherwise : Bool} {outer : List Bracket}
      (closes : instruction.opcode.action = .endIf) :
      Moves instruction (.conditional opened otherwise :: outer) outer
  | define {brackets : List Bracket} (opens : instruction.opcode.action.opensDefinition)
      (allowed : openDefinition? brackets = none) :
      Moves instruction brackets (.definition instruction.offset :: brackets)
  | endFunction {opened : Nat} {outer : List Bracket}
      (closes : instruction.opcode.action = .endFunction) :
      Moves instruction (.definition opened :: outer) outer

theorem moves_of_step {instruction : Instruction} {brackets after : List Bracket}
    (stepped : step brackets instruction = .ok after) : Moves instruction brackets after := by
  unfold step at stepped
  dsimp only at stepped
  split at stepped
  next opens =>
      cases stepped
      exact .ifTrue opens
  next divides =>
      split at stepped
      · cases stepped
        exact .elseBranch divides
      · cases stepped
      · cases stepped
  next closes =>
      split at stepped
      · cases stepped
        exact .endIf closes
      · cases stepped
  next opens =>
      split at stepped
      · next allowed =>
          cases stepped
          exact .define (.inl opens) allowed
      · cases stepped
  next opens =>
      split at stepped
      · next allowed =>
          cases stepped
          exact .define (.inr opens) allowed
      · cases stepped
  next closes =>
      split at stepped
      · cases stepped
        exact .endFunction closes
      · cases stepped
      · cases stepped
  next =>
      cases stepped
      apply Moves.plain
      unfold Action.isBracket
      split <;> first | contradiction | rfl

theorem Moves.step_eq {instruction : Instruction} {brackets after : List Bracket}
    (moves : Moves instruction brackets after) : step brackets instruction = .ok after := by
  cases moves with
  | plain plain =>
      unfold step
      dsimp only
      split
      · next action => simp [action, Action.isBracket] at plain
      · next action => simp [action, Action.isBracket] at plain
      · next action => simp [action, Action.isBracket] at plain
      · next action => simp [action, Action.isBracket] at plain
      · next action => simp [action, Action.isBracket] at plain
      · next action => simp [action, Action.isBracket] at plain
      · rfl
  | ifTrue opens => simp only [step, opens]
  | elseBranch divides => simp only [step, divides]
  | endIf closes => simp only [step, closes]
  | define opens allowed =>
      rcases opens with opens | opens
      · simp only [step, opens, allowed]
      · simp only [step, opens, allowed]
  | endFunction closes => simp only [step, closes]

theorem finish_eq_ok_iff {brackets : List Bracket} : finish brackets = .ok () ↔ brackets = [] := by
  constructor
  · intro finished
    match brackets with
    | [] => rfl
    | .conditional opened otherwise :: outer =>
        unfold finish at finished
        split at finished
        · cases finished
        · cases finished
        · next other => exact absurd rfl (other _ _ _)
    | .definition opened :: outer =>
        simp [finish, openDefinition?] at finished
  · intro empty
    subst empty
    rfl

/-- The open brackets after some more instructions. -/
def stepAll (brackets : List Bracket) (instructions : List Instruction) :
    Except HintingFault (List Bracket) :=
  instructions.foldlM step brackets

theorem stepAll_nil (brackets : List Bracket) : stepAll brackets [] = .ok brackets :=
  rfl

theorem stepAll_cons_eq_ok_iff {brackets after : List Bracket} {instruction : Instruction}
    {rest : List Instruction} :
    stepAll brackets (instruction :: rest) = .ok after ↔
      ∃ between, Moves instruction brackets between ∧ stepAll between rest = .ok after := by
  rw [stepAll, List.foldlM_cons]
  cases stepped : step brackets instruction with
  | error fault =>
      constructor
      · intro impossible
        cases impossible
      · rintro ⟨between, moves, _⟩
        rw [moves.step_eq] at stepped
        cases stepped
  | ok between =>
      constructor
      · intro remaining
        exact ⟨between, moves_of_step stepped, remaining⟩
      · rintro ⟨other, moves, remaining⟩
        rw [moves.step_eq] at stepped
        cases stepped
        exact remaining

theorem stepAll_append_of_ok {brackets between : List Bracket} {first : List Instruction}
    (moved : stepAll brackets first = .ok between) (second : List Instruction) :
    stepAll brackets (first ++ second) = stepAll between second := by
  unfold stepAll at moved ⊢
  rw [List.foldlM_append, moved]
  rfl

theorem stepAll_append_eq_ok_iff {brackets after : List Bracket}
    {first second : List Instruction} :
    stepAll brackets (first ++ second) = .ok after ↔
      ∃ between, stepAll brackets first = .ok between ∧ stepAll between second = .ok after := by
  unfold stepAll
  rw [List.foldlM_append, exceptBind_eq_ok_iff]

/-- Where the next instruction stands. -/
def scope (brackets : List Bracket) : Scope :=
  if openDefinition? brackets = none then .program else .definition

theorem scope_eq_program_iff {brackets : List Bracket} :
    scope brackets = .program ↔ openDefinition? brackets = none := by
  unfold scope
  split <;> simp_all

end Bracket

open OutlineFont.Hinting.Bracket in
/-- Balanced instructions leave the open brackets as they were. -/
theorem Balanced.stepAll_eq {scope : Scope} {instructions : List Instruction}
    (balanced : Balanced scope instructions) (brackets : List Bracket)
    (allowed : scope = .program → openDefinition? brackets = none) :
    stepAll brackets instructions = .ok brackets := by
  induction balanced generalizing brackets with
  | nil => rfl
  | plain plain _ ih => exact stepAll_cons_eq_ok_iff.mpr ⟨_, .plain plain, ih _ allowed⟩
  | @block scope opening closing body rest opens _ closes _ innerIh ih =>
      have body := innerIh (.conditional opening.offset false :: brackets) allowed
      refine stepAll_cons_eq_ok_iff.mpr ⟨_, .ifTrue opens, ?_⟩
      rw [stepAll_append_of_ok body]
      exact stepAll_cons_eq_ok_iff.mpr ⟨_, .endIf closes, ih _ allowed⟩
  | @branches scope opening dividing closing first second rest opens _ divides _ closes _
      firstIh secondIh ih =>
      have whenTrue := firstIh (.conditional opening.offset false :: brackets) allowed
      have otherwise := secondIh (.conditional opening.offset true :: brackets) allowed
      refine stepAll_cons_eq_ok_iff.mpr ⟨_, .ifTrue opens, ?_⟩
      rw [stepAll_append_of_ok whenTrue]
      refine stepAll_cons_eq_ok_iff.mpr ⟨_, .elseBranch divides, ?_⟩
      rw [stepAll_append_of_ok otherwise]
      exact stepAll_cons_eq_ok_iff.mpr ⟨_, .endIf closes, ih _ allowed⟩
  | @definition opening closing body rest opens _ closes _ innerIh ih =>
      have body := innerIh (.definition opening.offset :: brackets) nofun
      refine stepAll_cons_eq_ok_iff.mpr ⟨_, .define opens (allowed rfl), ?_⟩
      rw [stepAll_append_of_ok body]
      exact stepAll_cons_eq_ok_iff.mpr ⟨_, .endFunction closes, ih _ allowed⟩

/-- The instructions that close some open brackets, innermost first, and open no others. -/
inductive Closes : List Bracket → List Instruction → Prop where
  | nothing {rest : List Instruction} (after : Balanced .program rest) : Closes [] rest
  | block {opened : Nat} {outer : List Bracket} {otherwise : Bool} {closing : Instruction}
      {body rest : List Instruction} (inner : Balanced (Bracket.scope outer) body)
      (closes : closing.opcode.action = .endIf) (after : Closes outer rest) :
      Closes (.conditional opened otherwise :: outer) (body ++ closing :: rest)
  | branches {opened : Nat} {outer : List Bracket} {dividing closing : Instruction}
      {first second rest : List Instruction}
      (whenTrue : Balanced (Bracket.scope outer) first)
      (divides : dividing.opcode.action = .elseBranch)
      (otherwise : Balanced (Bracket.scope outer) second)
      (closes : closing.opcode.action = .endIf) (after : Closes outer rest) :
      Closes (.conditional opened false :: outer)
        (first ++ dividing :: (second ++ closing :: rest))
  | definition {opened : Nat} {outer : List Bracket} {closing : Instruction}
      {body rest : List Instruction} (inner : Balanced .definition body)
      (closes : closing.opcode.action = .endFunction) (after : Closes outer rest) :
      Closes (.definition opened :: outer) (body ++ closing :: rest)

namespace Closes

open OutlineFont.Hinting.Bracket

/-- Balanced instructions may come before those that close brackets. -/
theorem prepend {brackets : List Bracket} {segment rest : List Instruction}
    (balanced : Balanced (scope brackets) segment) (closes : Closes brackets rest) :
    Closes brackets (segment ++ rest) := by
  cases closes with
  | nothing after => exact .nothing (balanced.append after)
  | block inner closes after =>
      rw [← List.append_assoc]
      exact .block (balanced.append inner) closes after
  | branches whenTrue divides otherwise closes after =>
      rw [← List.append_assoc]
      exact .branches (balanced.append whenTrue) divides otherwise closes after
  | definition inner closes after =>
      rw [← List.append_assoc]
      exact .definition (balanced.append inner) closes after

/-- What closes the brackets after an instruction closes, with it, those before. -/
theorem of_moves {instruction : Instruction} {brackets after : List Bracket}
    {rest : List Instruction} (moves : Moves instruction brackets after)
    (closes : Closes after rest) : Closes brackets (instruction :: rest) := by
  cases moves with
  | plain plain =>
      have segment : Balanced (scope brackets) [instruction] := .plain plain .nil
      exact closes.prepend segment
  | ifTrue opens =>
      cases closes with
      | @block _ _ _ closing body rest inner closing after =>
          have segment := Balanced.block opens inner closing .nil
          simpa only [List.append_assoc, List.cons_append, List.nil_append] using
            after.prepend segment
      | branches whenTrue divides otherwise closing after =>
          have segment := Balanced.branches opens whenTrue divides otherwise closing .nil
          simpa only [List.append_assoc, List.cons_append, List.nil_append] using
            after.prepend segment
  | elseBranch divides =>
      cases closes with
      | block inner closing after =>
          rw [← List.nil_append (instruction :: _)]
          exact .branches .nil divides inner closing after
  | endIf closing =>
      rw [← List.nil_append (instruction :: rest)]
      exact .block .nil closing closes
  | define opens none =>
      cases closes with
      | definition inner closing after =>
          have segment := Balanced.definition opens inner closing .nil
          rw [← scope_eq_program_iff.mpr none] at segment
          simpa only [List.append_assoc, List.cons_append, List.nil_append] using
            after.prepend segment
  | endFunction closing =>
      rw [← List.nil_append (instruction :: rest)]
      exact .definition .nil closing closes

/-- Instructions after which no bracket is open close those that were open before. -/
theorem of_stepAll {brackets : List Bracket} {instructions : List Instruction}
    (moved : stepAll brackets instructions = .ok []) : Closes brackets instructions := by
  induction instructions generalizing brackets with
  | nil =>
      cases moved
      exact .nothing .nil
  | cons instruction rest ih =>
      obtain ⟨between, moves, remaining⟩ := stepAll_cons_eq_ok_iff.mp moved
      exact .of_moves moves (ih remaining)

end Closes

/-- Instructions are balanced exactly when they can be stepped through and leave nothing open. -/
theorem stepAll_eq_nil_iff_balanced {instructions : List Instruction} :
    Bracket.stepAll [] instructions = .ok [] ↔ Balanced .program instructions := by
  constructor
  · intro moved
    cases Closes.of_stepAll moved with
    | nothing balanced => exact balanced
  · intro balanced
    exact balanced.stepAll_eq [] fun _ => rfl

namespace Program

/-- Stepping through items that may have failed succeeds only if none of them has. -/
theorem foldlM_items_eq_ok_iff {items : List (Except FontError Instruction)}
    {brackets after : List Bracket} :
    items.foldlM (fun brackets item => do
        (Bracket.step brackets (← item)).mapError FontError.hinting) brackets = .ok after ↔
      ∃ instructions : List Instruction, items = instructions.map .ok ∧
        Bracket.stepAll brackets instructions = .ok after := by
  induction items generalizing brackets with
  | nil =>
      constructor
      · intro moved
        cases moved
        exact ⟨[], rfl, rfl⟩
      · rintro ⟨instructions, same, moved⟩
        have empty : instructions = [] := by simpa using same.symm
        subst empty
        cases moved
        rfl
  | cons item items ih =>
      rw [List.foldlM_cons]
      constructor
      · intro moved
        cases item with
        | error failure => cases moved
        | ok instruction =>
            cases stepped : Bracket.step brackets instruction with
            | error fault =>
                simp [bind, Except.bind, stepped, Except.mapError] at moved
            | ok between =>
                simp only [bind, Except.bind, stepped, Except.mapError] at moved
                obtain ⟨instructions, same, remaining⟩ := ih.mp moved
                refine ⟨instruction :: instructions, by rw [same]; rfl, ?_⟩
                exact Bracket.stepAll_cons_eq_ok_iff.mpr
                  ⟨between, Bracket.moves_of_step stepped, remaining⟩
      · rintro ⟨instructions, same, moved⟩
        cases instructions with
        | nil => cases same
        | cons instruction instructions =>
            obtain ⟨rfl, rest⟩ := List.cons.inj same
            obtain ⟨between, moves, remaining⟩ := Bracket.stepAll_cons_eq_ok_iff.mp moved
            simp only [bind, Except.bind, moves.step_eq, Except.mapError]
            exact ih.mpr ⟨instructions, rest, remaining⟩

/-- A valid program can be read, and closes every bracket that it opens. -/
theorem validate_eq_ok_iff_stepAll {code : Bytes} :
    validate code = .ok () ↔
      ∃ instructions, Reads code 0 instructions ∧ Bracket.stepAll [] instructions = .ok [] := by
  unfold validate
  constructor
  · intro valid
    cases moved : (instructionsFrom code 0).foldlM (fun brackets item => do
        (Bracket.step brackets (← item)).mapError FontError.hinting) [] with
    | error failure =>
        rw [moved] at valid
        cases valid
    | ok brackets =>
        rw [moved] at valid
        obtain ⟨instructions, same, remaining⟩ := foldlM_items_eq_ok_iff.mp moved
        have closed : Bracket.finish brackets = .ok () := by
          cases finished : Bracket.finish brackets with
          | error fault =>
              simp [bind, Except.bind, finished, Except.mapError] at valid
          | ok _ => rfl
        rw [Bracket.finish_eq_ok_iff] at closed
        subst closed
        exact ⟨instructions, reads_of_instructionsWithin (by omega) (Nat.zero_le _) same, remaining⟩
  · rintro ⟨instructions, reads, moved⟩
    rw [foldlM_items_eq_ok_iff.mpr ⟨instructions, reads.instructionsFrom_eq, moved⟩]
    rfl

theorem validate_of_isEmpty {code : Bytes} (empty : code.isEmpty = true) :
    validate code = .ok () := by
  have none := Array.isEmpty_iff.mp empty
  subst none
  rfl

/--
Validation accepts exactly the grammar of blocks and definitions: the byte code
can be read from its start up to exactly its end, and the instructions are balanced.
-/
theorem validate_eq_ok_iff_balanced (code : Bytes) :
    validate code = .ok () ↔
      ∃ instructions, Reads code 0 instructions ∧ Balanced .program instructions := by
  rw [validate_eq_ok_iff_stepAll]
  simp only [stepAll_eq_nil_iff_balanced]

end Program

end OutlineFont.Hinting
