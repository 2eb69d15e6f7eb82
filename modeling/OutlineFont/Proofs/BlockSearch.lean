import OutlineFont.Proofs.BracketGrammar

/-!
# The look-ahead of a running program

A running program finds the end of a block by counting conditionals, and the
end of a definition by the first instruction that closes one.  Validation kept
a list of all open brackets.  Where validation left a bracket open and the rest
of the program closes it, the look-ahead comes out behind that very bracket.
-/

namespace OutlineFont.Hinting

namespace Bracket

def isConditional : Bracket → Bool
  | .conditional _ _ => true
  | .definition _ => false

/-- The offset of the instruction that opened a bracket. -/
def opened : Bracket → Nat
  | .conditional opened _ => opened
  | .definition opened => opened

/-- Brackets of one kind with one opening: its other branch is no difference for a block. -/
def Alike (bracket other : Bracket) : Prop :=
  bracket.opened = other.opened ∧ bracket.isConditional = other.isConditional

def blocks (brackets : List Bracket) : Nat :=
  brackets.countP isConditional

@[simp] theorem blocks_nil : blocks [] = 0 :=
  rfl

@[simp] theorem blocks_conditional (opened : Nat) (otherwise : Bool) (outer : List Bracket) :
    blocks (.conditional opened otherwise :: outer) = blocks outer + 1 :=
  List.countP_cons_of_pos rfl

@[simp] theorem blocks_definition (opened : Nat) (outer : List Bracket) :
    blocks (.definition opened :: outer) = blocks outer :=
  List.countP_cons_of_neg nofun

@[simp] theorem openDefinition?_nil : openDefinition? [] = none :=
  rfl

@[simp] theorem openDefinition?_conditional (opened : Nat) (otherwise : Bool)
    (outer : List Bracket) :
    openDefinition? (.conditional opened otherwise :: outer) = openDefinition? outer :=
  rfl

@[simp] theorem openDefinition?_definition (opened : Nat) (outer : List Bracket) :
    openDefinition? (.definition opened :: outer) = some opened :=
  rfl

theorem openDefinition?_append_definition (inner : List Bracket) (opened : Nat)
    (outer : List Bracket) :
    openDefinition? (inner ++ .definition opened :: outer) ≠ none := by
  induction inner with
  | nil => simp
  | cons bracket inner ih =>
      cases bracket with
      | conditional => simpa using ih
      | definition => simp

/-- An instruction ends a bracket of this kind. -/
def ClosedBy (bracket : Bracket) (instruction : Instruction) : Prop :=
  instruction.opcode.action = if bracket.isConditional then .endIf else .endFunction

/-- A definition starts only where none is open. -/
theorem Moves.openDefinition?_eq_none {instruction : Instruction} {brackets after : List Bracket}
    (moves : Moves instruction brackets after)
    (opens : instruction.opcode.action.opensDefinition) : openDefinition? brackets = none := by
  have stepped := moves.step_eq
  unfold step at stepped
  rcases opens with opens | opens
  · simp only [opens] at stepped
    split at stepped
    · assumption
    · cases stepped
  · simp only [opens] at stepped
    split at stepped
    · assumption
    · cases stepped

/--
What an instruction may do while a bracket is open: it changes only the brackets inside,
or it gives the bracket its other branch, or it closes the bracket.
-/
inductive MovesIn (instruction : Instruction) (outer : List Bracket) :
    (inner : List Bracket) → Bracket → (after : List Bracket) → Prop where
  | inside {inner after : List Bracket} {bracket : Bracket} (within : Moves instruction inner after)
      (whole : Moves instruction (inner ++ bracket :: outer) (after ++ bracket :: outer)) :
      MovesIn instruction outer inner bracket (after ++ bracket :: outer)
  | divides {opened : Nat} (divides : instruction.opcode.action = .elseBranch) :
      MovesIn instruction outer [] (.conditional opened false) (.conditional opened true :: outer)
  | closes {bracket : Bracket} (closes : bracket.ClosedBy instruction) :
      MovesIn instruction outer [] bracket outer

theorem Moves.movesIn {instruction : Instruction} {inner outer after : List Bracket}
    {bracket : Bracket} (moves : Moves instruction (inner ++ bracket :: outer) after) :
    MovesIn instruction outer inner bracket after := by
  generalize whole : inner ++ bracket :: outer = brackets at moves
  cases moves with
  | plain plain =>
      subst whole
      exact .inside (.plain plain) (.plain plain)
  | ifTrue opens =>
      subst whole
      exact .inside (.ifTrue opens) (.ifTrue opens)
  | define opens allowed =>
      subst whole
      have inside : openDefinition? inner = none := by
        unfold openDefinition? at allowed ⊢
        rw [List.findSome?_append, Option.or_eq_none_iff] at allowed
        exact allowed.1
      exact .inside (.define opens inside) (.define opens allowed)
  -- The others change the innermost bracket, which may be the one that is open around.
  | elseBranch divides =>
      cases inner with
      | nil =>
          obtain ⟨rfl, rfl⟩ := List.cons.inj whole
          exact .divides divides
      | cons first inner =>
          obtain ⟨rfl, rfl⟩ := List.cons.inj whole
          exact .inside (.elseBranch divides) (.elseBranch divides)
  | endIf closes =>
      cases inner with
      | nil =>
          obtain ⟨rfl, rfl⟩ := List.cons.inj whole
          exact .closes closes
      | cons first inner =>
          obtain ⟨rfl, rfl⟩ := List.cons.inj whole
          exact .inside (.endIf closes) (.endIf closes)
  | endFunction closes =>
      cases inner with
      | nil =>
          obtain ⟨rfl, rfl⟩ := List.cons.inj whole
          exact .closes closes
      | cons first inner =>
          obtain ⟨rfl, rfl⟩ := List.cons.inj whole
          exact .inside (.endFunction closes) (.endFunction closes)

/-- Instructions that lead back from inside a bracket to the bracket, and keep it open. -/
inductive StaysOpen (outer : List Bracket) :
    (inner : List Bracket) → Bracket → List Instruction → (last : Bracket) → Prop where
  | here {bracket : Bracket} : StaysOpen outer [] bracket [] bracket
  | inside {instruction : Instruction} {inner between : List Bracket} {bracket last : Bracket}
      {rest : List Instruction} (within : Moves instruction inner between)
      (whole : Moves instruction (inner ++ bracket :: outer) (between ++ bracket :: outer))
      (after : StaysOpen outer between bracket rest last) :
      StaysOpen outer inner bracket (instruction :: rest) last
  | divides {instruction : Instruction} {opened : Nat} {last : Bracket} {rest : List Instruction}
      (divides : instruction.opcode.action = .elseBranch)
      (after : StaysOpen outer [] (.conditional opened true) rest last) :
      StaysOpen outer [] (.conditional opened false) (instruction :: rest) last

namespace StaysOpen

variable {outer inner : List Bracket} {bracket last : Bracket} {instructions : List Instruction}

theorem stepAll_eq (stays : StaysOpen outer inner bracket instructions last) :
    stepAll (inner ++ bracket :: outer) instructions = .ok (last :: outer) := by
  induction stays with
  | here => rfl
  | inside _ whole _ ih => exact stepAll_cons_eq_ok_iff.mpr ⟨_, whole, ih⟩
  | divides divides _ ih => exact stepAll_cons_eq_ok_iff.mpr ⟨_, .elseBranch divides, ih⟩

/-- A bracket stays as it is, unless it is a block that gets its other branch. -/
theorem eq_or_divided (stays : StaysOpen outer inner bracket instructions last) :
    last = bracket ∨ ∃ opened before divider behind, bracket = .conditional opened false ∧
      last = .conditional opened true ∧ instructions = before ++ divider :: behind ∧
      divider.opcode.action = .elseBranch ∧ StaysOpen outer inner bracket before bracket := by
  induction stays with
  | here => exact .inl rfl
  | @inside instruction _ _ _ _ _ within whole _ ih =>
      rcases ih with same | ⟨opened, before, divider, behind, rfl, divided, rfl, divides, stays⟩
      · exact .inl same
      · exact .inr ⟨opened, instruction :: before, divider, behind, rfl, divided, rfl, divides,
          .inside within whole stays⟩
  | @divides instruction opened _ rest divides _ ih =>
      rcases ih with same | ⟨_, _, _, _, impossible, _⟩
      · exact .inr ⟨opened, [], instruction, rest, rfl, same, rfl, divides, .here⟩
      · cases impossible

theorem alike (stays : StaysOpen outer inner bracket instructions last) : last.Alike bracket := by
  rcases stays.eq_or_divided with same | ⟨_, _, _, _, rfl, rfl, _⟩
  · exact same ▸ ⟨rfl, rfl⟩
  · exact ⟨rfl, rfl⟩

end StaysOpen

/-- A bracket that is closed in the end stays open up to the instruction that closes it. -/
theorem exists_staysOpen {inner outer : List Bracket} {bracket : Bracket}
    {instructions : List Instruction}
    (closed : stepAll (inner ++ bracket :: outer) instructions = .ok []) :
    ∃ before closing rest last, instructions = before ++ closing :: rest ∧
      StaysOpen outer inner bracket before last ∧ last.ClosedBy closing ∧
      stepAll outer rest = .ok [] := by
  induction instructions generalizing inner bracket with
  | nil =>
      rw [stepAll_nil] at closed
      simp at closed
  | cons instruction instructions ih =>
      obtain ⟨between, moves, remaining⟩ := stepAll_cons_eq_ok_iff.mp closed
      cases moves.movesIn with
      | inside within whole =>
          obtain ⟨before, closing, rest, last, rfl, stays, closes⟩ := ih remaining
          exact ⟨instruction :: before, closing, rest, last, rfl, .inside within whole stays,
            closes⟩
      | divides divides =>
          obtain ⟨before, closing, rest, last, rfl, stays, closes⟩ :=
            ih (show stepAll ([] ++ _ :: outer) instructions = .ok [] from remaining)
          exact ⟨instruction :: before, closing, rest, last, rfl, .divides divides stays, closes⟩
      | closes closes =>
          exact ⟨[], instruction, instructions, bracket, rfl, .here, closes, remaining⟩

end Bracket

namespace Program

open OutlineFont.Hinting.Bracket

/-- What the search for the end of a block does at an instruction. -/
def visitBlock (atElse : Bool) (depth : Nat) (instruction : Instruction) : Nat ⊕ Nat :=
  match instruction.opcode.action with
  | .ifTrue => .inl (depth + 1)
  | .elseBranch => if depth = 0 ∧ atElse then .inr instruction.next else .inl depth
  | .endIf => if depth = 0 then .inr instruction.next else .inl (depth - 1)
  | _ => .inl depth

/-- What the search for the end of a definition does at an instruction. -/
def visitFunction (_ : Unit) (instruction : Instruction) : Unit ⊕ Nat :=
  if instruction.opcode.action = .endFunction then .inr instruction.next else .inl ()

/-- What a search has found, which must be something. -/
def answerOr (fault : HintingFault) (result : Except FontError (Option Nat)) :
    Except FontError Nat := do
  match ← result with
  | some offset => .ok offset
  | none => .error (.hinting fault)

theorem blockEnd_eq_answerOr (code : Bytes) (start : Nat) (atElse : Bool) :
    blockEnd code start atElse =
      answerOr (.unclosedBlock start) (searchFrom code (visitBlock atElse) start 0) :=
  rfl

theorem functionEnd_eq_answerOr (code : Bytes) (start : Nat) :
    functionEnd code start =
      answerOr (.unclosedFunction start) (searchFrom code visitFunction start ()) :=
  rfl

/-- The end of a block, found in the list of instructions. -/
theorem Reads.blockEnd_eq {code : Bytes} {start : Nat} {instructions : List Instruction}
    (reads : Reads code start instructions) {atElse : Bool} {offset : Nat}
    (found : searchList (visitBlock atElse) instructions 0 = some offset) :
    blockEnd code start atElse = .ok offset := by
  rw [blockEnd_eq_answerOr, reads.searchFrom_eq, found]
  rfl

/-- The end of a definition, found in the list of instructions. -/
theorem Reads.functionEnd_eq {code : Bytes} {start : Nat} {instructions : List Instruction}
    (reads : Reads code start instructions) {offset : Nat}
    (found : searchList visitFunction instructions () = some offset) :
    functionEnd code start = .ok offset := by
  rw [functionEnd_eq_answerOr, reads.searchFrom_eq, found]
  rfl

theorem visitBlock_of_isBracket_eq_false {instruction : Instruction}
    (plain : instruction.opcode.action.isBracket = false) (atElse : Bool) (depth : Nat) :
    visitBlock atElse depth instruction = .inl depth := by
  unfold visitBlock
  split
  · next action => simp [action, Action.isBracket] at plain
  · next action => simp [action, Action.isBracket] at plain
  · next action => simp [action, Action.isBracket] at plain
  · rfl

section Visits

variable {instruction : Instruction}

theorem visitBlock_ifTrue (opens : instruction.opcode.action = .ifTrue) (atElse : Bool)
    (depth : Nat) : visitBlock atElse depth instruction = .inl (depth + 1) := by
  simp only [visitBlock, opens]

theorem visitBlock_elseBranch (divides : instruction.opcode.action = .elseBranch) (atElse : Bool)
    (depth : Nat) : visitBlock atElse (depth + 1) instruction = .inl (depth + 1) := by
  simp only [visitBlock, divides, Nat.succ_ne_zero, false_and, if_false]

theorem visitBlock_endIf (closes : instruction.opcode.action = .endIf) (atElse : Bool)
    (depth : Nat) : visitBlock atElse (depth + 1) instruction = .inl depth := by
  simp only [visitBlock, closes, if_neg (Nat.succ_ne_zero depth), Nat.add_sub_cancel]

theorem visitBlock_define (opens : instruction.opcode.action.opensDefinition) (atElse : Bool)
    (depth : Nat) : visitBlock atElse depth instruction = .inl depth := by
  rcases opens with opens | opens
  · simp only [visitBlock, opens]
  · simp only [visitBlock, opens]

theorem visitBlock_endFunction (closes : instruction.opcode.action = .endFunction)
    (atElse : Bool) (depth : Nat) : visitBlock atElse depth instruction = .inl depth := by
  simp only [visitBlock, closes]

/-- At the other branch of the block itself the search stops if it is to. -/
theorem visitBlock_zero_of_elseBranch (divides : instruction.opcode.action = .elseBranch)
    (atElse : Bool) :
    visitBlock atElse 0 instruction = if atElse then .inr instruction.next else .inl 0 := by
  simp only [visitBlock, divides, true_and]

theorem visitBlock_zero_of_endIf (closes : instruction.opcode.action = .endIf) (atElse : Bool) :
    visitBlock atElse 0 instruction = .inr instruction.next := by
  simp only [visitBlock, closes, if_true]

/-- The search for the end of a block counts the blocks that are open inside it. -/
theorem visitBlock_of_moves {inner after : List Bracket} (moves : Moves instruction inner after)
    (atElse : Bool) : visitBlock atElse (blocks inner) instruction = .inl (blocks after) := by
  cases moves with
  | plain plain => exact visitBlock_of_isBracket_eq_false plain ..
  | ifTrue opens => rw [visitBlock_ifTrue opens, blocks_conditional]
  | elseBranch divides => rw [blocks_conditional, visitBlock_elseBranch divides, blocks_conditional]
  | endIf closes => rw [blocks_conditional, visitBlock_endIf closes]
  | define opens => rw [visitBlock_define opens, blocks_definition]
  | endFunction closes => rw [blocks_definition, visitBlock_endFunction closes]

theorem searchList_of_visit {State Answer : Type} {visit : State → Instruction → State ⊕ Answer}
    {before after : State} (visited : visit before instruction = .inl after)
    (rest : List Instruction) :
    searchList visit (instruction :: rest) before = searchList visit rest after := by
  rw [searchList, visited]

theorem searchList_of_answer {State Answer : Type} {visit : State → Instruction → State ⊕ Answer}
    {state : State} {answer : Answer} (answered : visit state instruction = .inr answer)
    (rest : List Instruction) : searchList visit (instruction :: rest) state = some answer := by
  rw [searchList, answered]

/-- Instructions that only change the brackets inside a block are passed over. -/
theorem searchList_visitBlock_of_stepAll {inner after : List Bracket}
    {instructions : List Instruction} (moved : stepAll inner instructions = .ok after)
    (atElse : Bool) (rest : List Instruction) :
    searchList (visitBlock atElse) (instructions ++ rest) (blocks inner) =
      searchList (visitBlock atElse) rest (blocks after) := by
  induction instructions generalizing inner with
  | nil =>
      cases moved
      rfl
  | cons instruction instructions ih =>
      obtain ⟨between, moves, remaining⟩ := stepAll_cons_eq_ok_iff.mp moved
      rw [List.cons_append, searchList_of_visit (visitBlock_of_moves moves atElse), ih remaining]

end Visits

end Program

namespace Bracket.StaysOpen

open Program

variable {outer inner : List Bracket} {bracket last : Bracket} {instructions : List Instruction}

/--
The search for the end of a block passes over what keeps the block open, its other branch
included if it is not to stop there.
-/
theorem searchList_visitBlock (stays : StaysOpen outer inner bracket instructions last)
    {atElse : Bool} (undivided : atElse = true → last = bracket) (rest : List Instruction) :
    searchList (visitBlock atElse) (instructions ++ rest) (blocks inner) =
      searchList (visitBlock atElse) rest 0 := by
  induction stays with
  | here => rfl
  | inside within _ _ ih =>
      rw [List.cons_append, searchList_of_visit (visitBlock_of_moves within atElse), ih undivided]
  | divides divides after ih =>
      have goesOn : atElse = false := by
        rw [Bool.eq_false_iff]
        intro stops
        rcases after.eq_or_divided with same | ⟨_, _, _, _, impossible, _⟩
        · cases same.symm.trans (undivided stops)
        · cases impossible
      subst goesOn
      rw [List.cons_append, blocks_nil,
        searchList_of_visit (visitBlock_zero_of_elseBranch divides false)]
      exact ih nofun

/-- The search for the end of a definition passes over what keeps the definition open. -/
theorem searchList_visitFunction (stays : StaysOpen outer inner bracket instructions last)
    (defines : bracket.isConditional = false) (noDefinition : openDefinition? inner = none)
    (rest : List Instruction) :
    searchList visitFunction (instructions ++ rest) () = searchList visitFunction rest () := by
  induction stays with
  | here => rfl
  | @inside instruction inner between bracket _ _ within whole _ ih =>
      have goesOn : instruction.opcode.action ≠ .endFunction ∧ openDefinition? between = none := by
        cases within with
        | plain plain =>
            refine ⟨fun closes => ?_, noDefinition⟩
            rw [closes] at plain
            cases plain
        | ifTrue opens => exact ⟨by simp [opens], noDefinition⟩
        | elseBranch divides => exact ⟨by simp [divides], noDefinition⟩
        | endIf closes => exact ⟨by simp [closes], noDefinition⟩
        | define opens =>
            cases bracket with
            | conditional => cases defines
            | definition opened =>
                exact absurd (whole.openDefinition?_eq_none opens)
                  (openDefinition?_append_definition inner opened outer)
        | endFunction => cases noDefinition
      rw [List.cons_append, searchList_of_visit (if_neg goesOn.1)]
      exact ih defines goesOn.2
  | divides => cases defines

end Bracket.StaysOpen

namespace Program

open OutlineFont.Hinting.Bracket

/-- Where the search for the end of a block stops, and what is open behind that place. -/
structure BlockStop (opened : Nat) (otherwise atElse : Bool) (outer : List Bracket)
    (instructions : List Instruction) (stop : Instruction) (rest : List Instruction) : Prop where
  split : ∃ before, instructions = before ++ stop :: rest
  closes : stop.opcode.action = .endIf ∧ stepAll outer rest = .ok [] ∨
    stop.opcode.action = .elseBranch ∧ atElse = true ∧ otherwise = false ∧
      stepAll (.conditional opened true :: outer) rest = .ok []

/--
The search for the end of a block passes over the brackets inside it.  It stops
at the other branch of the block, if it is to, and else at the end of the block.
-/
theorem searchList_visitBlock {atElse otherwise : Bool} {opened : Nat}
    (inner : List Bracket) {outer : List Bracket} {instructions : List Instruction}
    (closed : stepAll (inner ++ .conditional opened otherwise :: outer) instructions = .ok []) :
    ∃ stop rest, searchList (visitBlock atElse) instructions (blocks inner) = some stop.next ∧
      BlockStop opened otherwise atElse outer instructions stop rest := by
  obtain ⟨before, closing, rest, last, rfl, stays, closes, remaining⟩ := exists_staysOpen closed
  rw [ClosedBy, stays.alike.2] at closes
  by_cases undivided : atElse = true → last = .conditional opened otherwise
  · refine ⟨closing, rest, ?_, ⟨before, rfl⟩, .inl ⟨closes, remaining⟩⟩
    rw [stays.searchList_visitBlock undivided,
      searchList_of_answer (visitBlock_zero_of_endIf closes atElse)]
  · obtain ⟨stops, changes⟩ := Classical.not_imp.mp undivided
    rcases stays.eq_or_divided with same | ⟨_, front, divider, behind, same, _, rfl, divides, held⟩
    · exact absurd same changes
    · cases same
      refine ⟨divider, behind ++ closing :: rest, ?_, ⟨front, ?_⟩,
        .inr ⟨divides, stops, rfl, ?_⟩⟩
      · rw [List.append_assoc, held.searchList_visitBlock fun _ => rfl, List.cons_append,
          searchList_of_answer (by rw [visitBlock_zero_of_elseBranch divides, if_pos stops])]
      · rw [List.append_assoc, List.cons_append]
      · rw [List.append_assoc, stepAll_append_of_ok held.stepAll_eq] at closed
        obtain ⟨between, moves, remaining⟩ := stepAll_cons_eq_ok_iff.mp closed
        cases moves.step_eq.symm.trans (Moves.elseBranch divides).step_eq
        exact remaining

/-- The search for the end of a definition passes over the blocks inside it. -/
theorem searchList_visitFunction {opened : Nat} {inner outer : List Bracket}
    {instructions : List Instruction} (noDefinition : openDefinition? inner = none)
    (closed : stepAll (inner ++ .definition opened :: outer) instructions = .ok []) :
    ∃ before stop rest, instructions = before ++ stop :: rest ∧
      searchList visitFunction instructions () = some stop.next ∧
      stop.opcode.action = .endFunction ∧ stepAll outer rest = .ok [] := by
  obtain ⟨before, closing, rest, last, rfl, stays, closes, remaining⟩ := exists_staysOpen closed
  rw [ClosedBy, stays.alike.2] at closes
  refine ⟨before, closing, rest, rfl, ?_, closes, remaining⟩
  rw [stays.searchList_visitFunction rfl noDefinition, searchList_of_answer (if_pos closes)]

end Program

end OutlineFont.Hinting
