import OutlineFont.Proofs.BlockSearch

/-!
# Matched brackets

Validation keeps the offset of the instruction that opened a bracket, and so
tells which other branch and which end belong to a block, and which end belongs
to a definition.  A running program looks ahead without these offsets, and
still comes out behind the instruction that validation has matched: no bracket
gets its offset a second time, so one that is innermost at two places has been
open between them, and the look-ahead passes over all that is inside it.
-/

namespace OutlineFont.Hinting

namespace Bracket

/-- The bracket that an instruction opens. -/
inductive Opens (instruction : Instruction) : Bracket → Prop where
  | block (opens : instruction.opcode.action = .ifTrue) :
      Opens instruction (.conditional instruction.offset false)
  | definition (opens : instruction.opcode.action.opensDefinition) :
      Opens instruction (.definition instruction.offset)

theorem Opens.opened_eq {instruction : Instruction} {bracket : Bracket}
    (opens : Opens instruction bracket) : bracket.opened = instruction.offset := by
  cases opens with
  | block => rfl
  | definition => rfl

/-- An instruction that may open a bracket adds just this bracket. -/
theorem Moves.eq_cons_of_opens {instruction : Instruction} {bracket : Bracket}
    {brackets after : List Bracket} (moves : Moves instruction brackets after)
    (opens : Opens instruction bracket) : after = bracket :: brackets := by
  have adds : Moves instruction brackets (bracket :: brackets) := by
    cases opens with
    | block opens => exact .ifTrue opens
    | definition opens => exact .define opens (moves.openDefinition?_eq_none opens)
  exact Except.ok.inj (moves.step_eq.symm.trans adds.step_eq)

/-- The other branch of a block can only come when the block is innermost. -/
theorem Moves.of_elseBranch {instruction : Instruction} {brackets after : List Bracket}
    (moves : Moves instruction brackets after)
    (divides : instruction.opcode.action = .elseBranch) :
    ∃ opened outer, brackets = .conditional opened false :: outer ∧
      after = .conditional opened true :: outer := by
  have stepped := moves.step_eq
  unfold step at stepped
  simp only [divides] at stepped
  split at stepped
  · cases stepped
    exact ⟨_, _, rfl, rfl⟩
  · cases stepped
  · cases stepped

/-- A bracket that is open after an instruction was opened by it, or was open before. -/
theorem Moves.opens_or_alike {instruction : Instruction} {brackets after : List Bracket}
    (moves : Moves instruction brackets after) {bracket : Bracket} (among : bracket ∈ after) :
    Opens instruction bracket ∨ ∃ earlier ∈ brackets, bracket.Alike earlier := by
  have stays {others : List Bracket} (listed : bracket ∈ others) :
      ∃ earlier ∈ others, bracket.Alike earlier :=
    ⟨bracket, listed, rfl, rfl⟩
  cases moves with
  | plain => exact .inr (stays among)
  | ifTrue opens =>
      rcases List.mem_cons.mp among with rfl | among
      · exact .inl (.block opens)
      · exact .inr (stays among)
  | elseBranch =>
      rcases List.mem_cons.mp among with rfl | among
      · exact .inr ⟨_, List.mem_cons_self, rfl, rfl⟩
      · exact .inr (stays (List.mem_cons_of_mem _ among))
  | endIf => exact .inr (stays (List.mem_cons_of_mem _ among))
  | define opens =>
      rcases List.mem_cons.mp among with rfl | among
      · exact .inl (.definition opens)
      · exact .inr (stays among)
  | endFunction => exact .inr (stays (List.mem_cons_of_mem _ among))

/-- A bracket that is open after some instructions was opened by one, or was open before. -/
theorem exists_opens_or_alike {instructions : List Instruction} {brackets after : List Bracket}
    (moved : stepAll brackets instructions = .ok after) {bracket : Bracket}
    (among : bracket ∈ after) :
    (∃ instruction ∈ instructions, ∃ fresh, Opens instruction fresh ∧ bracket.Alike fresh) ∨
      ∃ earlier ∈ brackets, bracket.Alike earlier := by
  induction instructions generalizing brackets with
  | nil =>
      cases moved
      exact .inr ⟨bracket, among, rfl, rfl⟩
  | cons instruction rest ih =>
      obtain ⟨between, moves, remaining⟩ := stepAll_cons_eq_ok_iff.mp moved
      rcases ih remaining with ⟨later, listed, opens⟩ | ⟨middle, listed, alike⟩
      · exact .inl ⟨later, List.mem_cons_of_mem _ listed, opens⟩
      · rcases moves.opens_or_alike listed with opens | ⟨earlier, listed, further⟩
        · exact .inl ⟨instruction, List.mem_cons_self, middle, opens, alike⟩
        · exact .inr ⟨earlier, listed, alike.1.trans further.1, alike.2.trans further.2⟩

/--
A bracket whose offset is not that of a bracket around it, of one inside it or of an
instruction to come, and which is innermost after some instructions, has stayed open.
-/
theorem staysOpen_of_stepAll {inner outer others : List Bracket} {bracket last : Bracket}
    {instructions : List Instruction}
    (moved : stepAll (inner ++ bracket :: outer) instructions = .ok (last :: others))
    (same : last.opened = bracket.opened)
    (around : ∀ other ∈ outer, other.opened ≠ bracket.opened)
    (inside : ∀ other ∈ inner, other.opened ≠ bracket.opened)
    (later : ∀ instruction ∈ instructions, instruction.offset ≠ bracket.opened) :
    StaysOpen outer inner bracket instructions last := by
  induction instructions generalizing inner bracket with
  | nil =>
      have whole := Except.ok.inj moved
      cases inner with
      | nil =>
          obtain ⟨rfl, _⟩ := List.cons.inj whole
          exact .here
      | cons first inner =>
          obtain ⟨rfl, _⟩ := List.cons.inj whole
          exact absurd same (inside first List.mem_cons_self)
  | cons instruction rest ih =>
      obtain ⟨between, moves, remaining⟩ := stepAll_cons_eq_ok_iff.mp moved
      obtain ⟨fresh, later⟩ := List.forall_mem_cons.mp later
      cases moves.movesIn with
      | inside within whole =>
          refine .inside within whole (ih remaining same around ?_ later)
          intro other among
          rcases within.opens_or_alike among with opens | ⟨earlier, listed, alike⟩
          · rw [opens.opened_eq]
            exact fresh
          · rw [alike.1]
            exact inside earlier listed
      | divides divides =>
          have remaining : stepAll ([] ++ _ :: outer) rest = .ok (last :: others) := remaining
          exact .divides divides (ih remaining same around nofun later)
      -- A bracket that has been closed does not come back.
      | closes closes =>
          rcases exists_opens_or_alike remaining List.mem_cons_self with
            ⟨opening, listed, _, opens, alike⟩ | ⟨earlier, listed, alike⟩
          · exact absurd (opens.opened_eq.symm.trans (alike.1.symm.trans same)) (later _ listed)
          · exact absurd (alike.1.symm.trans same) (around earlier listed)

end Bracket

namespace Program

open OutlineFont.Hinting.Bracket

/-- When validation comes to an instruction, this is the innermost open bracket. -/
def Innermost (instructions : List Instruction) (instruction : Instruction) (bracket : Bracket) :
    Prop :=
  ∃ before after outer, instructions = before ++ instruction :: after ∧
    stepAll [] before = .ok (bracket :: outer)

/-- Validation takes `dividing` for the other branch of the block that `opening` starts. -/
def DividesBlock (instructions : List Instruction) (opening dividing : Instruction) : Prop :=
  dividing.opcode.action = .elseBranch ∧
    Innermost instructions dividing (.conditional opening.offset false)

/-- Validation takes `closing` for the end of the block that `opening` starts. -/
def EndsBlock (instructions : List Instruction) (opening closing : Instruction) : Prop :=
  closing.opcode.action = .endIf ∧
    ∃ otherwise, Innermost instructions closing (.conditional opening.offset otherwise)

/-- Validation takes `closing` for the end of the definition that `opening` starts. -/
def EndsDefinition (instructions : List Instruction) (opening closing : Instruction) : Prop :=
  closing.opcode.action = .endFunction ∧
    Innermost instructions closing (.definition opening.offset)

theorem Innermost.mem {instructions : List Instruction} {instruction : Instruction}
    {bracket : Bracket} (innermost : Innermost instructions instruction bracket) :
    instruction ∈ instructions := by
  obtain ⟨before, after, _, rfl, _⟩ := innermost
  exact List.mem_append_right _ List.mem_cons_self

theorem DividesBlock.mem {instructions : List Instruction} {opening dividing : Instruction}
    (divides : DividesBlock instructions opening dividing) : dividing ∈ instructions :=
  Innermost.mem divides.2

theorem EndsBlock.mem {instructions : List Instruction} {opening closing : Instruction}
    (ends : EndsBlock instructions opening closing) : closing ∈ instructions := by
  obtain ⟨_, _, innermost⟩ := ends
  exact innermost.mem

theorem EndsDefinition.mem {instructions : List Instruction} {opening closing : Instruction}
    (ends : EndsDefinition instructions opening closing) : closing ∈ instructions :=
  Innermost.mem ends.2

/-- A bracket that is innermost behind an instruction stays open up to a later one. -/
def HeldOpen (instructions : List Instruction) (first stop : Instruction) (bracket last : Bracket) :
    Prop :=
  ∃ before between after outer, instructions = before ++ first :: (between ++ stop :: after) ∧
    stepAll [] (before ++ [first]) = .ok (bracket :: outer) ∧
    StaysOpen outer [] bracket between last

section HeldOpen

variable {code : Bytes} {instructions : List Instruction} {first stop opening : Instruction}
  {bracket last : Bracket}

theorem HeldOpen.innermost (held : HeldOpen instructions first stop bracket last) :
    Innermost instructions stop last := by
  obtain ⟨before, between, after, outer, rfl, moved, stays⟩ := held
  refine ⟨before ++ [first] ++ between, after, outer, by simp, ?_⟩
  rw [stepAll_append_of_ok moved]
  exact stays.stepAll_eq

theorem HeldOpen.alike (held : HeldOpen instructions first stop bracket last) :
    last.Alike bracket := by
  obtain ⟨_, _, _, _, _, _, stays⟩ := held
  exact stays.alike

/-- A bracket that has changed has become a block with another branch. -/
theorem HeldOpen.eq_or_divided (held : HeldOpen instructions first stop bracket last) :
    last = bracket ∨ ∃ opened dividing, bracket = .conditional opened false ∧
      last = .conditional opened true ∧ dividing.opcode.action = .elseBranch ∧
      HeldOpen instructions first dividing bracket bracket := by
  obtain ⟨before, between, after, outer, rfl, moved, stays⟩ := held
  rcases stays.eq_or_divided with
    same | ⟨opened, front, dividing, behind, isBlock, divided, rfl, divides, held⟩
  · exact .inl same
  · refine .inr ⟨opened, dividing, isBlock, divided, divides, before, front,
      behind ++ stop :: after, outer, ?_, moved, held⟩
    rw [List.append_assoc, List.cons_append]

/-- The search for the end of a block that stops at an instruction stops there. -/
theorem HeldOpen.blockEnd_eq (held : HeldOpen instructions first stop bracket last)
    (reads : Reads code 0 instructions) {atElse : Bool} (undivided : atElse = true → last = bracket)
    (stops : visitBlock atElse 0 stop = .inr stop.next) :
    blockEnd code first.next atElse = .ok stop.next := by
  obtain ⟨before, between, after, outer, rfl, _, stays⟩ := held
  refine reads.suffix.blockEnd_eq ?_
  exact (stays.searchList_visitBlock undivided _).trans (searchList_of_answer stops after)

theorem HeldOpen.functionEnd_eq (held : HeldOpen instructions first stop bracket last)
    (reads : Reads code 0 instructions) (defines : bracket.isConditional = false)
    (closes : stop.opcode.action = .endFunction) :
    functionEnd code first.next = .ok stop.next := by
  obtain ⟨before, between, after, outer, rfl, _, stays⟩ := held
  refine reads.suffix.functionEnd_eq ?_
  exact (stays.searchList_visitFunction defines openDefinition?_nil _).trans
    (searchList_of_answer (if_pos closes) after)

/-- In a valid program the innermost bracket behind an instruction stays open until it is closed. -/
theorem exists_closing {before after : List Instruction} {outer : List Bracket}
    (closed : stepAll [] (before ++ first :: after) = .ok [])
    (moved : stepAll [] (before ++ [first]) = .ok (bracket :: outer)) :
    ∃ closing last, HeldOpen (before ++ first :: after) first closing bracket last ∧
      last.ClosedBy closing := by
  rw [List.append_cons, stepAll_append_of_ok moved, ← List.nil_append (bracket :: outer)] at closed
  obtain ⟨between, closing, rest, last, rfl, stays, closes, _⟩ := exists_staysOpen closed
  exact ⟨closing, last, ⟨before, between, rest, outer, rfl, moved, stays⟩, closes⟩

/-- The bracket that an instruction of a valid program opens is innermost behind it. -/
theorem stepAll_of_opens {before after : List Instruction}
    (closed : stepAll [] (before ++ first :: after) = .ok []) (opens : Opens first bracket) :
    ∃ outer, stepAll [] before = .ok outer ∧
      stepAll [] (before ++ [first]) = .ok (bracket :: outer) := by
  obtain ⟨outer, moved, remaining⟩ := stepAll_append_eq_ok_iff.mp closed
  obtain ⟨between, moves, _⟩ := stepAll_cons_eq_ok_iff.mp remaining
  refine ⟨outer, moved, ?_⟩
  rw [stepAll_append_of_ok moved, ← moves.eq_cons_of_opens opens]
  exact stepAll_cons_eq_ok_iff.mpr ⟨between, moves, rfl⟩

theorem exists_closing_of_opens (closed : stepAll [] instructions = .ok [])
    (listed : opening ∈ instructions) (opens : Opens opening bracket) :
    ∃ closing last, HeldOpen instructions opening closing bracket last ∧ last.ClosedBy closing := by
  obtain ⟨before, after, rfl⟩ := List.append_of_mem listed
  obtain ⟨outer, _, moved⟩ := stepAll_of_opens closed opens
  exact exists_closing closed moved

/-- What is open before an instruction of a program was opened at other offsets. -/
theorem opened_ne_of_mem {before after : List Instruction} {outer : List Bracket} {other : Bracket}
    (reads : Reads code 0 (before ++ opening :: after)) (moved : stepAll [] before = .ok outer)
    (among : other ∈ outer) : other.opened ≠ opening.offset := by
  obtain ⟨earlier, listed, _, opens, alike⟩ :=
    (exists_opens_or_alike moved among).resolve_right nofun
  have ordered : earlier.next ≤ opening.offset :=
    (List.pairwise_append.mp reads.pairwise).2.2 _ listed _ List.mem_cons_self
  rw [alike.1, opens.opened_eq]
  exact Nat.ne_of_lt (earlier.offset_lt_next.trans_le ordered)

/-- A bracket that is innermost somewhere has stayed open since an instruction opened it. -/
theorem Innermost.exists_heldOpen (reads : Reads code 0 instructions)
    (closed : stepAll [] instructions = .ok []) (innermost : Innermost instructions stop last) :
    ∃ opening ∈ instructions, ∃ bracket, Opens opening bracket ∧
      HeldOpen instructions opening stop bracket last := by
  obtain ⟨front, after, others, rfl, moved⟩ := innermost
  obtain ⟨opening, among, bracket, opens, alike⟩ :=
    (exists_opens_or_alike moved List.mem_cons_self).resolve_right nofun
  obtain ⟨before, between, rfl⟩ := List.append_of_mem among
  rw [List.append_assoc, List.cons_append] at reads closed ⊢
  obtain ⟨outer, outside, opened⟩ := stepAll_of_opens closed opens
  rw [List.append_cons, stepAll_append_of_ok opened, ← List.nil_append (bracket :: outer)] at moved
  have ordered := List.pairwise_cons.mp (List.pairwise_append.mp reads.pairwise).2.1
  have stays : StaysOpen outer [] bracket between last := by
    refine staysOpen_of_stepAll moved alike.1 ?_ nofun ?_
    · intro other listed
      rw [opens.opened_eq]
      exact opened_ne_of_mem reads outside listed
    · intro later listed
      rw [opens.opened_eq]
      have behind := ordered.1 later (List.mem_append_left _ listed)
      exact Nat.ne_of_gt (opening.offset_lt_next.trans_le behind)
  exact ⟨opening, List.mem_append_right _ List.mem_cons_self, bracket, opens,
    before, between, after, outer, rfl, opened, stays⟩

/-- The instruction that opened a bracket is the one at its offset. -/
theorem Innermost.heldOpen (reads : Reads code 0 instructions)
    (closed : stepAll [] instructions = .ok []) (innermost : Innermost instructions stop last)
    (listed : opening ∈ instructions) (same : last.opened = opening.offset) :
    ∃ bracket, Opens opening bracket ∧ HeldOpen instructions opening stop bracket last := by
  obtain ⟨other, among, bracket, opens, held⟩ := innermost.exists_heldOpen reads closed
  have sameOffset := opens.opened_eq.symm.trans (held.alike.1.symm.trans same)
  cases reads.eq_of_offset_eq among listed sameOffset
  exact ⟨bracket, opens, held⟩

end HeldOpen

section Matching

variable {code : Bytes} {instructions : List Instruction} {opening dividing closing : Instruction}

theorem exists_endsBlock (closed : stepAll [] instructions = .ok [])
    (listed : opening ∈ instructions) (opens : opening.opcode.action = .ifTrue) :
    ∃ closing, EndsBlock instructions opening closing := by
  obtain ⟨closing, last, held, closes⟩ := exists_closing_of_opens closed listed (.block opens)
  rw [ClosedBy, held.alike.2] at closes
  refine ⟨closing, closes, ?_⟩
  rcases held.eq_or_divided with rfl | ⟨_, _, same, rfl, _⟩
  · exact ⟨false, held.innermost⟩
  · cases same
    exact ⟨true, held.innermost⟩

theorem exists_endsDefinition (closed : stepAll [] instructions = .ok [])
    (listed : opening ∈ instructions) (opens : opening.opcode.action.opensDefinition) :
    ∃ closing, EndsDefinition instructions opening closing := by
  obtain ⟨closing, last, held, closes⟩ := exists_closing_of_opens closed listed (.definition opens)
  rw [ClosedBy, held.alike.2] at closes
  refine ⟨closing, closes, ?_⟩
  rcases held.eq_or_divided with rfl | ⟨_, _, impossible, _⟩
  · exact held.innermost
  · cases impossible

variable (reads : Reads code 0 instructions) (closed : stepAll [] instructions = .ok [])

include reads closed

/-- From behind the start of a block the search comes out behind its other branch. -/
theorem blockEnd_of_dividesBlock (listed : opening ∈ instructions)
    (divides : DividesBlock instructions opening dividing) :
    blockEnd code opening.next true = .ok dividing.next := by
  obtain ⟨bracket, opens, held⟩ := divides.2.heldOpen reads closed listed rfl
  refine held.blockEnd_eq reads (fun _ => ?_) (visitBlock_zero_of_elseBranch divides.1 true)
  cases opens with
  | block => rfl
  | definition => cases held.alike.2

/-- The search comes out behind the end of a block, unless it stops at the other branch. -/
theorem blockEnd_of_endsBlock (listed : opening ∈ instructions)
    (ends : EndsBlock instructions opening closing) {atElse : Bool}
    (undivided : atElse = true → ¬∃ dividing, DividesBlock instructions opening dividing) :
    blockEnd code opening.next atElse = .ok closing.next := by
  obtain ⟨closes, otherwise, innermost⟩ := ends
  obtain ⟨bracket, opens, held⟩ := innermost.heldOpen reads closed listed rfl
  refine held.blockEnd_eq reads (fun stops => ?_) (visitBlock_zero_of_endIf closes atElse)
  rcases held.eq_or_divided with same | ⟨_, dividing, rfl, _, divides, before⟩
  · exact same
  · cases opens
    exact absurd ⟨dividing, divides, before.innermost⟩ (undivided stops)

/-- From behind the start of a definition the search comes out behind its end. -/
theorem functionEnd_of_endsDefinition (listed : opening ∈ instructions)
    (ends : EndsDefinition instructions opening closing) :
    functionEnd code opening.next = .ok closing.next := by
  obtain ⟨bracket, opens, held⟩ := ends.2.heldOpen reads closed listed rfl
  exact held.functionEnd_eq reads held.alike.2.symm ends.1

/-- From behind the other branch of a block the search comes out behind the end of the block. -/
theorem exists_block_of_elseBranch (listed : dividing ∈ instructions)
    (divides : dividing.opcode.action = .elseBranch) :
    ∃ opening closing, opening ∈ instructions ∧ opening.opcode.action = .ifTrue ∧
      DividesBlock instructions opening dividing ∧ EndsBlock instructions opening closing ∧
      blockEnd code dividing.next false = .ok closing.next := by
  obtain ⟨before, after, rfl⟩ := List.append_of_mem listed
  obtain ⟨brackets, moved, remaining⟩ := stepAll_append_eq_ok_iff.mp closed
  obtain ⟨between, moves, remaining⟩ := stepAll_cons_eq_ok_iff.mp remaining
  obtain ⟨opened, outer, rfl, rfl⟩ := moves.of_elseBranch divides
  have innermost : Innermost (before ++ dividing :: after) dividing (.conditional opened false) :=
    ⟨before, after, outer, rfl, moved⟩
  obtain ⟨opening, among, bracket, opens, held⟩ := innermost.exists_heldOpen reads closed
  have behind : stepAll [] (before ++ [dividing]) = .ok (.conditional opened true :: outer) := by
    rw [stepAll_append_of_ok moved]
    exact stepAll_cons_eq_ok_iff.mpr ⟨_, moves, rfl⟩
  obtain ⟨closing, last, open', closes⟩ := exists_closing closed behind
  rcases open'.eq_or_divided with rfl | ⟨_, _, impossible, _⟩
  · cases opens with
    | block opens =>
        cases (held.alike.1 : opened = opening.offset)
        exact ⟨opening, closing, among, opens, ⟨divides, innermost⟩,
          ⟨closes, true, open'.innermost⟩,
          open'.blockEnd_eq reads nofun (visitBlock_zero_of_endIf closes false)⟩
    | definition => cases held.alike.2
  · cases impossible

end Matching

/-- A search comes out behind the one instruction that is matched. -/
def LeadsBehind (found : Except FontError Nat) (matched : Instruction → Prop) : Prop :=
  ∃ stop, (∀ other, matched other ↔ other = stop) ∧ found = .ok stop.next

/-- A search that comes out behind whatever is matched comes out behind one instruction. -/
theorem leadsBehind_of_forall {code : Bytes} {instructions : List Instruction}
    (reads : Reads code 0 instructions) {found : Except FontError Nat}
    {matched : Instruction → Prop} (some : ∃ stop, matched stop)
    (among : ∀ stop, matched stop → stop ∈ instructions)
    (behind : ∀ stop, matched stop → found = .ok stop.next) : LeadsBehind found matched := by
  obtain ⟨stop, isMatched⟩ := some
  refine ⟨stop, fun other => ⟨fun alsoMatched => ?_, fun same => same ▸ isMatched⟩,
    behind stop isMatched⟩
  have sameEnd := (behind other alsoMatched).symm.trans (behind stop isMatched)
  exact reads.eq_of_next_eq (among other alsoMatched) (among stop isMatched)
    (Except.ok.inj sameEnd)

/-- The searches that start behind an instruction find what validation has matched with it. -/
structure SearchesAgree (code : Bytes) (instructions : List Instruction)
    (instruction : Instruction) : Prop where
  /-- A branch that is not taken ends at the other branch of its block, or else at its end. -/
  ofBlock : instruction.opcode.action = .ifTrue →
    LeadsBehind (blockEnd code instruction.next true) (DividesBlock instructions instruction) ∨
      (¬∃ dividing, DividesBlock instructions instruction dividing) ∧
        LeadsBehind (blockEnd code instruction.next true) (EndsBlock instructions instruction)
  /-- An other branch that is not taken ends where its block ends. -/
  ofOtherBranch : instruction.opcode.action = .elseBranch →
    ∃ opening ∈ instructions, opening.opcode.action = .ifTrue ∧
      DividesBlock instructions opening instruction ∧
      LeadsBehind (blockEnd code instruction.next false) (EndsBlock instructions opening)
  /-- A definition that is passed over ends at its own end. -/
  ofDefinition : instruction.opcode.action.opensDefinition →
    LeadsBehind (functionEnd code instruction.next) (EndsDefinition instructions instruction)

/--
In a valid program every search of a run, from behind an instruction that starts or divides
a block or starts a definition, succeeds and comes out behind the instruction that
validation has matched with it.
-/
theorem searchesAgree_of_validate {code : Bytes} (valid : validate code = .ok ()) :
    ∃ instructions, instructionsFrom code 0 = instructions.map .ok ∧
      ∀ instruction ∈ instructions, SearchesAgree code instructions instruction := by
  obtain ⟨instructions, reads, closed⟩ := validate_eq_ok_iff_stepAll.mp valid
  refine ⟨instructions, reads.instructionsFrom_eq, fun instruction listed => ⟨?_, ?_, ?_⟩⟩
  · intro opens
    by_cases divided : ∃ dividing, DividesBlock instructions instruction dividing
    · exact .inl (leadsBehind_of_forall reads divided (fun _ divides => divides.mem)
        fun _ divides => blockEnd_of_dividesBlock reads closed listed divides)
    · exact .inr ⟨divided, leadsBehind_of_forall reads (exists_endsBlock closed listed opens)
        (fun _ ends => ends.mem)
        fun _ ends => blockEnd_of_endsBlock reads closed listed ends fun _ => divided⟩
  · intro divides
    obtain ⟨opening, closing, among, opens, divides, ends, found⟩ :=
      exists_block_of_elseBranch reads closed listed divides
    refine ⟨opening, among, opens, divides, ?_⟩
    refine leadsBehind_of_forall reads ⟨closing, ends⟩ (fun _ ends => ends.mem) ?_
    intro other alsoEnds
    -- The search that never stops at the other branch tells the ends of one block apart.
    have first : blockEnd code opening.next false = _ :=
      blockEnd_of_endsBlock reads closed among ends nofun
    have second : blockEnd code opening.next false = _ :=
      blockEnd_of_endsBlock reads closed among alsoEnds nofun
    exact found.trans (first.symm.trans second)
  · intro defines
    exact leadsBehind_of_forall reads (exists_endsDefinition closed listed defines)
      (fun _ ends => ends.mem)
      fun _ ends => functionEnd_of_endsDefinition reads closed listed ends

/--
The first block holds data that looks like brackets and a definition with a block of its
own; the search counts the inner block, and passes over its other branch.
-/
theorem searchesAgree_of_validate_definitionInBranch :
    let code : Bytes :=
      #[0x58, 0xB1, 0x1B, 0x59, 0x2C, 0x58, 0x1B, 0x59, 0x2D, 0x1B, 0x58, 0x59, 0x59]
    validate code = .ok () ∧
      (∃ instructions, instructionsFrom code 0 = instructions.map .ok ∧
        ∀ instruction ∈ instructions, SearchesAgree code instructions instruction) ∧
      blockEnd code 1 true = .ok 10 ∧ blockEnd code 10 false = .ok 13 ∧
      functionEnd code 5 = .ok 9 := by
  intro code
  have valid : validate code = .ok () := by decide +kernel
  exact ⟨valid, searchesAgree_of_validate valid, by decide +kernel⟩

end Program

end OutlineFont.Hinting
