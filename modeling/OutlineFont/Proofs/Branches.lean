import OutlineFont.Proofs.EmbeddedRuns

/-!
# Running one of two branches

A program may be nothing but a block with two branches, each of them a program
without jumps and definitions.  Running it pops the condition and does what one
of the branches does alone.  The machine knows no blocks: from the start of the
block it looks for the other branch, and from there for the end of the block,
past all the brackets in between.
-/

namespace OutlineFont.Hinting

/-- A program that runs one of two branches, and does nothing else. -/
def Program.branching (kind : ProgramKind) (first second : Bytes) : Program :=
  ⟨kind, #[0x58] ++ first ++ #[0x1B] ++ second ++ #[0x59]⟩

/-- A session with other elements on the stack. -/
def Session.withStack (items : List Int32) (session : Session) : Session :=
  { session with machine := { session.machine with stack := .ofList items } }

namespace Program

variable (kind : ProgramKind) (first second : Bytes)

theorem branching_encloses_if : Encloses (branching kind first second).code 0 #[0x58] :=
  ⟨#[], first ++ #[0x1B] ++ second ++ #[0x59], by simp [branching], rfl⟩

theorem branching_encloses_first : Encloses (branching kind first second).code 1 first :=
  ⟨#[0x58], #[0x1B] ++ second ++ #[0x59], by simp [branching], rfl⟩

theorem branching_encloses_else :
    Encloses (branching kind first second).code (first.size + 1) #[0x1B] :=
  ⟨#[0x58] ++ first, second ++ #[0x59], by simp [branching], by simp [Nat.add_comm]⟩

theorem branching_encloses_second :
    Encloses (branching kind first second).code (first.size + 2) second :=
  ⟨#[0x58] ++ first ++ #[0x1B], #[0x59], rfl, by simp; omega⟩

theorem branching_encloses_endIf :
    Encloses (branching kind first second).code (second.size + (first.size + 2)) #[0x59] :=
  ⟨#[0x58] ++ first ++ #[0x1B] ++ second, #[], by simp [branching], by simp; omega⟩

theorem size_branching :
    (branching kind first second).code.size = second.size + (first.size + 2) + 1 := by
  simp [branching]
  omega

variable {kind first second}

/-- From the start of the second branch, the branch is read and the end of the block. -/
theorem Reads.branching_second {instructions : List Instruction}
    (reads : Reads second 0 instructions) :
    Reads (branching kind first second).code (first.size + 2)
      (instructions.map (.shift (first.size + 2)) ++
        [⟨second.size + (first.size + 2), ⟨0x59⟩, []⟩]) := by
  have behind : Reads (branching kind first second).code _ [] := .done
  rw [size_branching] at behind
  have last := Reads.next
    (Instruction.decode_byte (branching_encloses_endIf kind first second) rfl) behind
  have all := reads.shift_append (branching_encloses_second kind first second) last
  rw [Nat.zero_add] at all
  exact all

/-- From the start of the first branch, it is read, and both branches and the end behind it. -/
theorem Reads.branching_first {firstInstructions instructions : List Instruction}
    (firstReads : Reads first 0 firstInstructions) (reads : Reads second 0 instructions) :
    Reads (branching kind first second).code 1
      (firstInstructions.map (.shift 1) ++ ⟨first.size + 1, ⟨0x1B⟩, []⟩ ::
        (instructions.map (.shift (first.size + 2)) ++
          [⟨second.size + (first.size + 2), ⟨0x59⟩, []⟩])) := by
  have divides := Instruction.decode_byte (branching_encloses_else kind first second) rfl
  have all := firstReads.shift_append (branching_encloses_first kind first second)
    (.next divides reads.branching_second)
  rw [Nat.zero_add] at all
  exact all

theorem validate_branching (firstValid : validate first = .ok ())
    (secondValid : validate second = .ok ()) :
    validate (branching kind first second).code = .ok () := by
  obtain ⟨firstInstructions, firstReads, firstClosed⟩ := validate_eq_ok_iff_stepAll.mp firstValid
  obtain ⟨instructions, reads, closed⟩ := validate_eq_ok_iff_stepAll.mp secondValid
  have whenTrue := (stepAll_eq_nil_iff_balanced.mp firstClosed).map_shift 1
  have otherwise := (stepAll_eq_nil_iff_balanced.mp closed).map_shift (first.size + 2)
  have opens := Instruction.decode_byte (branching_encloses_if kind first second) rfl
  refine validate_eq_ok_iff_stepAll.mpr ⟨_, .next opens (firstReads.branching_first reads), ?_⟩
  exact stepAll_eq_nil_iff_balanced.mpr (.branches rfl whenTrue rfl otherwise rfl .nil)

/-- From the start of the block, the other branch is found behind the first one. -/
theorem blockEnd_branching_if (firstValid : validate first = .ok ())
    (secondValid : validate second = .ok ()) :
    blockEnd (branching kind first second).code 1 true = .ok (first.size + 2) := by
  obtain ⟨firstInstructions, firstReads, closed⟩ := validate_eq_ok_iff_stepAll.mp firstValid
  obtain ⟨instructions, reads, _⟩ := validate_eq_ok_iff_stepAll.mp secondValid
  apply (firstReads.branching_first reads).blockEnd_eq
  rw [((stepAll_eq_nil_iff_balanced.mp closed).map_shift 1).searchList_visitBlock]
  rfl

/-- From the other branch, the end of the block is found behind it. -/
theorem blockEnd_branching_else (secondValid : validate second = .ok ()) :
    blockEnd (branching kind first second).code (first.size + 2) false =
      .ok (branching kind first second).code.size := by
  obtain ⟨instructions, reads, closed⟩ := validate_eq_ok_iff_stepAll.mp secondValid
  apply reads.branching_second.blockEnd_eq
  rw [((stepAll_eq_nil_iff_balanced.mp closed).map_shift _).searchList_visitBlock, size_branching]
  rfl

variable (kind first second)

/-- The first branch as it stands in the block. -/
def firstBranch : Embedding where
  part := ⟨kind, first⟩
  whole := branching kind first second
  shift := 1
  bottom := []
  encloses := branching_encloses_first kind first second
  kinds := rfl

/-- The second branch as it stands in the block. -/
def secondBranch : Embedding where
  part := ⟨kind, second⟩
  whole := branching kind first second
  shift := first.size + 2
  bottom := []
  encloses := branching_encloses_second kind first second
  kinds := rfl

variable {kind first second}

/-- Behind the first branch, the second one is skipped. -/
theorem comes_behind_firstBranch (secondValid : validate second = .ok ()) (machine : Machine) :
    Comes machine (firstBranch kind first second).behind machine (.ok ()) := by
  have divides := Instruction.decode_byte (branching_encloses_else kind first second) rfl
  have skips : Engine.perform (branching kind first second) ⟨first.size + 1, ⟨0x1B⟩, []⟩ machine =
      .ok (.goto (branching kind first second).code.size) machine := by
    have looks : Engine.perform (branching kind first second) ⟨first.size + 1, ⟨0x1B⟩, []⟩ =
        (do return .goto (← Engine.accept
          (blockEnd (branching kind first second).code (first.size + 2) false))) := rfl
    rw [looks, blockEnd_branching_else secondValid]
    rfl
  exact .on (Place.advance_of_follow divides skips rfl)
    (.stop (Place.advance_of_atEnd (decide_eq_true (Nat.le_refl _))))

/-- Behind the second branch, the block ends. -/
theorem comes_behind_secondBranch (machine : Machine) :
    Comes machine (secondBranch kind first second).behind machine (.ok ()) := by
  have ends := Instruction.decode_byte (branching_encloses_endIf kind first second) rfl
  refine .on (Place.advance_of_follow ends rfl rfl) (.stop (Place.advance_of_atEnd ?_))
  exact decide_eq_true (Nat.le_of_eq (size_branching kind first second))

end Program

/-- A block runs the first branch if the condition holds, and else the second one. -/
theorem Comes.of_branching {machine after : Machine} {outcome : Except FontError Unit}
    {kind : ProgramKind} {first second : Bytes} {condition : Int32} {rest : List Int32}
    (firstValid : Program.validate first = .ok ()) (secondValid : Program.validate second = .ok ())
    (comes : Comes machine (.start (.branching kind first second)) after outcome)
    (stack : machine.stack.items = condition :: rest) :
    Comes { machine with stack := .ofList rest }
      ⟨.branching kind first second, if condition ≠ 0 then 1 else first.size + 2, []⟩ after
        outcome := by
  have opens := Instruction.decode_byte (Program.branching_encloses_if kind first second) rfl
  have pops : Engine.popTruth machine =
      .ok (condition != 0) { machine with stack := .ofList rest } := by
    unfold Engine.popTruth
    rw [map_eq_pure_bind, bind_of_ok (Engine.pop_of_items stack)]
    rfl
  have looks : Engine.perform (.branching kind first second) ⟨0, ⟨0x58⟩, []⟩ = (do
      if ← Engine.popTruth then
        return .goto 1
      else
        return .goto (← Engine.accept
          (Program.blockEnd (Program.branching kind first second).code 1 true))) := rfl
  have enters : Engine.perform (.branching kind first second) ⟨0, ⟨0x58⟩, []⟩ machine =
      .ok (.goto (if condition ≠ 0 then 1 else first.size + 2))
        { machine with stack := .ofList rest } := by
    rw [looks, bind_of_ok pops, Program.blockEnd_branching_if firstValid secondValid]
    by_cases holds : condition = 0
    · subst holds
      rfl
    · rw [if_pos (bne_iff_ne.mpr holds), if_pos holds]
      rfl
  exact comes.next (Place.advance_of_follow opens enters rfl)

namespace Session

/--
A block with two branches that are valid and without jumps and definitions pops the
condition and does what the first branch does if the condition holds, and what the second
one does if not, unless the limit of instructions ends one of the runs.
-/
theorem run_branching {kind : ProgramKind} {first second : Bytes} {session : Session}
    {condition : Int32} {rest : List Int32} (firstValid : Program.validate first = .ok ())
    (firstStraight : Program.Straight first) (secondValid : Program.validate second = .ok ())
    (secondStraight : Program.Straight second)
    (stack : session.machine.stack.items = condition :: rest)
    (wholeFree : (session.run (.branching kind first second)).outcome ≠
      .error (.hinting (.instructionLimit instructionLimit)))
    (branchFree : ((session.withStack rest).run
      ⟨kind, if condition ≠ 0 then first else second⟩).outcome ≠
        .error (.hinting (.instructionLimit instructionLimit))) :
    (session.run (.branching kind first second)).Alike
      ((session.withStack rest).run ⟨kind, if condition ≠ 0 then first else second⟩) := by
  have block := run_comes (Program.validate_branching firstValid secondValid) wholeFree
  have inside := block.of_branching firstValid secondValid stack
  by_cases holds : condition ≠ 0
  · rw [if_pos holds] at inside branchFree ⊢
    exact (Program.firstBranch kind first second).alike (.of_validate firstValid firstStraight)
      inside (run_comes firstValid branchFree) (Program.comes_behind_firstBranch secondValid)
      fun occupied => absurd rfl occupied
  · rw [if_neg holds] at inside branchFree ⊢
    exact (Program.secondBranch kind first second).alike (.of_validate secondValid secondStraight)
      inside (run_comes secondValid branchFree) Program.comes_behind_secondBranch
      fun occupied => absurd rfl occupied

/--
The condition does not hold; the first branch pushes bytes that look like brackets, and
the second one has a block with two branches of its own and such a byte.
-/
theorem run_branching_bracketBytes :
    ∃ fresh, create ⟨1, 0, 0, 1, 8⟩ [] 1000 20 = .ok fresh ∧
      let session := (fresh.run ⟨.glyph, #[0xB2, 7, 1, 0]⟩).session
      let first : Bytes := #[0xB1, 0x1B, 0x59, 0x21]
      let second : Bytes := #[0x58, 0xB0, 0x59, 0x1B, 0x59, 0x60]
      (session.run (.branching .glyph first second)).Alike
        ((session.withStack [1, 7]).run ⟨.glyph, if (0 : Int32) ≠ 0 then first else second⟩) ∧
      (session.run (.branching .glyph first second)).session.machine.stack.items = [96] := by
  have created : ∃ fresh, create ⟨1, 0, 0, 1, 8⟩ [] 1000 20 = .ok fresh := ⟨_, rfl⟩
  obtain ⟨fresh, created⟩ := created
  refine ⟨fresh, created, ?_⟩
  intro session first second
  have stack : session.machine.stack.items = [0, 1, 7] := by
    cases created
    decide +kernel
  have wholeFree : (session.run (.branching .glyph first second)).outcome ≠
      .error (.hinting (.instructionLimit instructionLimit)) := by
    cases created
    decide +kernel
  have branchFree : ((session.withStack [1, 7]).run
      ⟨.glyph, if (0 : Int32) ≠ 0 then first else second⟩).outcome ≠
        .error (.hinting (.instructionLimit instructionLimit)) := by
    cases created
    decide +kernel
  have firstValid : Program.validate first = .ok () := by decide +kernel
  have secondValid : Program.validate second = .ok () := by decide +kernel
  refine ⟨run_branching firstValid (by decide +kernel) secondValid (by decide +kernel) stack
    wholeFree branchFree, ?_⟩
  cases created
  decide +kernel

end Session

end OutlineFont.Hinting
