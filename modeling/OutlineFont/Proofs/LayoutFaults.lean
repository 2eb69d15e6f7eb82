import OutlineFont.Proofs.BlockSearch

/-!
# Faults of layout

A program may have faults in its layout, its instructions may have faults in
their operands, and a run may come to its bounds.  Reading instructions,
checking brackets and looking ahead fail for the layout only.
-/

namespace OutlineFont

/-- Whether a fault lies in the layout of a program: its instructions, blocks or definitions. -/
def HintingFault.isStructural : HintingFault → Bool
  | .noInstruction _ | .missingData _ _ | .secondElse _ _ | .strayElse _ | .strayEndIf _
  | .nestedDefinition _ _ _ | .definitionEndsInBlock _ | .strayEndFunction _
  | .unclosedDefinition _ | .unclosedIf _ | .unclosedBlock _ | .unclosedFunction _
  | .endOutsideFunction _ | .bodyRunsPastEnd => true
  | _ => false

/-- Whether a fault is that a run has reached one of its bounds. -/
def HintingFault.isBound : HintingFault → Bool
  | .instructionLimit _ | .callDepth _ => true
  | _ => false

/-- Whether a failure lies in the layout of a program. -/
def FontError.concernsLayout : FontError → Bool
  | .hinting fault => fault.isStructural
  | _ => false

/-- Whether a failure lies in an instruction or its operands. -/
def FontError.concernsOperands : FontError → Bool
  | .hinting fault => !fault.isStructural && !fault.isBound
  | .outOfRange _ _ _ | .unimplemented _ _ => true
  | _ => false

theorem FontError.concernsLayout_of_concernsOperands {failure : FontError}
    (operands : failure.concernsOperands = true) : failure.concernsLayout = false := by
  cases failure with
  | hinting fault =>
      rw [concernsOperands, Bool.and_eq_true, Bool.not_eq_true'] at operands
      exact operands.1
  | _ => rfl

theorem FontError.ne_limit_of_layout {failure : FontError} {limit : Nat}
    (layout : failure.concernsLayout = true) : failure ≠ .hinting (.instructionLimit limit) := by
  rintro rfl
  cases layout

theorem FontError.ne_limit_of_operands {failure : FontError} {limit : Nat}
    (operands : failure.concernsOperands = true) :
    failure ≠ .hinting (.instructionLimit limit) := by
  rintro rfl
  cases operands

namespace Hinting

/-- An instruction that cannot be read is not there, or misses its data. -/
theorem Instruction.decode_error {code : Bytes} {offset : Nat} {failure : FontError}
    (failed : decode code offset = .error failure) : failure.concernsLayout = true := by
  unfold decode at failed
  split at failed
  · cases failed
    rfl
  · split at failed
    · cases failed
      rfl
    · split at failed
      · cases failed
      · cases failed
        rfl

namespace Bracket

theorem step_error {brackets : List Bracket} {instruction : Instruction} {fault : HintingFault}
    (failed : step brackets instruction = .error fault) : fault.isStructural = true := by
  unfold step at failed
  dsimp only at failed
  split at failed
  · cases failed
  · split at failed
    · cases failed
    · cases failed
      rfl
    · cases failed
      rfl
  · split at failed
    · cases failed
    · cases failed
      rfl
  · split at failed
    · cases failed
    · cases failed
      rfl
  · split at failed
    · cases failed
    · cases failed
      rfl
  · split at failed
    · cases failed
    · cases failed
      rfl
    · cases failed
      rfl
  · cases failed

theorem finish_error {brackets : List Bracket} {fault : HintingFault}
    (failed : finish brackets = .error fault) : fault.isStructural = true := by
  unfold finish at failed
  split at failed
  · cases failed
    rfl
  · cases failed
    rfl
  · cases failed

end Bracket

namespace Program

theorem instructionsWithin_error {code : Bytes} {fuel offset : Nat} {failure : FontError}
    (listed : .error failure ∈ instructionsWithin code fuel offset) :
    failure.concernsLayout = true := by
  induction fuel generalizing offset with
  | zero => cases listed
  | succ fuel ih =>
      unfold instructionsWithin at listed
      split at listed
      · split at listed
        · rcases List.mem_cons.mp listed with impossible | later
          · cases impossible
          · exact ih later
        · next first missing =>
            cases List.mem_singleton.mp listed
            exact Instruction.decode_error missing
      · cases listed

theorem foldlM_items_error {items : List (Except FontError Instruction)}
    {brackets : List Bracket} {failure : FontError}
    (listed : ∀ first, .error first ∈ items → first.concernsLayout = true)
    (failed : items.foldlM (fun brackets item => do
      (Bracket.step brackets (← item)).mapError FontError.hinting) brackets = .error failure) :
    failure.concernsLayout = true := by
  induction items generalizing brackets with
  | nil => cases failed
  | cons item rest ih =>
      rw [List.foldlM_cons] at failed
      cases item with
      | error first =>
          cases failed
          exact listed _ List.mem_cons_self
      | ok instruction =>
          cases moved : Bracket.step brackets instruction with
          | error fault =>
              simp only [bind, Except.bind, moved, Except.mapError] at failed
              cases failed
              exact Bracket.step_error moved
          | ok between =>
              simp only [bind, Except.bind, moved, Except.mapError] at failed
              exact ih (fun first later => listed first (List.mem_cons_of_mem _ later)) failed

/-- Whatever validation refuses, it refuses for the layout. -/
theorem validate_error {code : Bytes} {failure : FontError}
    (refused : validate code = .error failure) : failure.concernsLayout = true := by
  unfold validate at refused
  cases moved : (instructionsFrom code 0).foldlM (fun brackets item => do
      (Bracket.step brackets (← item)).mapError FontError.hinting) [] with
  | error first =>
      rw [moved] at refused
      cases refused
      exact foldlM_items_error (fun _ => instructionsWithin_error) moved
  | ok brackets =>
      rw [moved] at refused
      cases finished : Bracket.finish brackets with
      | error fault =>
          simp only [bind, Except.bind, finished, Except.mapError] at refused
          cases refused
          exact Bracket.finish_error finished
      | ok _ =>
          simp only [bind, Except.bind, finished, Except.mapError] at refused
          cases refused

theorem searchWithin_error {State Answer : Type} {code : Bytes}
    {visit : State → Instruction → State ⊕ Answer} {fuel offset : Nat} {state : State}
    {failure : FontError} (failed : searchWithin code visit fuel offset state = .error failure) :
    failure.concernsLayout = true := by
  induction fuel generalizing offset state with
  | zero => cases failed
  | succ fuel ih =>
      unfold searchWithin at failed
      split at failed
      · split at failed
        · next first missing =>
            cases failed
            exact Instruction.decode_error missing
        · split at failed
          · exact ih failed
          · cases failed
      · cases failed

/-- A search that must have an answer fails when it is missing, or as it was read. -/
theorem answerOr_error {fault : HintingFault} (structural : fault.isStructural = true)
    {result : Except FontError (Option Nat)} {failure : FontError}
    (reading : ∀ first, result = .error first → first.concernsLayout = true)
    (failed : answerOr fault result = .error failure) : failure.concernsLayout = true := by
  cases result with
  | error first =>
      cases failed
      exact reading _ rfl
  | ok answer =>
      cases answer with
      | some found => cases failed
      | none =>
          cases failed
          exact structural

theorem blockEnd_error {code : Bytes} {start : Nat} {atElse : Bool} {failure : FontError}
    (failed : blockEnd code start atElse = .error failure) : failure.concernsLayout = true := by
  rw [blockEnd_eq_answerOr] at failed
  exact answerOr_error rfl (fun _ => searchWithin_error) failed

theorem functionEnd_error {code : Bytes} {start : Nat} {failure : FontError}
    (failed : functionEnd code start = .error failure) : failure.concernsLayout = true := by
  rw [functionEnd_eq_answerOr] at failed
  exact answerOr_error rfl (fun _ => searchWithin_error) failed

end Program

end Hinting

end OutlineFont
