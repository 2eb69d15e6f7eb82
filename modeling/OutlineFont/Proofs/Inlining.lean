import OutlineFont.Proofs.EmbeddedRuns

/-!
# Calling a function

A program without jumps and definitions can be bound to an index as the body of
a function.  Calling the function then does what running the program would have
done in its place.  Where the function was bound, how often the machine has been
used since, and what kind of program calls it do not matter.
-/

namespace OutlineFont

/-- A failure because a run is too long, its calls are too deep, or its stack is full. -/
def FontError.isLimit : FontError → Bool
  | .hinting (.instructionLimit _) | .hinting (.callDepth _) | .hinting .stackOverflow => true
  | _ => false

namespace Hinting

def Finish.hitsLimit (finish : Finish) : Bool :=
  match finish.outcome with
  | .ok () => false
  | .error failure => failure.isLimit

theorem Finish.ne_of_hitsLimit {finish : Finish} (free : finish.hitsLimit = false)
    {failure : FontError} (limit : failure.isLimit = true) : finish.outcome ≠ .error failure := by
  intro ended
  unfold hitsLimit at free
  rw [ended] at free
  cases limit.symm.trans free

namespace Engine

theorem push_of_lt {machine : Machine} (room : machine.stack.depth < Stack.limit)
    (value : Int32) :
    push value machine =
      .ok () { machine with stack := .ofList (value :: machine.stack.items) } := by
  unfold push rearrange
  dsimp only
  rw [Stack.push_of_lt room]

theorem push_of_le {machine : Machine} (full : Stack.limit ≤ machine.stack.depth)
    (value : Int32) : push value machine = .error (.hinting .stackOverflow) machine := by
  unfold push rearrange
  dsimp only
  rw [Stack.push_of_le full]

/-- The machine after a number has been pushed. -/
theorem pop_pushed (machine : Machine) (value : Int32) :
    pop { machine with stack := .ofList (value :: machine.stack.items) } = .ok value machine := by
  rw [pop_of_items (Stack.items_ofList _), Stack.ofList_items]

theorem lookup_of_bound {index : Int32} {function : Function} {machine : Machine}
    (bound : machine.functions[toIndex index]? = some (some function)) :
    lookup index machine = .ok function machine := by
  unfold lookup
  rw [bound]

/-- Binding an index binds that index. -/
theorem bound_of_define {index : Int32} {function : Function} {machine after : Machine}
    (defined : define index function machine = .ok () after) :
    after.functions[toIndex index]? = some (some function) := by
  unfold define at defined
  split at defined
  · next inside =>
      split at defined
      · cases defined
        exact Array.getElem?_set_self inside
      · cases defined
  · cases defined

end Engine

/-- The number that a pushed byte stands for. -/
def pushedByte (byte : UInt8) : Int32 :=
  Int32.ofNat byte.toNat

theorem Engine.perform_pushByte (program : Program) (offset : Nat) (byte : UInt8) :
    perform program ⟨offset, ⟨0xB0⟩, [byte]⟩ =
      (do push (pushedByte byte); return .goto (offset + 2)) := by
  have pushes : perform program ⟨offset, ⟨0xB0⟩, [byte]⟩ =
      ((push (pushedByte byte) >>= fun _ => pure ()) >>= fun _ => pure (.goto (offset + 2))) := rfl
  rw [pushes, bind_pure_unit]

theorem Engine.perform_define (program : Program) (offset : Nat) :
    perform program ⟨offset, ⟨0x2C⟩, []⟩ = (do
      define (← pop) ⟨program, offset + 1⟩
      return .goto (← accept (Program.functionEnd program.code (offset + 1)))) :=
  rfl

theorem Engine.perform_call (program : Program) (offset : Nat) :
    perform program ⟨offset, ⟨0x2B⟩, []⟩ = (do
      let function ← lookup (← pop)
      return .enter function 0 (offset + 1)) :=
  rfl

/-- A program that binds an index to a body, and does nothing else. -/
def Program.defining (kind : ProgramKind) (index : UInt8) (body : Bytes) : Program :=
  ⟨kind, #[0xB0, index, 0x2C] ++ body ++ #[0x2D]⟩

/-- A program that calls the function of an index, and does nothing else. -/
def Program.calling (kind : ProgramKind) (index : UInt8) : Program :=
  ⟨kind, #[0xB0, index, 0x2B]⟩

namespace Program

theorem validate_calling (kind : ProgramKind) (index : UInt8) :
    validate (calling kind index).code = .ok () :=
  validate_eq_ok_iff_stepAll.mpr
    ⟨[⟨0, ⟨0xB0⟩, [index]⟩, ⟨2, ⟨0x2B⟩, []⟩], .next rfl (.next rfl .done), rfl⟩

variable (kind : ProgramKind) (index : UInt8) (body : Bytes)

theorem defining_encloses_start :
    Encloses (defining kind index body).code 0 #[0xB0, index, 0x2C] :=
  ⟨#[], body ++ #[0x2D], by simp [defining], rfl⟩

theorem defining_encloses_body : Encloses (defining kind index body).code 3 body :=
  ⟨#[0xB0, index, 0x2C], #[0x2D], rfl, rfl⟩

theorem defining_encloses_end :
    Encloses (defining kind index body).code (body.size + 3) #[0x2D] :=
  ⟨#[0xB0, index, 0x2C] ++ body, #[], by simp [defining], by simp [Nat.add_comm]⟩

/-- A body as it stands in the program that binds it, called by a program of some kind. -/
def calledBody (other : ProgramKind) : Embedding where
  part := ⟨kind, body⟩
  whole := defining kind index body
  shift := 3
  bottom := [⟨calling other index, 3, ⟨defining kind index body, 3⟩, 0⟩]
  encloses := defining_encloses_body kind index body
  kinds := rfl

end Program

/-- A program that calls the function of an index runs it, unless the stack is full. -/
theorem Comes.of_calling {machine after : Machine} {outcome : Except FontError Unit}
    {kind : ProgramKind} {index : UInt8} {function : Function}
    (comes : Comes machine (.start (.calling kind index)) after outcome)
    (bound : machine.functions[toIndex (pushedByte index)]? = some (some function)) :
    outcome = .error (.hinting .stackOverflow) ∨
      Comes machine ⟨function.program, function.start, [⟨.calling kind index, 3, function, 0⟩]⟩
        after outcome := by
  have pushes : Instruction.decode (Program.calling kind index).code 0 =
      .ok ⟨0, ⟨0xB0⟩, [index]⟩ := rfl
  have calls : Instruction.decode (Program.calling kind index).code 2 = .ok ⟨2, ⟨0x2B⟩, []⟩ := rfl
  by_cases room : machine.stack.depth < Stack.limit
  · have pushed : Engine.perform (.calling kind index) ⟨0, ⟨0xB0⟩, [index]⟩ machine =
        .ok (.goto 2)
          { machine with stack := .ofList (pushedByte index :: machine.stack.items) } := by
      rw [Engine.perform_pushByte, bind_of_ok (Engine.push_of_lt room _)]
      rfl
    have called : Engine.perform (.calling kind index) ⟨2, ⟨0x2B⟩, []⟩
        { machine with stack := .ofList (pushedByte index :: machine.stack.items) } =
          .ok (.enter function 0 3) machine := by
      rw [Engine.perform_call, bind_of_ok (Engine.pop_pushed machine _),
        bind_of_ok (Engine.lookup_of_bound bound)]
      rfl
    have entered := comes.next (Place.advance_of_follow pushes pushed rfl)
    exact .inr (entered.next (Place.advance_of_follow calls called rfl))
  · have overflow : Engine.perform (.calling kind index) ⟨0, ⟨0xB0⟩, [index]⟩ machine =
        .error (.hinting .stackOverflow) machine := by
      rw [Engine.perform_pushByte, bind_of_error (Engine.push_of_le (Nat.le_of_not_lt room) _)]
    exact .inl (comes.stopped (Place.advance_of_perform_error pushes overflow)).2

/-- Behind the body the function returns, and the calling program is over. -/
theorem Program.comes_behind_calledBody (kind other : ProgramKind) (index : UInt8) (body : Bytes)
    (machine : Machine) :
    Comes machine (calledBody kind index body other).behind machine (.ok ()) := by
  have ends := Instruction.decode_byte (defining_encloses_end kind index body) rfl
  exact .on (Place.advance_of_follow ends rfl rfl) (.stop (Place.advance_of_atEnd rfl))

namespace Session

/-- The sessions that come of one by loading glyphs and by running programs. -/
inductive Later (origin : Session) : Session → Prop where
  | now : Later origin origin
  | loaded {session : Session} (before : Later origin session) (glyph : Glyph) :
      Later origin (session.load glyph)
  | ran {session : Session} (before : Later origin session) (program : Program) :
      Later origin (session.run program).session

/-- A function stays bound. -/
theorem Later.bound {origin later : Session} (since : Later origin later) {index : Nat}
    {function : Function} (bound : origin.machine.functions[index]? = some (some function)) :
    later.machine.functions[index]? = some (some function) := by
  induction since with
  | now => exact bound
  | loaded _ glyph ih => exact ih
  | ran _ program ih => exact (runNoting_evolves .silent _ program).functions index function ih

/-- A program that binds an index to a body, if it succeeds, has bound it behind its start. -/
theorem bound_of_run_defining {session : Session} {kind : ProgramKind} {index : UInt8}
    {body : Bytes} (defines : (session.run (.defining kind index body)).outcome = .ok ()) :
    (session.run (.defining kind index body)).session.machine.functions[
      toIndex (pushedByte index)]? = some (some ⟨.defining kind index body, 3⟩) := by
  let program := Program.defining kind index body
  have encloses := Program.defining_encloses_start kind index body
  have pushes : Instruction.decode program.code 0 = .ok ⟨0, ⟨0xB0⟩, [index]⟩ :=
    Instruction.decode_start encloses rfl
  have binds : Instruction.decode program.code 2 = .ok ⟨2, ⟨0x2C⟩, []⟩ :=
    Instruction.decode_shift encloses
      (rfl : Instruction.decode _ 2 = .ok ⟨2, ⟨0x2C⟩, []⟩)
  obtain ⟨⟨⟨pushed, _⟩, place⟩, _, _, first, ends⟩ :=
    (run_ends_of_ok defines).next_of_ok (Place.not_atEnd_of_decode pushes)
  cases pushes.symm.trans first.decoded
  have performed := first.performed
  rw [Engine.perform_pushByte] at performed
  by_cases room : session.machine.stack.depth < Stack.limit
  · rw [bind_of_ok (Engine.push_of_lt room _)] at performed
    cases performed
    cases first.followed
    obtain ⟨⟨⟨after, _⟩, _⟩, _, _, second, ends⟩ :=
      ends.next_of_ok (Place.not_atEnd_of_decode binds)
    cases binds.symm.trans second.decoded
    have performed := second.performed
    rw [Engine.perform_define, bind_of_ok (Engine.pop_pushed session.machine _)] at performed
    obtain ⟨_, bound, defined, rest⟩ := bind_eq_ok_iff.mp performed
    obtain ⟨_, _, accepted, finish⟩ := bind_eq_ok_iff.mp rest
    obtain ⟨_, rfl⟩ := Engine.accept_eq_ok_iff.mp accepted
    cases finish
    exact ends.evolves.functions _ _ (Engine.bound_of_define defined)
  · rw [bind_of_error (Engine.push_of_le (Nat.le_of_not_lt room) _)] at performed
    cases performed

/--
A function that was defined with a body without jumps and definitions, by a program of
some kind, does what the body does as a program of this kind.  It may be called by any
kind of program, at any time since, as long as none of the limits ends either run.
-/
theorem run_calling {kind other : ProgramKind} {index : UInt8} {body : Bytes}
    {before later : Session} (valid : Program.validate body = .ok ())
    (straight : Program.Straight body)
    (defines : (before.run (.defining kind index body)).outcome = .ok ())
    (since : Later (before.run (.defining kind index body)).session later)
    (calledFree : (later.run (.calling other index)).hitsLimit = false)
    (aloneFree : (later.run ⟨kind, body⟩).hitsLimit = false) :
    (later.run (.calling other index)).Alike (later.run ⟨kind, body⟩) := by
  have alone : Comes later.machine (.start ⟨kind, body⟩)
      (later.run ⟨kind, body⟩).session.machine (later.run ⟨kind, body⟩).outcome :=
    run_comes valid (Finish.ne_of_hitsLimit aloneFree rfl)
  have called := run_comes (Program.validate_calling other index)
    (Finish.ne_of_hitsLimit calledFree rfl)
  obtain overflow | inside := called.of_calling (since.bound (bound_of_run_defining defines))
  · exact absurd overflow (Finish.ne_of_hitsLimit calledFree rfl)
  · exact (Program.calledBody kind index body other).alike (.of_validate valid straight) inside
      alone (Program.comes_behind_calledBody kind other index body)
      fun _ => Finish.ne_of_hitsLimit calledFree rfl

/--
The body of the second function branches and calls the first one twice, which a font
program has defined.  A glyph program calls it on a stack that a run has left.
-/
theorem run_calling_nested :
    ∃ fresh, create ⟨1, 0, 0, 2, 8⟩ [] 1000 20 = .ok fresh ∧
      let body : Bytes := #[0x20, 0x58, 0xB1, 2, 0, 0x2A, 0x1B, 0x21, 0x59]
      let before := (fresh.run (.defining .font 0 #[0x20, 0x60])).session
      let defined := (before.run (.defining .controlValue 1 body)).session
      let later := ((defined.load .blank).run ⟨.glyph, #[0xB0, 5]⟩).session
      (later.run (.calling .glyph 1)).Alike (later.run ⟨.controlValue, body⟩) ∧
      (later.run (.calling .glyph 1)).session.machine.stack.items = [20] := by
  have created : ∃ fresh, create ⟨1, 0, 0, 2, 8⟩ [] 1000 20 = .ok fresh := ⟨_, rfl⟩
  obtain ⟨fresh, created⟩ := created
  refine ⟨fresh, created, ?_⟩
  intro body before defined later
  have defines : (before.run (.defining .controlValue 1 body)).outcome = .ok () := by
    cases created
    decide +kernel
  have since : Later (before.run (.defining .controlValue 1 body)).session later :=
    .ran (.loaded .now .blank) ⟨.glyph, #[0xB0, 5]⟩
  have calledFree : (later.run (.calling .glyph 1)).hitsLimit = false := by
    cases created
    decide +kernel
  have aloneFree : (later.run ⟨.controlValue, body⟩).hitsLimit = false := by
    cases created
    decide +kernel
  refine ⟨run_calling (by decide +kernel) (by decide +kernel) defines since calledFree aloneFree,
    ?_⟩
  cases created
  decide +kernel

end Session

end Hinting

end OutlineFont
