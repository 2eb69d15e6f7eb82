import OutlineFont.Proofs.Rounds

/-!
# Runs without the count of instructions

Two programs that do the same may need different numbers of instructions.  What
a run does to the machine depends on the count only where the limit ends it.  A
run that the limit does not end is one of a loop that does not count.
-/

namespace OutlineFont.Hinting

/-- What comes of one round that is not counted. -/
inductive Advance where
  | stop (machine : Machine) (outcome : Except FontError Unit)
  | on (machine : Machine) (place : Place)

namespace Place

/-- One round: the instruction at a place is carried out, whatever has been before. -/
def advance (place : Place) (machine : Machine) : Advance :=
  if place.atEnd then
    .stop machine place.finish
  else
    match Instruction.decode place.program.code place.offset with
    | .error failure => .stop machine (.error failure)
    | .ok instruction =>
        match Engine.perform place.program instruction machine with
        | .error failure machine => .stop machine (.error failure)
        | .ok flow machine =>
            match place.follow flow with
            | .error failure => .stop machine (.error failure)
            | .ok place => .on machine place

variable {place target : Place} {machine after : Machine} {instruction : Instruction}
  {flow : Flow} {failure : FontError}

theorem advance_of_atEnd (atEnd : place.atEnd = true) :
    place.advance machine = .stop machine place.finish := by
  rw [advance, if_pos atEnd]

/-- An instruction can be read before the end of a program only. -/
theorem not_atEnd_of_decode
    (decoded : Instruction.decode place.program.code place.offset = .ok instruction) :
    ¬place.atEnd = true := by
  unfold atEnd
  exact fun atEnd => Nat.not_lt.mpr (of_decide_eq_true atEnd) (Instruction.decode_lt decoded)

theorem advance_of_decode_error (inside : ¬place.atEnd = true)
    (missing : Instruction.decode place.program.code place.offset = .error failure) :
    place.advance machine = .stop machine (.error failure) := by
  rw [advance, if_neg inside, missing]

theorem advance_of_perform_error
    (decoded : Instruction.decode place.program.code place.offset = .ok instruction)
    (performed : Engine.perform place.program instruction machine = .error failure after) :
    place.advance machine = .stop after (.error failure) := by
  simp only [advance, if_neg (not_atEnd_of_decode decoded), decoded, performed]

theorem advance_of_follow_error
    (decoded : Instruction.decode place.program.code place.offset = .ok instruction)
    (performed : Engine.perform place.program instruction machine = .ok flow after)
    (nowhere : place.follow flow = .error failure) :
    place.advance machine = .stop after (.error failure) := by
  simp only [advance, if_neg (not_atEnd_of_decode decoded), decoded, performed, nowhere]

theorem advance_of_follow
    (decoded : Instruction.decode place.program.code place.offset = .ok instruction)
    (performed : Engine.perform place.program instruction machine = .ok flow after)
    (followed : place.follow flow = .ok target) :
    place.advance machine = .on after target := by
  simp only [advance, if_neg (not_atEnd_of_decode decoded), decoded, performed, followed]

end Place

/-- What a run comes to from a place on, if no limit of instructions ends it. -/
inductive Comes : Machine → Place → Machine → Except FontError Unit → Prop where
  | stop {machine after : Machine} {place : Place} {outcome : Except FontError Unit}
      (round : place.advance machine = .stop after outcome) : Comes machine place after outcome
  | on {machine between after : Machine} {place target : Place} {outcome : Except FontError Unit}
      (round : place.advance machine = .on between target)
      (rest : Comes between target after outcome) : Comes machine place after outcome

/-- A run comes to one thing only. -/
theorem Comes.unique {machine first second : Machine} {place : Place}
    {outcome other : Except FontError Unit} (comes : Comes machine place first outcome)
    (again : Comes machine place second other) : first = second ∧ outcome = other := by
  induction comes with
  | stop round =>
      cases again with
      | stop same =>
          cases round.symm.trans same
          exact ⟨rfl, rfl⟩
      | on same _ => cases round.symm.trans same
  | on round _ ih =>
      cases again with
      | stop same => cases round.symm.trans same
      | on same rest =>
          cases round.symm.trans same
          exact ih rest

theorem Comes.next {machine between after : Machine} {place target : Place}
    {outcome : Except FontError Unit} (comes : Comes machine place after outcome)
    (round : place.advance machine = .on between target) : Comes between target after outcome := by
  cases comes with
  | stop other => cases round.symm.trans other
  | on other rest =>
      cases round.symm.trans other
      exact rest

theorem Comes.stopped {machine last after : Machine} {place : Place}
    {outcome other : Except FontError Unit} (comes : Comes machine place after outcome)
    (round : place.advance machine = .stop last other) : after = last ∧ outcome = other :=
  comes.unique (.stop round)

namespace Running

/-- A run that the limit does not end comes to what it comes to without a count. -/
theorem Ends.comes {running : Running} {session : Session} {outcome : Except FontError Unit}
    (ends : running.Ends session outcome)
    (unlimited : outcome ≠ .error (.hinting (.instructionLimit instructionLimit))) :
    Comes running.session.machine running.place session.machine outcome := by
  induction ends with
  | @stop running session outcome stops =>
      obtain ⟨⟨machine, executed⟩, place⟩ := running
      unfold round at stops
      dsimp only at stops
      split at stops
      · next atEnd =>
          cases stops
          exact .stop (Place.advance_of_atEnd atEnd)
      · next inside =>
          split at stops
          · cases stops
            exact absurd rfl unlimited
          · split at stops
            · next missing =>
                cases stops
                exact .stop (Place.advance_of_decode_error inside missing)
            · next decoded =>
                split at stops
                · next performed =>
                    cases stops
                    exact .stop (Place.advance_of_perform_error decoded performed)
                · next performed =>
                    split at stops
                    · next nowhere =>
                        cases stops
                        exact .stop (Place.advance_of_follow_error decoded performed nowhere)
                    · cases stops
  | on next _ ih =>
      obtain ⟨instruction, flow, steps⟩ := Next.steps next
      exact .on (Place.advance_of_follow steps.decoded steps.performed steps.followed.follow_eq)
        (ih unlimited)

end Running

/-- A valid program that the limit does not end comes to what it comes to without a count. -/
theorem Session.run_comes {session : Session} {program : Program}
    (valid : Program.validate program.code = .ok ())
    (unlimited : (session.run program).outcome ≠
      .error (.hinting (.instructionLimit instructionLimit))) :
    Comes session.machine (.start program) (session.run program).session.machine
      (session.run program).outcome :=
  (runNoting_ends valid .silent session).comes unlimited

end OutlineFont.Hinting
