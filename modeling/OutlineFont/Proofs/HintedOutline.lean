import OutlineFont.Proofs.Histories

/-!
# The outline of a hinted glyph

No instruction moves a point of the glyph, so hinting that succeeds gives the
glyph back: its points are handed to the machine in one row and cut at the sizes
of its contours again.  What a run comes to does not depend on the notes that are
taken of it.
-/

namespace OutlineFont.Hinting.Session

theorem runNoting_of_invalid {program : Program} {failure : FontError}
    (invalid : Program.validate program.code = .error failure) (journal : Journal Notice)
    (session : Session) :
    session.runNoting journal program = ⟨session, journal, .error failure⟩ := by
  obtain ⟨empty, _⟩ | ⟨first, again, same⟩ | ⟨valid, _, _⟩ :=
    runNoting_cases journal session program
  · cases (Program.validate_of_isEmpty empty).symm.trans invalid
  · cases again.symm.trans invalid
    exact same
  · cases valid.symm.trans invalid

/-- Two runs that differ in their notes leave the same session and come to the same outcome. -/
theorem runNoting_congr (journal other : Journal Notice) (session : Session) (program : Program) :
    (session.runNoting journal program).session = (session.runNoting other program).session ∧
      (session.runNoting journal program).outcome = (session.runNoting other program).outcome := by
  cases valid : Program.validate program.code with
  | ok _ => exact (runNoting_ends valid journal session).unique (runNoting_ends valid other session)
  | error failure =>
      rw [runNoting_of_invalid valid, runNoting_of_invalid valid]
      exact ⟨rfl, rfl⟩

theorem runGlyphProgram_congr (journal other : Journal Notice) (session : Session)
    (glyph : Glyph) :
    (runGlyphProgram journal session glyph).session =
        (runGlyphProgram other session glyph).session ∧
      (runGlyphProgram journal session glyph).outcome =
        (runGlyphProgram other session glyph).outcome := by
  unfold runGlyphProgram
  split
  · exact ⟨rfl, rfl⟩
  · exact runNoting_congr journal other session _

theorem runGlyphProgram_evolves (journal : Journal Notice) (session : Session) (glyph : Glyph) :
    session.machine.Evolves (runGlyphProgram journal session glyph).session.machine := by
  unfold runGlyphProgram
  split
  · exact .refl _
  · exact runNoting_evolves journal session _

/-- The points of a glyph that nothing has moved are cut into its contours. -/
theorem unload_of_outline_eq {session : Session} {glyph : Glyph}
    (unmoved : session.machine.outline = (session.load glyph).machine.outline) :
    session.unload glyph = glyph := by
  unfold unload
  rw [unmoved]
  simp only [load, Glyph.points, Glyph.cut_sizes]

/-- What the programs of a glyph come to, run in order until one of them fails. -/
def runPrograms (session : Session) (fontProgram controlValueProgram : Bytes) (glyph : Glyph) :
    Except FontError Unit := do
  let afterFont := session.run ⟨.font, fontProgram⟩
  afterFont.outcome
  let afterControl := afterFont.session.run ⟨.controlValue, controlValueProgram⟩
  afterControl.outcome
  ((afterControl.session.load glyph).runGlyphProgram .silent glyph).outcome

/-- Hinting fails as its programs fail, and gives the glyph back if none of them does. -/
theorem hintNoting_outcome (journal : Journal Notice) (session : Session)
    (fontProgram controlValueProgram : Bytes) (glyph : Glyph) :
    (session.hintNoting journal fontProgram controlValueProgram glyph).outcome =
      (session.runPrograms fontProgram controlValueProgram glyph).map fun _ => glyph := by
  unfold hintNoting runPrograms run
  dsimp only
  obtain ⟨sameSession, sameOutcome⟩ := runNoting_congr journal .silent session ⟨.font, fontProgram⟩
  rw [sameSession, sameOutcome]
  cases (session.runNoting .silent ⟨.font, fontProgram⟩).outcome with
  | error failure => rfl
  | ok _ =>
      generalize (session.runNoting .silent ⟨.font, fontProgram⟩).session = afterFont
      generalize (session.runNoting journal ⟨.font, fontProgram⟩).journal = journal
      obtain ⟨sameSession, sameOutcome⟩ :=
        runNoting_congr journal .silent afterFont ⟨.controlValue, controlValueProgram⟩
      dsimp only
      rw [sameSession, sameOutcome]
      cases (afterFont.runNoting .silent ⟨.controlValue, controlValueProgram⟩).outcome with
      | error failure => rfl
      | ok _ =>
          generalize (afterFont.runNoting .silent ⟨.controlValue, controlValueProgram⟩).session =
            afterControl
          generalize (afterFont.runNoting journal ⟨.controlValue, controlValueProgram⟩).journal =
            journal
          obtain ⟨sameSession, sameOutcome⟩ :=
            runGlyphProgram_congr journal .silent (afterControl.load glyph) glyph
          have unmoved :=
            (runGlyphProgram_evolves .silent (afterControl.load glyph) glyph).outline
          dsimp only
          rw [sameSession, sameOutcome, unload_of_outline_eq unmoved]
          cases ((afterControl.load glyph).runGlyphProgram .silent glyph).outcome with
          | error failure => rfl
          | ok _ => rfl

/-- Hinting that succeeds changes nothing of a glyph. -/
theorem eq_of_hintNoting {journal : Journal Notice} {session : Session}
    {fontProgram controlValueProgram : Bytes} {glyph hinted : Glyph}
    (succeeded : (session.hintNoting journal fontProgram controlValueProgram glyph).outcome =
      .ok hinted) : hinted = glyph := by
  rw [hintNoting_outcome] at succeeded
  cases ran : session.runPrograms fontProgram controlValueProgram glyph with
  | error failure =>
      rw [ran] at succeeded
      cases succeeded
  | ok _ =>
      rw [ran] at succeeded
      cases succeeded
      rfl

end OutlineFont.Hinting.Session
