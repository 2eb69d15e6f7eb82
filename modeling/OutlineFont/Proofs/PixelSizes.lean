import OutlineFont.Proofs.EndPoints
import OutlineFont.Proofs.HintingPolicies
import OutlineFont.Proofs.ScaledLengths
import OutlineFont.Proofs.ScanLines

/-!
# Pixel sizes

Pixels per em are divided into the em to give the edge of a cell, and the edge of
a cell is divided into the em to give the pixels per em of the machine.  Neither
division is exact, but each is the best inverse of the other: the machine has the
most pixels per em with cells of that edge.  What is drawn depends on the edge
alone.  All three places that check it agree, and nothing else that can go wrong
is about it.
-/

namespace OutlineFont

/-! ### Failures that are not about the size of cells -/

/-- Whether a failure is about the size of cells. -/
def FontError.concernsCells : FontError → Bool
  | .gridSize _ => true
  | _ => false

/-- A failure of a kind to which no size of cells belongs is not about the size of cells. -/
theorem FontError.concernsCells_of_kind {kind : FontError → Bool} {failure : FontError}
    (member : kind failure = true) (apart : ∀ size, kind (.gridSize size) = false) :
    failure.concernsCells = false := by
  cases failure with
  | gridSize size => cases (apart size).symm.trans member
  | _ => rfl

namespace Hinting

variable {failure : FontError}

theorem Place.finish_error {place : Place} (failed : place.finish = .error failure) :
    failure.concernsCells = false := by
  unfold finish at failed
  split at failed
  · cases failed
  · cases failed
    rfl

theorem Place.Loses.concernsCells {place : Place} {flow : Flow}
    (loses : place.Loses flow failure) : failure.concernsCells = false := by
  cases loses <;> rfl

theorem Engine.perform_error {program : Program} {instruction : Instruction}
    {before after : Machine} (failed : perform program instruction before = .error failure after) :
    failure.concernsCells = false := by
  cases fails_of_perform failed with
  | operands concerns _ => exact FontError.concernsCells_of_kind concerns fun _ => rfl
  | skip _ _ missing _ =>
      exact FontError.concernsCells_of_kind (Program.blockEnd_error missing) fun _ => rfl
  | define _ missing _ _ =>
      exact FontError.concernsCells_of_kind (Program.functionEnd_error missing) fun _ => rfl

namespace Running

variable {running : Running} {session : Session}

/-- The last round of a run does not fail for the size of cells. -/
theorem Halts.concernsCells (halts : running.Halts session (.error failure)) :
    failure.concernsCells = false := by
  generalize ended : Except.error failure = outcome at halts
  cases halts with
  | finished => exact Place.finish_error ended.symm
  | exhausted =>
      cases ended
      rfl
  | undecoded _ _ missing =>
      cases ended
      exact FontError.concernsCells_of_kind (Instruction.decode_error missing) fun _ => rfl
  | failed _ _ performed =>
      cases ended
      exact Engine.perform_error performed
  | lost _ _ _ nowhere =>
      cases ended
      exact nowhere.concernsCells

/-- And as a run fails in its last round, no run does. -/
theorem Ends.concernsCells (ends : running.Ends session (.error failure)) :
    failure.concernsCells = false := by
  obtain ⟨last, _, finish⟩ := ends.exists_last
  exact (halts_of_round finish).concernsCells

end Running

namespace Session

variable {journal : Journal Notice} {session : Session}

theorem runNoting_error {program : Program}
    (failed : (session.runNoting journal program).outcome = .error failure) :
    failure.concernsCells = false := by
  obtain ⟨_, same⟩ | ⟨first, invalid, same⟩ | ⟨_, _, ends⟩ :=
    runNoting_cases journal session program
  · rw [same] at failed
    cases failed
  · rw [same] at failed
    cases failed
    exact FontError.concernsCells_of_kind (Program.validate_error invalid) fun _ => rfl
  · rw [failed] at ends
    exact ends.concernsCells

theorem runGlyphProgram_error {glyph : Glyph}
    (failed : (runGlyphProgram journal session glyph).outcome = .error failure) :
    failure.concernsCells = false := by
  unfold runGlyphProgram at failed
  split at failed
  · cases failed
  · exact runNoting_error failed

theorem runPrograms_error {fontProgram controlValueProgram : Bytes} {glyph : Glyph}
    (failed : session.runPrograms fontProgram controlValueProgram glyph = .error failure) :
    failure.concernsCells = false := by
  unfold runPrograms at failed
  rcases exceptBind_eq_error_iff.mp failed with font | ⟨_, _, failed⟩
  · exact runNoting_error font
  rcases exceptBind_eq_error_iff.mp failed with control | ⟨_, _, outline⟩
  · exact runNoting_error control
  · exact runGlyphProgram_error outline

theorem hintNoting_error {fontProgram controlValueProgram : Bytes} {glyph : Glyph}
    (failed : (session.hintNoting journal fontProgram controlValueProgram glyph).outcome =
      .error failure) : failure.concernsCells = false := by
  rw [hintNoting_outcome, exceptMap_eq_error_iff] at failed
  exact runPrograms_error failed

end Session

end Hinting

namespace Noted

variable {α : Type}

/-- Work that never fails for the size of cells. -/
abbrev AcceptsCells (work : Noted α) : Prop :=
  FailsWith (fun failure => failure.concernsCells = false) work

theorem acceptsCells_accept {result : Except FontError α}
    (expected : ∀ failure, result = .error failure → failure.concernsCells = false) :
    AcceptsCells (accept result) := by
  intro journal failure after failed
  unfold accept at failed
  cases result with
  | ok value => cases failed
  | error first =>
      cases failed
      exact expected failure rfl

theorem acceptsCells_attempt (work : Noted α) : AcceptsCells work.attempt := by
  intro journal failure after failed
  unfold attempt at failed
  split at failed <;> cases failed

theorem acceptsCells_decode (table : GlyphTable) (glyph : UInt16) :
    AcceptsCells (decode table glyph) :=
  (FailsWith.modify _).bind fun _ => acceptsCells_accept fun _ failed =>
    FontError.concernsCells_of_kind (GlyphTable.decode_error failed) fun _ => rfl

theorem acceptsCells_session {profile : MaximumProfile} {controlValues : List Int16}
    {unitsPerEm : UInt16} {gridSize : Nat} {session : Hinting.Session}
    (created : Hinting.Session.create profile controlValues unitsPerEm gridSize = .ok session) :
    AcceptsCells (Noted.session profile controlValues unitsPerEm gridSize) := by
  refine FailsWith.get.bind fun journal => (acceptsCells_accept ?_).bind fun _ =>
    (FailsWith.modify _).bind fun _ => .pure _
  intro failure failed
  rw [Hinting.Session.createNoting, created] at failed
  cases failed

theorem acceptsCells_hint (session : Hinting.Session) (fontProgram controlValueProgram : Bytes)
    (glyph : Glyph) : AcceptsCells (hint session fontProgram controlValueProgram glyph) :=
  FailsWith.get.bind fun _ => (FailsWith.modify _).bind fun _ =>
    acceptsCells_accept fun _ => Hinting.Session.hintNoting_error

theorem acceptsCells_rasterize (rasterizer : Raster.Rasterizer) (glyph : Glyph) :
    AcceptsCells (rasterize rasterizer glyph) := by
  refine (acceptsCells_accept fun failure failed => ?_).bind fun _ =>
    (FailsWith.modify _).bind fun _ => .pure _
  by_cases negative : glyph.metrics.width < 0 ∨ glyph.metrics.height < 0
  · rw [Raster.Rasterizer.rasterize, rasterizer.rasterizeIn_of_negative Float negative] at failed
    cases failed
    rfl
  · obtain ⟨mask, made⟩ := rasterizer.exists_rasterizeIn Float negative
    rw [Raster.Rasterizer.rasterize, made] at failed
    cases failed

end Noted

namespace Font

/-! ### Edges of cells -/

section

variable {whole part : Nat}

/-- One length goes into another as often as whatever goes into it so often. -/
theorem le_div_iff_le_div {other : Nat} (pos : 0 < part) (pos' : 0 < other) :
    part ≤ whole / other ↔ other ≤ whole / part := by
  rw [Nat.le_div_iff_mul_le pos', Nat.le_div_iff_mul_le pos, Nat.mul_comm]

theorem le_div_div (pos : 0 < whole / part) : part ≤ whole / (whole / part) :=
  have filled : 0 < part := Nat.pos_of_ne_zero fun zero => by simp [zero] at pos
  (le_div_iff_le_div filled pos).mpr (Nat.le_refl _)

/-- Dividing by a quotient and then by what that gives leads back to the quotient. -/
theorem div_div_div (pos : 0 < whole / part) : whole / (whole / (whole / part)) = whole / part := by
  have filled : 0 < part := Nat.pos_of_ne_zero fun zero => by simp [zero] at pos
  apply Nat.le_antisymm
  · exact Nat.div_le_div_left (le_div_div pos) filled
  · exact le_div_div (Nat.div_pos (Nat.div_le_self _ _) pos)

end

variable {font : Font} {pixelSize : UInt32} {gridSize : Nat}

theorem gridSize_eq_ok_iff : font.gridSize pixelSize = .ok gridSize ↔
    font.header.unitsPerEm.toNat / pixelSize.toNat = gridSize ∧ 0 < gridSize := by
  unfold Font.gridSize
  dsimp only
  split
  · next zero =>
      refine iff_of_false nofun ?_
      rintro ⟨rfl, pos⟩
      omega
  · next filled =>
      constructor
      · intro same
        cases same
        exact ⟨rfl, Nat.pos_of_ne_zero filled⟩
      · rintro ⟨rfl, _⟩
        rfl

/-- Cells have no size if there are no pixels in an em, or more of them than units. -/
theorem gridSize_eq_error
    (refused : pixelSize = 0 ∨ font.header.unitsPerEm.toNat < pixelSize.toNat) :
    font.gridSize pixelSize = .error (.gridSize 0) := by
  apply if_pos
  rcases refused with rfl | above
  · exact Nat.div_zero _
  · exact Nat.div_eq_of_lt above

theorem exists_gridSize
    (allowed : ¬(pixelSize = 0 ∨ font.header.unitsPerEm.toNat < pixelSize.toNat)) :
    ∃ gridSize, font.gridSize pixelSize = .ok gridSize := by
  obtain ⟨some, within⟩ := not_or.mp allowed
  refine ⟨_, gridSize_eq_ok_iff.mpr ⟨rfl, Nat.div_pos (Nat.not_lt.mp within) ?_⟩⟩
  exact Nat.pos_of_ne_zero fun none => some (UInt32.toNat_inj.mp none)

theorem gridSize_le (sized : font.gridSize pixelSize = .ok gridSize) :
    1 ≤ gridSize ∧ gridSize ≤ font.header.unitsPerEm.toNat := by
  obtain ⟨rfl, pos⟩ := gridSize_eq_ok_iff.mp sized
  exact ⟨pos, Nat.div_le_self _ _⟩

/-- The pixels per em that cells of an edge give are the most that have cells of that edge. -/
theorem isGreatest_div_gridSize (sized : font.gridSize pixelSize = .ok gridSize) :
    IsGreatest {pixels | ∃ size : UInt32, size.toNat = pixels ∧ font.gridSize size = .ok gridSize}
      (font.header.unitsPerEm.toNat / gridSize) := by
  constructor
  · obtain ⟨rfl, pos⟩ := gridSize_eq_ok_iff.mp sized
    have small := font.header.unitsPerEm.toNat_lt
    have stored : (UInt32.ofNat (font.header.unitsPerEm.toNat /
        (font.header.unitsPerEm.toNat / pixelSize.toNat))).toNat =
          font.header.unitsPerEm.toNat / (font.header.unitsPerEm.toNat / pixelSize.toNat) :=
      UInt32.toNat_ofNat_of_lt' (by
        have least := Nat.div_le_self font.header.unitsPerEm.toNat
          (font.header.unitsPerEm.toNat / pixelSize.toNat)
        exact Nat.lt_of_le_of_lt least (Nat.lt_trans small (by decide)))
    refine ⟨_, stored, gridSize_eq_ok_iff.mpr ⟨?_, pos⟩⟩
    rw [stored, div_div_div pos]
  · rintro _ ⟨other, rfl, same⟩
    obtain ⟨rfl, pos⟩ := gridSize_eq_ok_iff.mp same
    exact le_div_div pos

/-! ### Drawing at a size -/

/-- A session on a machine that has as many pixels per em as fit. -/
theorem exists_session (sized : font.gridSize pixelSize = .ok gridSize) :
    ∃ session, Hinting.Session.create font.profile font.controlValues font.header.unitsPerEm
        gridSize = .ok session ∧
      session.machine.ppem = font.header.unitsPerEm.toNat / gridSize := by
  obtain ⟨filled, fits⟩ := gridSize_le sized
  obtain ⟨machine, created, ppem, _⟩ :=
    Hinting.Machine.exists_create font.profile font.controlValues filled fits
  exact ⟨⟨machine, 0⟩, exceptMap_eq_ok_iff.mpr ⟨machine, created, rfl⟩, ppem⟩

theorem create_rasterizer (sized : font.gridSize pixelSize = .ok gridSize) :
    Raster.Rasterizer.create gridSize font.header.unitsPerEm = .ok ⟨gridSize⟩ := by
  obtain ⟨filled, fits⟩ := gridSize_le sized
  exact if_neg (by omega)

theorem acceptsCells_hint (sized : font.gridSize pixelSize = .ok gridSize) (outline : Glyph) :
    Noted.AcceptsCells (font.hint outline gridSize) := by
  obtain ⟨session, created, _⟩ := exists_session sized
  exact (Noted.acceptsCells_session created).bind fun session =>
    Noted.acceptsCells_hint session font.fontProgram font.controlValueProgram outline

theorem acceptsCells_applyHinting (sized : font.gridSize pixelSize = .ok gridSize)
    (policy : HintingPolicy) (glyph : UInt16) (outline : Glyph) :
    Noted.AcceptsCells (font.applyHinting policy glyph outline gridSize) := by
  cases policy with
  | disabled => exact .pure outline
  | strict => exact acceptsCells_hint sized outline
  | fallback =>
      refine (Noted.acceptsCells_attempt _).bind fun hinted => ?_
      cases hinted with
      | ok hinted => exact .pure hinted
      | error failure => exact (FailsWith.modify _).bind fun _ => .pure outline

theorem acceptsCells_draw (sized : font.gridSize pixelSize = .ok gridSize) (glyph : UInt16)
    (outline : Glyph) : Noted.AcceptsCells (font.draw glyph gridSize outline) := by
  unfold draw
  rw [create_rasterizer sized]
  exact FailsWith.bind (Noted.acceptsCells_accept nofun) fun rasterizer =>
    (Noted.acceptsCells_rasterize rasterizer outline).bind fun mask => .pure _

/-- What is drawn depends on the edge of the cells alone. -/
theorem renderGlyph_of_gridSize (sized : font.gridSize pixelSize = .ok gridSize) (glyph : UInt16)
    (policy : HintingPolicy) : font.renderGlyph glyph ⟨pixelSize, policy⟩ = (do
      let decoded ← font.decode glyph
      let outline ← font.applyHinting policy glyph decoded gridSize
      font.draw glyph gridSize outline) := by
  unfold renderGlyph
  rw [sized]
  rfl

/-- Once cells have a size, drawing a glyph never fails for it. -/
theorem acceptsCells_renderGlyph (sized : font.gridSize pixelSize = .ok gridSize) (glyph : UInt16)
    (policy : HintingPolicy) :
    Noted.AcceptsCells (font.renderGlyph glyph ⟨pixelSize, policy⟩) := by
  rw [renderGlyph_of_gridSize sized]
  exact (Noted.acceptsCells_decode font.glyphs glyph).bind fun decoded =>
    (acceptsCells_applyHinting sized policy glyph decoded).bind fun outline =>
      acceptsCells_draw sized glyph outline

/-- A size that is refused is refused first, before a glyph is decoded or anything is noted. -/
theorem renderGlyph_of_refused
    (refused : pixelSize = 0 ∨ font.header.unitsPerEm.toNat < pixelSize.toNat) (glyph : UInt16)
    (policy : HintingPolicy) (journal : Journal Event) :
    font.renderGlyph glyph ⟨pixelSize, policy⟩ journal = .error (.gridSize 0) journal := by
  unfold renderGlyph
  rw [gridSize_eq_error refused]
  rfl

/--
A glyph fails to be drawn for the size of its cells exactly when there are to be
no pixels in an em or more of them than units.  Then nothing else is looked at: a
glyph that cannot be decoded fails in the same way, and no note is taken.  For any
other size the cells measure at least one unit and at most an em, which the machine
and the rasterizer accept.  The machine has the most pixels per em that have cells
of that edge, so not fewer than were asked for, and all sizes with cells of that
edge give the same results and the same notes.
-/
theorem renderGlyph_gridSize (font : Font) (glyph : UInt16) (policy : HintingPolicy)
    (pixelSize : UInt32) :
    let refused := pixelSize = 0 ∨ font.header.unitsPerEm.toNat < pixelSize.toNat
    (∀ journal : Journal Event,
      ((∃ size after,
        font.renderGlyph glyph ⟨pixelSize, policy⟩ journal = .error (.gridSize size) after) ↔
          refused) ∧
      (refused →
        font.renderGlyph glyph ⟨pixelSize, policy⟩ journal = .error (.gridSize 0) journal)) ∧
    (¬refused → ∃ gridSize session,
      font.gridSize pixelSize = .ok gridSize ∧
      1 ≤ gridSize ∧ gridSize ≤ font.header.unitsPerEm.toNat ∧
      Hinting.Session.create font.profile font.controlValues font.header.unitsPerEm gridSize =
        .ok session ∧
      Raster.Rasterizer.create gridSize font.header.unitsPerEm = .ok ⟨gridSize⟩ ∧
      IsGreatest {pixels | ∃ size : UInt32, size.toNat = pixels ∧ font.gridSize size = .ok gridSize}
        session.machine.ppem ∧
      pixelSize.toNat ≤ session.machine.ppem ∧
      ∀ other, font.gridSize other = .ok gridSize →
        font.renderGlyph glyph ⟨other, policy⟩ = font.renderGlyph glyph ⟨pixelSize, policy⟩) := by
  intro refused
  refine ⟨fun journal => ⟨⟨?fails, ?fails_of⟩, ?first⟩, ?allowed⟩
  case fails =>
    rintro ⟨size, after, failed⟩
    by_contra allowed
    obtain ⟨gridSize, sized⟩ := exists_gridSize allowed
    cases acceptsCells_renderGlyph sized glyph policy _ _ _ failed
  case fails_of =>
    exact fun found => ⟨0, journal, renderGlyph_of_refused found glyph policy journal⟩
  case first => exact fun found => renderGlyph_of_refused found glyph policy journal
  case allowed =>
    intro allowed
    obtain ⟨gridSize, sized⟩ := exists_gridSize allowed
    obtain ⟨session, created, ppem⟩ := exists_session sized
    have greatest := isGreatest_div_gridSize sized
    rw [← ppem] at greatest
    obtain ⟨filled, fits⟩ := gridSize_le sized
    refine ⟨gridSize, session, sized, filled, fits, created, create_rasterizer sized, greatest,
      greatest.2 ⟨pixelSize, rfl, sized⟩, fun other same => ?_⟩
    rw [renderGlyph_of_gridSize same, renderGlyph_of_gridSize sized]

/--
Of an em of a thousand units, 334 pixels have cells of two units.  So do five
hundred, which the machine has.  The glyph cannot be decoded, but no pixels and
1001 pixels are refused before that.
-/
theorem renderGlyph_gridSize_thirds :
    let font : Font := {
      directory := default
      header := ⟨1000, ⟨0, 0, 6, 6⟩, .long⟩
      profile := ⟨1, 0, 0, 0, 8⟩
      characters := default
      glyphs := ⟨#[], ⟨#[], .long, 1⟩⟩
      controlValues := []
      fontProgram := #[]
      controlValueProgram := #[] }
    (∃ size after,
      font.renderGlyph 0 ⟨1001, .strict⟩ .silent = .error (.gridSize size) after) ∧
    font.renderGlyph 0 ⟨0, .strict⟩ .silent = .error (.gridSize 0) .silent ∧
    (¬∃ size after,
      font.renderGlyph 0 ⟨334, .strict⟩ .silent = .error (.gridSize size) after) ∧
    (∃ session, Hinting.Session.create font.profile [] 1000 2 = .ok session ∧
      334 ≤ session.machine.ppem) ∧
    font.renderGlyph 0 ⟨500, .strict⟩ = font.renderGlyph 0 ⟨334, .strict⟩ := by
  intro font
  obtain ⟨above, -⟩ := renderGlyph_gridSize font 0 .strict 1001
  obtain ⟨none, -⟩ := renderGlyph_gridSize font 0 .strict 0
  obtain ⟨within, drawn⟩ := renderGlyph_gridSize font 0 .strict 334
  obtain ⟨gridSize, session, sized, -, -, created, -, -, enough, same⟩ := drawn (by decide)
  have two : font.gridSize 334 = .ok 2 := gridSize_eq_ok_iff.mpr (by decide)
  have alsoTwo : font.gridSize 500 = .ok 2 := gridSize_eq_ok_iff.mpr (by decide)
  cases sized.symm.trans two
  exact ⟨(above .silent).1.mpr (by decide), (none .silent).2 (by decide),
    mt (within .silent).1.mp (by decide), ⟨session, created, enough⟩, same 500 alsoTwo⟩

end Font

end OutlineFont
