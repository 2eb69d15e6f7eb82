import OutlineFont.Font
import OutlineFont.Proofs.HintedOutline

/-!
# The three hinting policies

Hinting gives a glyph back or fails, so the policies differ only when it fails:
then the strict one fails as hinting did, and the one that falls back leaves a
warning and draws what is drawn without hinting.
-/

namespace OutlineFont

/-- The glyph of a warning that it is drawn unhinted, with the reason. -/
def Event.hintingFailure? : Event → Option (UInt16 × FontError)
  | .hintingFailed glyph failure => some (glyph, failure)
  | _ => none

namespace Journal

/-- The warnings of a journal that glyphs are drawn unhinted, oldest first. -/
def hintingFailures (journal : Journal Event) : List (UInt16 × FontError) :=
  journal.notes.toList.filterMap Event.hintingFailure?

@[simp] theorem threshold_record {Note : Type} [Notable Note] (journal : Journal Note)
    (note : Note) : (journal.record note).threshold = journal.threshold := by
  unfold record
  split <;> rfl

@[simp] theorem threshold_recordAll {Note : Type} [Notable Note] (journal : Journal Note)
    (notes : List Note) : (journal.recordAll notes).threshold = journal.threshold := by
  unfold recordAll
  induction notes generalizing journal with
  | nil => rfl
  | cons note rest ih => rw [List.foldl_cons, ih, threshold_record]

theorem hintingFailures_record {journal : Journal Event} {event : Event}
    (quiet : event.hintingFailure? = none) :
    (journal.record event).hintingFailures = journal.hintingFailures := by
  unfold record
  split
  · simp [hintingFailures, quiet]
  · rfl

theorem hintingFailures_recordAll {journal : Journal Event} {events : List Event}
    (quiet : ∀ event ∈ events, event.hintingFailure? = none) :
    (journal.recordAll events).hintingFailures = journal.hintingFailures := by
  unfold recordAll
  induction events generalizing journal with
  | nil => rfl
  | cons event rest ih =>
      have later : ∀ event ∈ rest, event.hintingFailure? = none :=
        fun event listed => quiet event (List.mem_cons_of_mem _ listed)
      rw [List.foldl_cons, ih later, hintingFailures_record (quiet event List.mem_cons_self)]

/-- A warning is kept whenever anything is. -/
theorem hintingFailures_record_hintingFailed (journal : Journal Event) (glyph : UInt16)
    (failure : FontError) :
    (journal.record (.hintingFailed glyph failure)).hintingFailures =
      journal.hintingFailures ++ if journal.threshold.isSome then [(glyph, failure)] else [] := by
  unfold record wants
  cases journal.threshold with
  | none => simp
  | some level => simp [hintingFailures, Event.hintingFailure?, Notable.level, Level.detail]

end Journal

namespace Noted

variable {α β : Type}

/-- What work comes to, with the journal that it leaves. -/
def observe (work : Noted α) (journal : Journal Event) : Except FontError α × Journal Event :=
  match work journal with
  | .ok value after => (.ok value, after)
  | .error failure after => (.error failure, after)

/--
Work that comes to the same whatever has been noted before, and that leaves these
warnings that glyphs are drawn unhinted, if anything is noted at all.
-/
structure Comes (work : Noted α) (outcome : Except FontError α)
    (warnings : List (UInt16 × FontError)) : Prop where
  outcome : ∀ journal, (work.observe journal).1 = outcome
  threshold : ∀ journal, (work.observe journal).2.threshold = journal.threshold
  warnings : ∀ journal, (work.observe journal).2.hintingFailures =
    journal.hintingFailures ++ if journal.threshold.isSome then warnings else []

theorem observe_bind (work : Noted α) (next : α → Noted β) (journal : Journal Event) :
    (work >>= next).observe journal =
      match work.observe journal with
      | (.ok value, between) => (next value).observe between
      | (.error failure, between) => (.error failure, between) := by
  unfold observe
  cases outcome : work journal with
  | ok value between => rw [bind_of_ok outcome]
  | error failure between => rw [bind_of_error outcome]

namespace Comes

variable {work : Noted α} {warnings : List (UInt16 × FontError)}

theorem pure (value : α) : Comes (pure value) (.ok value) [] :=
  ⟨fun _ => rfl, fun _ => rfl, fun journal => by simp [observe, Pure.pure, EStateM.pure]⟩

theorem accept {result outcome : Except FontError α} (same : result = outcome) :
    Comes (accept result) outcome [] := by
  subst same
  cases result with
  | ok value => exact pure value
  | error failure =>
      exact ⟨fun _ => rfl, fun _ => rfl, fun journal => by simp [observe, Noted.accept]⟩

theorem noteAll {events : List Event} (quiet : ∀ event ∈ events, event.hintingFailure? = none) :
    Comes (noteAll events) (.ok ()) [] where
  outcome _ := rfl
  threshold journal := journal.threshold_recordAll events
  warnings journal := by
    rw [ite_self, List.append_nil]
    exact Journal.hintingFailures_recordAll quiet

theorem note {event : Event} (quiet : event.hintingFailure? = none) :
    Comes (note event) (.ok ()) [] where
  outcome _ := rfl
  threshold journal := journal.threshold_record event
  warnings journal := by
    rw [ite_self, List.append_nil]
    exact Journal.hintingFailures_record quiet

theorem note_hintingFailed (glyph : UInt16) (failure : FontError) :
    Comes (Noted.note (.hintingFailed glyph failure)) (.ok ()) [(glyph, failure)] where
  outcome _ := rfl
  threshold journal := journal.threshold_record _
  warnings journal := journal.hintingFailures_record_hintingFailed glyph failure

theorem bind {next : α → Noted β} {value : α} {outcome : Except FontError β}
    {later : List (UInt16 × FontError)} (first : Comes work (.ok value) warnings)
    (second : Comes (next value) outcome later) :
    Comes (work >>= next) outcome (warnings ++ later) := by
  have whole (journal : Journal Event) :
      (work >>= next).observe journal = (next value).observe (work.observe journal).2 := by
    have same := first.outcome journal
    rw [observe_bind]
    generalize work.observe journal = observed at same
    obtain ⟨_, _⟩ := observed
    subst same
    rfl
  refine ⟨fun journal => ?_, fun journal => ?_, fun journal => ?_⟩
  · rw [whole, second.outcome]
  · rw [whole, second.threshold, first.threshold]
  · rw [whole, second.warnings, first.warnings, first.threshold, List.append_assoc]
    split <;> simp

theorem bind_error {next : α → Noted β} {failure : FontError}
    (first : Comes work (.error failure) warnings) :
    Comes (work >>= next) (.error failure) warnings := by
  have whole (journal : Journal Event) :
      (work >>= next).observe journal = (.error failure, (work.observe journal).2) := by
    have same := first.outcome journal
    rw [observe_bind]
    generalize work.observe journal = observed at same
    obtain ⟨_, _⟩ := observed
    subst same
    rfl
  refine ⟨fun journal => ?_, fun journal => ?_, fun journal => ?_⟩
  · rw [whole]
  · rw [whole, first.threshold]
  · rw [whole, first.warnings]

/-- The warnings of work whose outcome is taken as a value stay. -/
theorem attempt {outcome : Except FontError α} (comes : Comes work outcome warnings) :
    Comes work.attempt (.ok outcome) warnings := by
  have whole (journal : Journal Event) :
      work.attempt.observe journal = (.ok (work.observe journal).1, (work.observe journal).2) := by
    unfold observe Noted.attempt
    cases work journal with
    | ok value after => rfl
    | error failure after => rfl
  refine ⟨fun journal => ?_, fun journal => ?_, fun journal => ?_⟩
  · rw [whole, comes.outcome]
  · rw [whole, comes.threshold]
  · rw [whole, comes.warnings]

/-- Work that looks at the journal and comes to the same whatever it sees. -/
theorem get_bind {next : Journal Event → Noted β} {outcome : Except FontError β}
    (comes : ∀ journal, Comes (next journal) outcome warnings) :
    Comes (get >>= next) outcome warnings where
  outcome journal := (comes journal).outcome journal
  threshold journal := (comes journal).threshold journal
  warnings journal := (comes journal).warnings journal

theorem outcome_eq {outcome : Except FontError α} (comes : Comes work outcome warnings) :
    work.outcome = outcome := by
  rw [← comes.outcome .silent]
  unfold Noted.outcome observe
  cases work .silent with
  | ok value after => rfl
  | error failure after => rfl

theorem warnings_opened {outcome : Except FontError α} (comes : Comes work outcome warnings)
    (threshold : Option Level) : (work.observe (.opened threshold)).2.hintingFailures =
      if threshold.isSome then warnings else [] :=
  (comes.warnings _).trans (List.nil_append _)

theorem decode (table : GlyphTable) (glyph : UInt16) :
    Comes (decode table glyph) (table.decode glyph) [] := by
  refine bind (noteAll ?_) (accept rfl)
  intro event listed
  obtain ⟨reference, _, rfl⟩ := List.mem_map.mp listed
  rfl

theorem noteAll_hinting (notices : List Hinting.Notice) :
    Comes (Noted.noteAll (notices.map .hinting)) (.ok ()) [] := by
  apply noteAll
  intro event listed
  obtain ⟨notice, _, rfl⟩ := List.mem_map.mp listed
  rfl

theorem session (profile : MaximumProfile) (controlValues : List Int16) (unitsPerEm : UInt16)
    (gridSize : Nat) :
    Comes (session profile controlValues unitsPerEm gridSize)
      (Hinting.Session.create profile controlValues unitsPerEm gridSize) [] := by
  refine get_bind fun journal => ?_
  unfold Hinting.Session.createNoting
  cases Hinting.Session.create profile controlValues unitsPerEm gridSize with
  | error failure => exact bind_error (accept rfl)
  | ok session => exact bind (accept rfl) (bind (noteAll_hinting _) (pure session))

theorem hint (session : Hinting.Session) (fontProgram controlValueProgram : Bytes)
    (glyph : Glyph) :
    Comes (hint session fontProgram controlValueProgram glyph)
      (session.hint fontProgram controlValueProgram glyph) [] := by
  refine get_bind fun journal => bind (noteAll_hinting _) ?_
  unfold Hinting.Session.hint
  rw [Hinting.Session.hintNoting_outcome, Hinting.Session.hintNoting_outcome]
  exact accept rfl

/-- Drawing a mask leaves no warning. -/
theorem exists_rasterize (rasterizer : Raster.Rasterizer) (glyph : Glyph) :
    ∃ outcome, Comes (rasterize rasterizer glyph) outcome [] := by
  cases drawn : rasterizer.rasterize glyph with
  | error failure => exact ⟨_, bind_error (accept drawn)⟩
  | ok mask => exact ⟨_, bind (accept drawn) (bind (note rfl) (pure mask))⟩

end Comes

end Noted

namespace Font

open Noted (Comes)

/-- Why a glyph cannot be hinted for which there is a cell size and which can be decoded. -/
def hintingFailure? (font : Font) (glyph : UInt16) (pixelSize : UInt32) : Option FontError :=
  match font.gridSize pixelSize, font.glyphs.decode glyph with
  | .ok gridSize, .ok outline =>
      match (font.hint outline gridSize).outcome with
      | .ok _ => none
      | .error failure => some failure
  | _, _ => none

theorem comes_hint (font : Font) (outline : Glyph) (gridSize : Nat) :
    Comes (font.hint outline gridSize) (do
      let session ← Hinting.Session.create font.profile font.controlValues
        font.header.unitsPerEm gridSize
      session.hint font.fontProgram font.controlValueProgram outline) [] := by
  have create := Comes.session font.profile font.controlValues font.header.unitsPerEm gridSize
  unfold hint
  cases created : Hinting.Session.create font.profile font.controlValues font.header.unitsPerEm
      gridSize with
  | error failure =>
      rw [created] at create
      exact create.bind_error
  | ok session =>
      rw [created] at create
      exact create.bind (Comes.hint session font.fontProgram font.controlValueProgram outline)

/-- Hinting an outline comes to the same whatever has been noted, and gives the outline back. -/
theorem comes_hint_outcome (font : Font) (outline : Glyph) (gridSize : Nat) :
    Comes (font.hint outline gridSize) (font.hint outline gridSize).outcome [] ∧
      ∀ hinted, (font.hint outline gridSize).outcome = .ok hinted → hinted = outline := by
  have comes := font.comes_hint outline gridSize
  rw [comes.outcome_eq]
  refine ⟨comes, ?_⟩
  intro hinted succeeded
  cases created : Hinting.Session.create font.profile font.controlValues font.header.unitsPerEm
      gridSize with
  | error failure =>
      rw [created] at succeeded
      cases succeeded
  | ok session =>
      rw [created] at succeeded
      exact Hinting.Session.eq_of_hintNoting succeeded

def draw (font : Font) (glyph : UInt16) (gridSize : Nat) (outline : Glyph) :
    Noted Rendering := do
  let rasterizer ← Noted.accept (Raster.Rasterizer.create gridSize font.header.unitsPerEm)
  return ⟨glyph, outline, ← Noted.rasterize rasterizer outline⟩

theorem exists_comes_draw (font : Font) (glyph : UInt16) (gridSize : Nat) (outline : Glyph) :
    ∃ outcome, Comes (font.draw glyph gridSize outline) outcome [] := by
  unfold draw
  cases Raster.Rasterizer.create gridSize font.header.unitsPerEm with
  | error failure => exact ⟨_, (Comes.accept rfl).bind_error⟩
  | ok rasterizer =>
      obtain ⟨drawn, comes⟩ := Comes.exists_rasterize rasterizer outline
      cases drawn with
      | error failure => exact ⟨_, (Comes.accept rfl).bind comes.bind_error⟩
      | ok mask => exact ⟨_, (Comes.accept rfl).bind (comes.bind (.pure _))⟩

/-- What the policies make of an outline that can be hinted, or not. -/
theorem comes_applyHinting (font : Font) (policy : HintingPolicy) (glyph : UInt16)
    (outline : Glyph) (gridSize : Nat) :
    match policy, (font.hint outline gridSize).outcome with
    | .strict, .error failure =>
        Comes (font.applyHinting policy glyph outline gridSize) (.error failure) []
    | .fallback, .error failure =>
        Comes (font.applyHinting policy glyph outline gridSize) (.ok outline) [(glyph, failure)]
    | _, _ => Comes (font.applyHinting policy glyph outline gridSize) (.ok outline) [] := by
  obtain ⟨comes, same⟩ := font.comes_hint_outcome outline gridSize
  unfold applyHinting
  cases outcome : (font.hint outline gridSize).outcome with
  | error failure =>
      rw [outcome] at comes
      cases policy with
      | disabled => exact .pure outline
      | strict => exact comes
      | fallback =>
          exact comes.attempt.bind ((Comes.note_hintingFailed glyph failure).bind (.pure outline))
  | ok hinted =>
      rw [outcome] at comes
      cases same hinted outcome
      cases policy with
      | disabled => exact .pure outline
      | strict => exact comes
      | fallback => exact comes.attempt.bind (.pure outline)

theorem comes_renderGlyph_of_gridSize_error {font : Font} {pixelSize : UInt32}
    {failure : FontError} (sized : font.gridSize pixelSize = .error failure) (glyph : UInt16)
    (policy : HintingPolicy) :
    Comes (font.renderGlyph glyph ⟨pixelSize, policy⟩) (.error failure) [] :=
  (Comes.accept sized).bind_error

section

variable {font : Font} {glyph : UInt16} {pixelSize : UInt32} {gridSize : Nat}

theorem comes_renderGlyph_of_decode_error {failure : FontError}
    (sized : font.gridSize pixelSize = .ok gridSize)
    (decoded : font.glyphs.decode glyph = .error failure) (policy : HintingPolicy) :
    Comes (font.renderGlyph glyph ⟨pixelSize, policy⟩) (.error failure) [] := by
  have decode := Comes.decode font.glyphs glyph
  rw [decoded] at decode
  exact (Comes.accept sized).bind decode.bind_error

variable {outline : Glyph} {policy : HintingPolicy} {warnings : List (UInt16 × FontError)}

/-- Once a glyph is decoded, rendering is what becomes of its outline. -/
theorem comes_renderGlyph_of_decode {drawn : Except FontError Rendering}
    (sized : font.gridSize pixelSize = .ok gridSize)
    (decoded : font.glyphs.decode glyph = .ok outline)
    (comes : Comes (font.applyHinting policy glyph outline gridSize >>= font.draw glyph gridSize)
      drawn warnings) :
    Comes (font.renderGlyph glyph ⟨pixelSize, policy⟩) drawn warnings := by
  have decode := Comes.decode font.glyphs glyph
  rw [decoded] at decode
  exact (Comes.accept sized).bind (decode.bind comes)

end

/-- What rendering comes to under each policy, whatever has been noted before. -/
theorem comes_renderGlyph (font : Font) (glyph : UInt16) (pixelSize : UInt32) :
    ∃ unhinted,
      Comes (font.renderGlyph glyph ⟨pixelSize, .disabled⟩) unhinted [] ∧
      Comes (font.renderGlyph glyph ⟨pixelSize, .fallback⟩) unhinted
        ((font.hintingFailure? glyph pixelSize).toList.map (glyph, ·)) ∧
      Comes (font.renderGlyph glyph ⟨pixelSize, .strict⟩)
        (match font.hintingFailure? glyph pixelSize with
        | some failure => .error failure
        | none => unhinted) [] := by
  cases sized : font.gridSize pixelSize with
  | error failure =>
      have refused := comes_renderGlyph_of_gridSize_error sized glyph
      simp only [hintingFailure?, sized]
      exact ⟨_, refused .disabled, refused .fallback, refused .strict⟩
  | ok gridSize =>
      cases decoded : font.glyphs.decode glyph with
      | error failure =>
          have refused := comes_renderGlyph_of_decode_error sized decoded
          simp only [hintingFailure?, sized, decoded]
          exact ⟨_, refused .disabled, refused .fallback, refused .strict⟩
      | ok outline =>
          obtain ⟨drawn, draw⟩ := font.exists_comes_draw glyph gridSize outline
          have disabled := font.comes_applyHinting .disabled glyph outline gridSize
          have fallback := font.comes_applyHinting .fallback glyph outline gridSize
          have strict := font.comes_applyHinting .strict glyph outline gridSize
          simp only [hintingFailure?, sized, decoded]
          refine ⟨drawn, comes_renderGlyph_of_decode sized decoded (disabled.bind draw), ?_⟩
          cases outcome : (font.hint outline gridSize).outcome with
          | error failure =>
              rw [outcome] at fallback strict
              exact ⟨comes_renderGlyph_of_decode sized decoded (fallback.bind draw),
                comes_renderGlyph_of_decode sized decoded strict.bind_error⟩
          | ok hinted =>
              rw [outcome] at fallback strict
              exact ⟨comes_renderGlyph_of_decode sized decoded (fallback.bind draw),
                comes_renderGlyph_of_decode sized decoded (strict.bind draw)⟩

/--
The policies agree up to failures of hinting.  Hinting gives a glyph back
whenever it succeeds.  So falling back comes to what comes of no hinting, and so
does the strict policy unless hinting fails.  A warning is left by falling back
alone, and only when hinting fails.
-/
theorem renderGlyph_policies (font : Font) (glyph : UInt16) (pixelSize : UInt32)
    (threshold : Option Level) :
    let render (policy : HintingPolicy) :=
      (font.renderGlyph glyph ⟨pixelSize, policy⟩).observe (.opened threshold)
    (∀ (session : Hinting.Session) (journal : Journal Hinting.Notice)
      (fontProgram controlValueProgram : Bytes) (outline hinted : Glyph),
      (session.hintNoting journal fontProgram controlValueProgram outline).outcome = .ok hinted →
        hinted = outline) ∧
    (render .fallback).1 = (render .disabled).1 ∧
    (render .strict).1 =
      (match font.hintingFailure? glyph pixelSize with
      | some failure => .error failure
      | none => (render .disabled).1) ∧
    ∀ policy, (render policy).2.hintingFailures =
      if threshold.isSome ∧ policy = .fallback then
        (font.hintingFailure? glyph pixelSize).toList.map (glyph, ·)
      else
        [] := by
  intro render
  obtain ⟨unhinted, disabled, fallback, strict⟩ := font.comes_renderGlyph glyph pixelSize
  refine ⟨fun _ _ _ _ _ _ => Hinting.Session.eq_of_hintNoting, ?_, ?_, ?_⟩
  · exact (fallback.outcome _).trans (disabled.outcome _).symm
  · rw [show (render .strict).1 = _ from strict.outcome _,
      show (render .disabled).1 = unhinted from disabled.outcome _]
  · intro policy
    cases policy with
    | strict => simpa using strict.warnings_opened threshold
    | disabled => simpa using disabled.warnings_opened threshold
    | fallback => simpa using fallback.warnings_opened threshold

/-- The glyph program pops from the empty stack; with another one the glyph is hinted. -/
theorem renderGlyph_policies_popFromEmpty :
    let font : Font := {
      directory := default
      header := ⟨1000, ⟨0, 0, 6, 6⟩, .long⟩
      profile := ⟨1, 0, 0, 0, 8⟩
      characters := default
      glyphs := ⟨#[0, 1, 0, 0, 0, 0, 0, 6, 0, 6, 0, 2, 0, 1, 0x21, 0x37, 0x37, 0x37, 1, 2, 3,
        1, 3, 2], ⟨#[0, 0, 0, 0, 0, 0, 0, 24], .long, 1⟩⟩
      controlValues := []
      fontProgram := #[]
      controlValueProgram := #[] }
    let render (policy : HintingPolicy) :=
      (font.renderGlyph 0 ⟨10, policy⟩).observe (.opened (some .warn))
    let outline : Glyph := ⟨⟨0, 0, 6, 6⟩, #[0xB0, 1, 0x21], [⟨[⟨1, 1, true⟩, ⟨3, 4, true⟩]⟩]⟩
    (∃ session hinted, Hinting.Session.create font.profile [] 1000 100 = .ok session ∧
      session.hint #[] #[] outline = .ok hinted ∧ hinted = outline) ∧
    (render .fallback).1 = (render .disabled).1 ∧
    (render .strict).1 = .error (.hinting .popFromEmpty) ∧
    (render .fallback).2.hintingFailures = [(0, .hinting .popFromEmpty)] := by
  intro font render outline
  have failure : font.hintingFailure? 0 10 = some (.hinting .popFromEmpty) := by decide +kernel
  obtain ⟨hint, fallback, strict, warnings⟩ := renderGlyph_policies font 0 10 (some .warn)
  refine ⟨?_, fallback, ?_, ?_⟩
  · have created : ∃ session, Hinting.Session.create font.profile [] 1000 100 = .ok session :=
      ⟨_, rfl⟩
    obtain ⟨session, created⟩ := created
    have hinted : session.hint #[] #[] outline = .ok outline := by
      cases created
      decide +kernel
    exact ⟨session, outline, created, hinted, hint session .silent #[] #[] outline outline hinted⟩
  · rw [failure] at strict
    exact strict
  · have warned := warnings .fallback
    rw [failure] at warned
    exact warned

end Font

end OutlineFont
