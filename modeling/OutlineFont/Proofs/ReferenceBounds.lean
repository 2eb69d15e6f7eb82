import OutlineFont.Proofs.PointBounds
import OutlineFont.Proofs.ReferenceTrees

/-!
# How much is looked up

References may form cycles, and may fan out without end.  To say how much is
looked up all the same, decoding is watched: it notes every glyph that it looks
up and how deep that is, and nothing but its counts of components and of levels
keeps it from going on.  Whatever is allowed beyond these counts, it comes out as
decoding does, and what it has noted is bounded.
-/

namespace OutlineFont

/-- A glyph that is looked up inside a number of composite glyphs. -/
structure Visit where
  depth : Nat
  glyph : UInt16
  deriving DecidableEq, Repr

/-- What has been met, and what has been looked up, the latest first. -/
structure Watch where
  trail : Trail
  visits : List Visit

/-- Watched decoding, which fails without an error where it is not allowed to go on. -/
abbrev Watcher := EStateM (Option FontError) Watch

namespace Watcher

/-- Work that looks nothing up. -/
def lift {α : Type} (work : Resolver α) : Watcher α := fun watch =>
  match work watch.trail with
  | .ok value trail => .ok value { watch with trail }
  | .error failure trail => .error (some failure) { watch with trail }

def note (visit : Visit) : Watcher Unit :=
  modify fun watch => { watch with visits := visit :: watch.visits }

end Watcher

namespace GlyphTable

def watchComponents (watch : UInt16 → Watcher Glyph) (composite : UInt16) :
    (rounds : Nat) → Cursor → (points : Nat) → (seen : List Contour) →
      Watcher (ComponentFlags × Cursor × List Contour)
  | 0, _, _, _ => throw none
  | rounds + 1, cursor, points, seen => do
      let (component, cursor) ← Watcher.lift (Resolver.nextComponent composite cursor)
      let glyph ← watch component.glyph
      let points := points + glyph.pointCount
      if pointLimit < points then
        Watcher.lift (Resolver.fail composite .tooManyPoints)
      let seen := (component.placeAll glyph).reverse ++ seen
      if component.flags.isLast then
        return (component.flags, cursor, seen.reverse)
      else
        watchComponents watch composite rounds cursor points seen

def watchComposite (watch : UInt16 → Watcher Glyph) (rounds : Nat) (composite : UInt16)
    (metrics : Metrics) (cursor : Cursor) : Watcher Glyph := do
  let (flags, cursor, contours) ← watchComponents watch composite rounds cursor 0 []
  if flags.hasInstructions then
    let (instructions, _) ← Watcher.lift (Resolver.readFrom cursor SimpleGlyph.readInstructions)
    return ⟨metrics, instructions, contours⟩
  else
    return ⟨metrics, #[], contours⟩

/-- Watched resolution of a glyph inside `depth` composite glyphs. -/
def watchWith (table : GlyphTable) (watch : UInt16 → Watcher Glyph) (rounds depth : Nat)
    (glyph : UInt16) : Watcher Glyph := do
  Watcher.note ⟨depth, glyph⟩
  match ← Watcher.lift (Resolver.accept (table.record? glyph)) with
  | none => return .blank
  | some data =>
      let (header, cursor) ← Watcher.lift (Resolver.readFrom ⟨data, 0⟩ RecordHeader.read)
      if 0 ≤ header.contourCount then
        let (decoded, _) ← Watcher.lift (Resolver.readFrom cursor
          (SimpleGlyph.read glyph header.contourCount.toInt.toNat header.metrics))
        return decoded
      else if depth = nestingLimit then
        Watcher.lift (Resolver.fail glyph .nestedTooDeeply)
      else
        watchComposite watch rounds glyph header.metrics cursor

/-- Watched resolution that may go on for so many levels, and rounds on each of them. -/
def watch (table : GlyphTable) (rounds : Nat) : (levels depth : Nat) → UInt16 → Watcher Glyph
  | 0, _ => fun _ => throw none
  | levels + 1, depth => table.watchWith (table.watch rounds levels (depth + 1)) rounds depth

/-- Decode a glyph and tell what is looked up; there is no outcome where more had to be allowed. -/
def decodeWatching (table : GlyphTable) (levels rounds : Nat) (glyph : UInt16) :
    Option (Except FontError Glyph) × List Visit :=
  match table.watch rounds levels 0 glyph ⟨.empty, []⟩ with
  | .ok decoded after => (some (.ok decoded), after.visits)
  | .error failure after => (failure.map .error, after.visits)

end GlyphTable

/-- Bounds of what is looked up. -/
structure Visits.Bounded (visits : List Visit) : Prop where
  length : visits.length ≤ 1 + componentLimit
  depths : ∀ visit ∈ visits, visit.depth ≤ nestingLimit

/--
At least `least` components have been met, and what has been looked up are the glyphs
of components and the first one, of which `room` are still to be looked up.
-/
structure Watch.Sparing (least room : Nat) (watch : Watch) : Prop where
  least : least ≤ watch.trail.references.size
  counted : watch.trail.references.size ≤ watch.trail.started
  limited : watch.trail.references.size ≤ componentLimit
  visits : watch.visits.length + room ≤ 1 + watch.trail.references.size
  depths : ∀ visit ∈ watch.visits, visit.depth ≤ nestingLimit

namespace Watch.Sparing

variable {least room : Nat} {watch : Watch}

theorem bounded (sparing : watch.Sparing least room) : Visits.Bounded watch.visits where
  length := by
    have limited := sparing.limited
    have visits := sparing.visits
    omega
  depths := sparing.depths

theorem weaken (sparing : watch.Sparing least room) {less fewer : Nat} (lower : less ≤ least)
    (smaller : fewer ≤ room) : watch.Sparing less fewer where
  least := Nat.le_trans lower sparing.least
  counted := sparing.counted
  limited := sparing.limited
  visits := Nat.le_trans (Nat.add_le_add_left smaller _) sparing.visits
  depths := sparing.depths

end Watch.Sparing

namespace Watcher

variable {α β : Type} {before between after : Watch → Prop}

/-- Watched work that comes out as the work does and keeps to the bounds. -/
def Mirrors (before after : Watch → Prop) (watcher : Watcher α) (work : Resolver α) : Prop :=
  ∀ watch, before watch →
    match work watch.trail with
    | .ok value trail => ∃ visits, watcher watch = .ok value ⟨trail, visits⟩ ∧ after ⟨trail, visits⟩
    | .error failure _ => ∃ stopped, watcher watch = .error (some failure) stopped ∧
        Visits.Bounded stopped.visits

namespace Mirrors

theorem mono {stronger weaker : Watch → Prop} {watcher : Watcher α} {work : Resolver α}
    (mirrors : Mirrors before after watcher work) (start : ∀ watch, stronger watch → before watch)
    (finish : ∀ watch, after watch → weaker watch) : Mirrors stronger weaker watcher work := by
  intro watch holds
  have outcome := mirrors watch (start watch holds)
  cases same : work watch.trail with
  | ok value trail =>
      rw [same] at outcome
      obtain ⟨visits, done, kept⟩ := outcome
      exact ⟨visits, done, finish _ kept⟩
  | error failure trail =>
      rw [same] at outcome
      exact outcome

theorem pure (value : α) : Mirrors before before (pure value) (pure value) :=
  fun watch holds => ⟨watch.visits, rfl, holds⟩

theorem bind {first : Watcher α} {next : α → Watcher β} {work : Resolver α}
    {later : α → Resolver β} (mirrors : Mirrors before between first work)
    (mirrorsNext : ∀ value, Mirrors between after (next value) (later value)) :
    Mirrors before after (first >>= next) (work >>= later) := by
  intro watch holds
  have outcome := mirrors watch holds
  cases same : work watch.trail with
  | ok value trail =>
      rw [same] at outcome
      obtain ⟨visits, done, kept⟩ := outcome
      rw [bind_of_ok done, bind_of_ok same]
      exact mirrorsNext value _ kept
  | error failure trail =>
      rw [same] at outcome
      obtain ⟨stopped, done, bounded⟩ := outcome
      rw [bind_of_error same]
      exact ⟨stopped, bind_of_error done, bounded⟩

/-- Work that leaves the trail alone when it succeeds. -/
theorem lift {work : Resolver α} (sparing : ∀ watch, before watch → Visits.Bounded watch.visits)
    (steady : ∀ trail value after, work trail = .ok value after → after = trail) :
    Mirrors before before (lift work) work := by
  intro watch holds
  unfold Watcher.lift
  cases same : work watch.trail with
  | ok value trail =>
      cases steady _ _ _ same
      exact ⟨watch.visits, rfl, holds⟩
  | error failure trail => exact ⟨_, rfl, sparing watch holds⟩

theorem accept {result : Except FontError α}
    (sparing : ∀ watch, before watch → Visits.Bounded watch.visits) :
    Mirrors before before (Watcher.lift (Resolver.accept result)) (Resolver.accept result) :=
  lift sparing fun _ _ _ done => (Resolver.accept_eq_ok_iff.mp done).2

theorem readFrom {cursor : Cursor} {reader : Reader α}
    (sparing : ∀ watch, before watch → Visits.Bounded watch.visits) :
    Mirrors before before (Watcher.lift (Resolver.readFrom cursor reader))
      (Resolver.readFrom cursor reader) :=
  lift sparing fun _ _ _ done => (Resolver.readFrom_eq_ok_iff.mp done).2

/-- Nothing comes behind a failure. -/
theorem fail {id : UInt16} {fault : GlyphFault}
    (sparing : ∀ watch, before watch → Visits.Bounded watch.visits) :
    Mirrors before after (Watcher.lift (Resolver.fail id fault) : Watcher α)
      (Resolver.fail id fault) :=
  fun watch holds => ⟨_, rfl, sparing watch holds⟩

theorem note {watcher : Watcher α} {work : Resolver α} {visit : Visit} {least : Nat}
    (inside : visit.depth ≤ nestingLimit)
    (mirrors : Mirrors (Watch.Sparing least 0) after watcher work) :
    Mirrors (Watch.Sparing least 1) after (Watcher.note visit >>= fun _ => watcher) work := by
  intro watch sparing
  have noted : Watcher.note visit watch = .ok () ⟨watch.trail, visit :: watch.visits⟩ := rfl
  rw [bind_of_ok noted]
  refine mirrors ⟨watch.trail, visit :: watch.visits⟩ ?_
  exact ⟨sparing.least, sparing.counted, sparing.limited, sparing.visits,
    List.forall_mem_cons.mpr ⟨inside, sparing.depths⟩⟩

/-- A component that is met leaves room to look up its glyph. -/
theorem nextComponent (composite : UInt16) (cursor : Cursor) (least : Nat) :
    Mirrors (Watch.Sparing least 0) (Watch.Sparing (least + 1) 1)
      (Watcher.lift (Resolver.nextComponent composite cursor))
      (Resolver.nextComponent composite cursor) := by
  intro watch sparing
  unfold Watcher.lift
  rw [Resolver.nextComponent_eq]
  by_cases room : watch.trail.started < componentLimit
  · rw [if_pos room]
    cases Component.read composite cursor with
    | ok component next =>
        obtain ⟨atLeast, counted, limited, visits, depths⟩ := sparing
        have met : (watch.trail.extend [⟨composite, component⟩]).references.size =
            watch.trail.references.size + 1 := by simp [Trail.extend]
        refine ⟨watch.visits, rfl, ?_, ?_, ?_, ?_, depths⟩
        · rw [met]
          exact Nat.succ_le_succ atLeast
        · rw [met]
          exact Nat.succ_le_succ counted
        · rw [met]
          exact Nat.lt_of_le_of_lt counted room
        · rw [met]
          exact Nat.succ_le_succ visits
    | error failure place => exact ⟨_, rfl, sparing.bounded⟩
  · rw [if_neg room]
    exact ⟨_, rfl, sparing.bounded⟩

end Mirrors

/-- Glyphs are looked up as they are resolved, wherever there is room for one more. -/
def LooksUp (watch : UInt16 → Watcher Glyph) (resolve : UInt16 → Resolver Glyph) : Prop :=
  ∀ id least, Mirrors (Watch.Sparing least 1) (Watch.Sparing least 0) (watch id) (resolve id)

end Watcher

namespace GlyphTable

open Watcher (Mirrors LooksUp)

variable {watch : UInt16 → Watcher Glyph} {resolve : UInt16 → Resolver Glyph}

/-- Rounds beyond the limit of components are never needed. -/
theorem watchComponents_mirrors (looksUp : LooksUp watch resolve) (composite : UInt16)
    {rounds again least : Nat} (enough : componentLimit < least + rounds)
    (enoughToo : componentLimit ≤ least + again) (cursor : Cursor) (points : Nat)
    (seen : List Contour) :
    Mirrors (Watch.Sparing least 0) (Watch.Sparing least 0)
      (watchComponents watch composite rounds cursor points seen)
      (resolveComponents resolve composite again cursor points seen) := by
  induction rounds generalizing again least cursor points seen with
  | zero =>
      intro state sparing
      have met := sparing.least
      have limited := sparing.limited
      omega
  | succ rounds ih =>
      cases again with
      | zero =>
          -- Where resolution stops for want of rounds, counting one more component stops it.
          intro state sparing
          have met := sparing.least
          have counted := sparing.counted
          have stops : Watcher.lift (Resolver.nextComponent composite cursor) state =
              .error (some (.malformedGlyph composite .tooManyComponents))
                ⟨⟨state.trail.started + 1, state.trail.references⟩, state.visits⟩ := by
            unfold Watcher.lift
            rw [Resolver.nextComponent_eq, if_neg (by omega)]
          exact ⟨_, bind_of_error stops, sparing.bounded⟩
      | succ again =>
          have looser (state : Watch) (sparing : state.Sparing (least + 1) 0) :
              state.Sparing least 0 := sparing.weaken (Nat.le_succ least) (Nat.le_refl 0)
          rw [watchComponents, resolveComponents_succ]
          refine (Mirrors.nextComponent composite cursor least).bind ?_
          rintro ⟨component, next⟩
          refine (looksUp component.glyph (least + 1)).bind ?_
          intro glyph
          dsimp only
          split
          case isTrue => exact .fail fun _ sparing => sparing.bounded
          case isFalse =>
            split
            case isTrue => exact (Mirrors.pure _).mono looser fun _ sparing => sparing
            case isFalse =>
              exact (ih (by omega) (by omega) next _ _).mono (fun _ sparing => sparing) looser

theorem watchComposite_mirrors (looksUp : LooksUp watch resolve) {rounds : Nat}
    (enough : componentLimit < rounds) (composite : UInt16) (metrics : Metrics)
    (cursor : Cursor) (least : Nat) :
    Mirrors (Watch.Sparing least 0) (Watch.Sparing least 0)
      (watchComposite watch rounds composite metrics cursor)
      (resolveComposite resolve composite metrics cursor) := by
  unfold watchComposite resolveComposite
  refine (watchComponents_mirrors looksUp composite (by omega) (by omega) cursor 0 []).bind ?_
  rintro ⟨flags, behind, contours⟩
  dsimp only
  split
  case isTrue =>
    refine (Mirrors.readFrom fun _ sparing => sparing.bounded).bind ?_
    rintro ⟨instructions, _⟩
    exact .pure _
  case isFalse => exact .pure _

variable {table : GlyphTable} {rounds depth : Nat}
  {resolve? : Option (UInt16 → Resolver Glyph)}

theorem watchWith_looksUp (inside : depth ≤ nestingLimit) (enough : componentLimit < rounds)
    (deep : resolve? = none ↔ depth = nestingLimit)
    (looksUp : ∀ resolve, resolve? = some resolve → LooksUp watch resolve) :
    LooksUp (table.watchWith watch rounds depth) (table.resolveWith resolve?) := by
  intro id least
  have bounded (state : Watch) (sparing : state.Sparing least 0) :
      Visits.Bounded state.visits := sparing.bounded
  unfold watchWith resolveWith
  refine .note inside ?_
  refine (Mirrors.accept bounded).bind ?_
  intro record?
  cases record? with
  | none => exact .pure _
  | some data =>
      refine (Mirrors.readFrom bounded).bind ?_
      rintro ⟨header, cursor⟩
      dsimp only
      split
      case isTrue =>
        refine (Mirrors.readFrom bounded).bind ?_
        rintro ⟨decoded, _⟩
        exact .pure _
      case isFalse =>
        cases resolve? with
        | none =>
            rw [if_pos (deep.mp rfl)]
            exact .fail bounded
        | some resolve =>
            rw [if_neg fun same => nomatch deep.mpr same]
            exact watchComposite_mirrors (looksUp resolve rfl) enough id header.metrics cursor least

/-- Levels beyond the limit are never needed. -/
theorem watch_looksUp (table : GlyphTable) {levels remaining : Nat}
    (enough : componentLimit < rounds) (within : depth + remaining = nestingLimit)
    (further : remaining < levels) :
    LooksUp (table.watch rounds levels depth) (table.resolve remaining) := by
  induction levels generalizing depth remaining with
  | zero => exact absurd further (Nat.not_lt_zero remaining)
  | succ levels ih =>
      cases remaining with
      | zero =>
          refine watchWith_looksUp (Nat.le_of_eq within) enough ⟨fun _ => within, fun _ => rfl⟩ ?_
          intro resolve impossible
          cases impossible
      | succ remaining =>
          have deep : some (table.resolve remaining) = none ↔ depth = nestingLimit :=
            ⟨nofun, fun same => by omega⟩
          refine watchWith_looksUp (by omega) enough deep ?_
          rintro resolve ⟨⟩
          exact ih (by omega) (by omega)

/-- Watched decoding comes out as decoding does, and what it looks up is bounded. -/
theorem decodeWatching_spec (table : GlyphTable) {levels rounds : Nat}
    (further : nestingLimit < levels) (enough : componentLimit < rounds) (id : UInt16) :
    (table.decodeWatching levels rounds id).1 = some (table.decode id) ∧
      Visits.Bounded (table.decodeWatching levels rounds id).2 := by
  have start : Watch.Sparing 0 1 ⟨.empty, []⟩ :=
    ⟨Nat.zero_le _, Nat.zero_le _, Nat.zero_le _, Nat.le_refl _, List.forall_mem_nil _⟩
  have outcome := table.watch_looksUp enough (Nat.zero_add nestingLimit) further id 0 _ start
  unfold decodeWatching decode decodeTracing
  cases resolved : table.resolve nestingLimit id .empty with
  | ok decoded trail =>
      rw [resolved] at outcome
      obtain ⟨visits, done, sparing⟩ := outcome
      rw [done]
      exact ⟨rfl, sparing.bounded⟩
  | error failure trail =>
      rw [resolved] at outcome
      obtain ⟨stopped, done, bounded⟩ := outcome
      rw [done]
      exact ⟨rfl, bounded⟩

/--
However many levels and rounds beyond the limits are allowed, decoding ends, and
has looked up no more glyphs than there may be components and the first one, at no
greater depth than composite glyphs may be nested.  Where it succeeds, no cycle of
references can be reached, no more composite glyphs contain one another than may be
nested, the references unfold to no more components than there may be, and the
glyph has no more points than can be numbered.
-/
theorem decode_bounded (table : GlyphTable) (id : UInt16) :
    (∀ levels rounds, nestingLimit < levels → componentLimit < rounds →
      ∃ visits, table.decodeWatching levels rounds id = (some (table.decode id), visits) ∧
        visits.length ≤ 1 + componentLimit ∧ ∀ visit ∈ visits, visit.depth ≤ nestingLimit) ∧
    ∀ decoded, table.decode id = .ok decoded →
      (∀ part, Relation.ReflTransGen table.References id part →
        ¬Relation.TransGen table.References part part) ∧
      (∀ chain, List.IsChain table.References (id :: chain) →
        (∀ other ∈ id :: chain, table.IsComposite other) →
          (id :: chain).length ≤ nestingLimit) ∧
      (∃ met, table.Unfolds id met ∧ (∀ others, table.Unfolds id others → others = met) ∧
        met.length ≤ componentLimit) ∧
      decoded.pointCount ≤ 65536 := by
  constructor
  · intro levels rounds further enough
    obtain ⟨same, bounded⟩ := table.decodeWatching_spec further enough id
    exact ⟨_, Prod.ext same rfl, bounded.length, bounded.depths⟩
  · intro decoded done
    obtain ⟨met, answers, within⟩ := decode_eq_ok_iff.mp done
    have resolvable : table.Resolvable nestingLimit id := ⟨decoded, met, answers⟩
    have unfolds := answers.unfolds
    exact ⟨fun _ => resolvable.acyclic, fun _ => resolvable.length_le,
      ⟨met, unfolds, fun _ again => again.unique unfolds, within⟩, answers.pointCount_le⟩

/-- A glyph that is moved twice in another one, and a glyph that is inside of itself. -/
theorem decode_bounded_sharedAndCyclic :
    let plain : Glyph := ⟨⟨10, -5, 20, 0⟩, #[], [⟨[⟨10, 0, true⟩, ⟨20, -5, false⟩]⟩]⟩
    let runs : List FlagRun := [⟨⟨1⟩, 0, by decide⟩, ⟨⟨0⟩, 0, by decide⟩]
    let twice : CompositeRecord := ⟨⟨-1, ⟨0, 0, 0, 0⟩⟩, [⟨⟨0x0022⟩, 0, 5, -3, none⟩],
      ⟨⟨0x0002⟩, 0, 0, 0, none⟩, #[], by decide,
      (Component.Row.single (by decide) (by decide) (by decide)).cons (by decide) (by decide)
        (by decide), by decide, by decide⟩
    let itself : CompositeRecord := ⟨⟨-1, ⟨0, 0, 0, 0⟩⟩, [], ⟨⟨0x0002⟩, 2, 0, 0, none⟩, #[],
      by decide, .single (by decide) (by decide) (by decide), by decide, by decide⟩
    let table : GlyphTable :=
      ⟨(SimpleGlyph.encode plain runs ++ twice.encode ++ itself.encode).toArray,
        ⟨#[0, 0, 0, 0, 0, 0, 0, 24, 0, 0, 0, 46, 0, 0, 0, 62], .long, 3⟩⟩
    (∃ decoded, table.decode 1 = .ok decoded ∧ decoded.pointCount ≤ 65536 ∧
      ¬Relation.TransGen table.References 1 1) ∧
    (∃ visits, table.decodeWatching 9 1025 2 = (some (table.decode 2), visits) ∧
      visits.length ≤ 1 + componentLimit) ∧
    ∀ decoded, table.decode 2 ≠ .ok decoded := by
  intro plain runs twice itself table
  refine ⟨?_, ?_, ?_⟩
  · have succeeds : (table.decode 1).isOk = true := by decide +kernel
    cases done : table.decode 1 with
    | ok decoded =>
        obtain ⟨acyclic, _, _, points⟩ := (table.decode_bounded 1).2 decoded done
        exact ⟨decoded, rfl, points, acyclic 1 .refl⟩
    | error failure =>
        rw [done] at succeeds
        cases succeeds
  · obtain ⟨visits, same, length, _⟩ :=
      (table.decode_bounded 2).1 9 1025 (by decide) (by decide)
    exact ⟨visits, same, length⟩
  · intro decoded done
    obtain ⟨acyclic, _⟩ := (table.decode_bounded 2).2 decoded done
    have stores : table.Stores 2 itself.encode := ⟨⟨46, 62⟩, [], rfl, by decide, by decide⟩
    have cycle : table.References 2 2 :=
      stores.references_iff.mpr ⟨⟨⟨0x0002⟩, 2, 0, 0, none⟩, List.mem_cons_self, rfl⟩
    exact acyclic 2 .refl (.single cycle)

end GlyphTable

end OutlineFont
