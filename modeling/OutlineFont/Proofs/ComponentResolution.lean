import OutlineFont.Proofs.CompositeEncoding

/-!
# What components are resolved to

While a glyph is resolved, components are counted and remembered on all levels
together.  What a successful resolution answers does not depend on what was met
before: it is what a relation on glyphs says, and resolution succeeds as the
relation says whenever there are not too many components.
-/

namespace OutlineFont

namespace Trail

/-- After further components have been met. -/
def extend (trail : Trail) (met : List Reference) : Trail :=
  ⟨trail.started + met.length, trail.references ++ met.toArray⟩

theorem extend_nil (trail : Trail) : trail.extend [] = trail := by
  simp [extend]

theorem extend_append (trail : Trail) (front back : List Reference) :
    trail.extend (front ++ back) = (trail.extend front).extend back := by
  simp [extend, Nat.add_assoc]

end Trail

namespace Resolver

variable {α : Type} {trail after : Trail}

theorem accept_eq_ok_iff {result : Except FontError α} {value : α} :
    accept result trail = .ok value after ↔ result = .ok value ∧ after = trail := by
  unfold accept
  cases result with
  | ok answer => grind
  | error failure => grind

theorem readFrom_eq_ok_iff {cursor next : Cursor} {reader : Reader α} {value : α} :
    readFrom cursor reader trail = .ok (value, next) after ↔
      reader cursor = .ok value next ∧ after = trail := by
  unfold readFrom
  cases reader cursor with
  | ok answer place => grind
  | error failure place => grind

theorem startComponent_eq (composite : UInt16) (trail : Trail) :
    startComponent composite trail =
      if trail.started < componentLimit then
        .ok () ⟨trail.started + 1, trail.references⟩
      else
        .error (.malformedGlyph composite .tooManyComponents)
          ⟨trail.started + 1, trail.references⟩ := by
  have counted : modify (m := Resolver) (fun trail => { trail with started := trail.started + 1 })
      trail = .ok () ⟨trail.started + 1, trail.references⟩ := rfl
  have seen : get (m := Resolver) ⟨trail.started + 1, trail.references⟩ =
      .ok ⟨trail.started + 1, trail.references⟩ ⟨trail.started + 1, trail.references⟩ := rfl
  unfold startComponent
  rw [bind_of_ok counted, bind_of_ok seen]
  by_cases room : trail.started < componentLimit
  · rw [if_pos room, if_neg (by dsimp only; omega)]
    rfl
  · rw [if_neg room, if_pos (by dsimp only; omega)]
    rfl

def nextComponent (composite : UInt16) (cursor : Cursor) : Resolver (Component × Cursor) := do
  startComponent composite
  let (component, cursor) ← readFrom cursor (Component.read composite)
  meet composite component
  return (component, cursor)

/-- A component is counted before it is read, and remembered behind that. -/
theorem nextComponent_eq (composite : UInt16) (cursor : Cursor) (trail : Trail) :
    nextComponent composite cursor trail =
      if trail.started < componentLimit then
        match Component.read composite cursor with
        | .ok component next => .ok (component, next) (trail.extend [⟨composite, component⟩])
        | .error failure _ => .error failure ⟨trail.started + 1, trail.references⟩
      else
        .error (.malformedGlyph composite .tooManyComponents)
          ⟨trail.started + 1, trail.references⟩ := by
  have started := startComponent_eq composite trail
  unfold nextComponent
  by_cases room : trail.started < componentLimit
  · rw [if_pos room] at started
    rw [if_pos room, bind_of_ok started]
    cases outcome : Component.read composite cursor with
    | ok component next =>
        have taken : readFrom cursor (Component.read composite)
            ⟨trail.started + 1, trail.references⟩ =
              .ok (component, next) ⟨trail.started + 1, trail.references⟩ :=
          readFrom_eq_ok_iff.mpr ⟨outcome, rfl⟩
        rw [bind_of_ok taken]
        rfl
    | error failure place =>
        have failed : readFrom cursor (Component.read composite)
            ⟨trail.started + 1, trail.references⟩ =
              .error failure ⟨trail.started + 1, trail.references⟩ := by
          unfold readFrom
          rw [outcome]
        rw [bind_of_error failed]
  · rw [if_neg room] at started
    rw [if_neg room, bind_of_error started]

theorem nextComponent_eq_ok_iff {composite : UInt16} {cursor next : Cursor}
    {component : Component} :
    nextComponent composite cursor trail = .ok (component, next) after ↔
      trail.started < componentLimit ∧ Component.read composite cursor = .ok component next ∧
        after = trail.extend [⟨composite, component⟩] := by
  rw [nextComponent_eq]
  by_cases room : trail.started < componentLimit
  · rw [if_pos room]
    cases Component.read composite cursor with
    | ok answer place => grind
    | error failure place => grind
  · grind

/-- Work that succeeds as a relation says, if there is room for what it meets. -/
def Follows (work : Resolver α) (answers : α → List Reference → Prop) : Prop :=
  ∀ (trail after : Trail) (value : α), trail.started ≤ componentLimit →
    (work trail = .ok value after ↔ ∃ met, answers value met ∧
      trail.started + met.length ≤ componentLimit ∧ after = trail.extend met)

end Resolver

/--
Components of a composite glyph are resolved one after the other as a relation
says, and their points are added to a number of points.
-/
inductive Gathers (resolves : UInt16 → Glyph → List Reference → Prop) (composite : UInt16) :
    (points : Nat) → List Component → List Contour → List Reference → Prop where
  | nil (points : Nat) : Gathers resolves composite points [] [] []
  | cons {points : Nat} {component : Component} {rest : List Component} {glyph : Glyph}
      {below met : List Reference} {contours : List Contour}
      (resolved : resolves component.glyph glyph below)
      (bounded : points + glyph.pointCount ≤ pointLimit)
      (later : Gathers resolves composite (points + glyph.pointCount) rest contours met) :
      Gathers resolves composite points (component :: rest)
        (component.placeAll glyph ++ contours) (⟨composite, component⟩ :: (below ++ met))

namespace Gathers

variable {resolves : UInt16 → Glyph → List Reference → Prop} {composite : UInt16} {points : Nat}
  {components : List Component} {contours : List Contour} {met : List Reference}

theorem mono {others : UInt16 → Glyph → List Reference → Prop}
    (weakens : ∀ id glyph below, resolves id glyph below → others id glyph below)
    (gathers : Gathers resolves composite points components contours met) :
    Gathers others composite points components contours met := by
  induction gathers with
  | nil points => exact .nil points
  | cons resolved bounded _ ih => exact .cons (weakens _ _ _ resolved) bounded ih

/-- Every component is met. -/
theorem length_le (gathers : Gathers resolves composite points components contours met) :
    components.length ≤ met.length := by
  induction gathers with
  | nil => exact Nat.le_refl _
  | cons _ _ _ ih =>
      simp only [List.length_cons, List.length_append]
      omega

theorem exists_of_mem (gathers : Gathers resolves composite points components contours met)
    {component : Component} (listed : component ∈ components) :
    ∃ glyph below, resolves component.glyph glyph below := by
  induction gathers with
  | nil => cases listed
  | cons resolved _ _ ih =>
      rcases List.mem_cons.mp listed with rfl | later
      · exact ⟨_, _, resolved⟩
      · exact ih later

/-- What is gathered consists of what every component is resolved to, put in place. -/
theorem exists_parts (gathers : Gathers resolves composite points components contours met) :
    ∃ parts : List Glyph, List.Forall₂ (fun component part => ∃ below,
        resolves component.glyph part below ∧ below.length ≤ met.length) components parts ∧
      contours = (List.zipWith Component.placeAll components parts).flatten := by
  induction gathers with
  | nil => exact ⟨[], .nil, rfl⟩
  | @cons _ component _ glyph below met _ resolved _ _ ih =>
      obtain ⟨parts, each, rfl⟩ := ih
      refine ⟨glyph :: parts, .cons ⟨below, resolved, ?_⟩ (each.imp ?_), rfl⟩
      · simp only [List.length_cons, List.length_append]
        omega
      · rintro other part ⟨beneath, answers, within⟩
        refine ⟨beneath, answers, ?_⟩
        simp only [List.length_cons, List.length_append]
        omega

/-- What is met are the components, each before what it leads to. -/
theorem met_eq {below : UInt16 → List Reference}
    (agrees : ∀ id glyph met, resolves id glyph met → below id = met)
    (gathers : Gathers resolves composite points components contours met) :
    met = components.flatMap fun component => ⟨composite, component⟩ :: below component.glyph := by
  induction gathers with
  | nil => rfl
  | cons resolved _ _ ih =>
      rw [List.flatMap_cons, agrees _ _ _ resolved, ← ih]
      rfl

end Gathers

namespace GlyphTable

variable {resolve : UInt16 → Resolver Glyph} {composite : UInt16}

theorem resolveComponents_succ (resolve : UInt16 → Resolver Glyph) (composite : UInt16)
    (rounds : Nat) (cursor : Cursor) (points : Nat) (seen : List Contour) :
    resolveComponents resolve composite (rounds + 1) cursor points seen = (do
      let (component, cursor) ← Resolver.nextComponent composite cursor
      let glyph ← resolve component.glyph
      let points := points + glyph.pointCount
      if pointLimit < points then
        Resolver.fail composite .tooManyPoints
      let seen := (component.placeAll glyph).reverse ++ seen
      if component.flags.isLast then
        return (component.flags, cursor, seen.reverse)
      else
        resolveComponents resolve composite rounds cursor points seen) := by
  simp only [resolveComponents, Resolver.nextComponent, bind_assoc, pure_bind]

/-- What a round over a component has done if resolution succeeds. -/
theorem of_resolveComponents_eq_ok {rounds : Nat} {cursor : Cursor} {points : Nat}
    {seen : List Contour} {trail after : Trail} {answer : ComponentFlags × Cursor × List Contour}
    (done : resolveComponents resolve composite (rounds + 1) cursor points seen trail =
      .ok answer after) :
    ∃ component next glyph between, trail.started + 1 ≤ componentLimit ∧
      Component.read composite cursor = .ok component next ∧
      resolve component.glyph (trail.extend [⟨composite, component⟩]) = .ok glyph between ∧
      points + glyph.pointCount ≤ pointLimit ∧
      if component.flags.isLast then
        answer = (component.flags, next, seen.reverse ++ component.placeAll glyph) ∧
          after = between
      else
        resolveComponents resolve composite rounds next (points + glyph.pointCount)
          ((component.placeAll glyph).reverse ++ seen) between = .ok answer after := by
  rw [resolveComponents_succ] at done
  obtain ⟨⟨component, next⟩, met, start, rest⟩ := bind_eq_ok_iff.mp done
  obtain ⟨room, read, rfl⟩ := Resolver.nextComponent_eq_ok_iff.mp start
  obtain ⟨glyph, between, resolved, finish⟩ := bind_eq_ok_iff.mp rest
  dsimp only at finish
  by_cases bounded : pointLimit < points + glyph.pointCount
  · rw [if_pos bounded] at finish
    cases finish
  · rw [if_neg bounded] at finish
    refine ⟨component, next, glyph, between, room, read, resolved, Nat.le_of_not_lt bounded, ?_⟩
    split at finish
    case isTrue last =>
      rw [if_pos last]
      cases finish
      simp
    case isFalse more => rwa [if_neg more]

variable {resolves : UInt16 → Glyph → List Reference → Prop}

/-- What a round does over a component that is stored, and resolved as a relation says. -/
theorem resolveComponents_of_resolves (follows : ∀ id, Resolver.Follows (resolve id) (resolves id))
    (composite : UInt16) {component : Component} (fits : component.Fits)
    (placed : component.flags.offsetArguments = true) {glyph : Glyph} {below : List Reference}
    (resolved : resolves component.glyph glyph below) {points : Nat}
    (bounded : points + glyph.pointCount ≤ pointLimit) (trail : Trail)
    (room : trail.started + 1 + below.length ≤ componentLimit) (rounds : Nat)
    (before behind : List UInt8) (seen : List Contour) :
    resolveComponents resolve composite (rounds + 1)
        ⟨(before ++ component.encode ++ behind).toArray, before.length⟩ points seen trail =
      if component.flags.isLast then
        .ok (component.flags, ⟨(before ++ component.encode ++ behind).toArray,
            before.length + component.encode.length⟩, seen.reverse ++ component.placeAll glyph)
          (trail.extend (⟨composite, component⟩ :: below))
      else
        resolveComponents resolve composite rounds
          ⟨(before ++ component.encode ++ behind).toArray,
            before.length + component.encode.length⟩ (points + glyph.pointCount)
          ((component.placeAll glyph).reverse ++ seen)
          (trail.extend (⟨composite, component⟩ :: below)) := by
  have read := fits.takes_read placed composite before behind
  have start := Resolver.nextComponent_eq_ok_iff.mpr
    ⟨Nat.le_of_add_right_le room, read, rfl⟩
  have done := (follows component.glyph (trail.extend [⟨composite, component⟩]) _ glyph
    (Nat.le_of_add_right_le room)).mpr ⟨below, resolved, room, rfl⟩
  rw [← Trail.extend_append] at done
  rw [resolveComponents_succ, bind_of_ok start]
  dsimp only
  rw [bind_of_ok done, if_neg (Nat.not_lt.mpr bounded)]
  split
  case isTrue last =>
    rw [List.reverse_append, List.reverse_reverse]
    rfl
  case isFalse more => rfl

/-- Components that have been resolved stand in a row, and have been gathered. -/
theorem gathers_of_resolveComponents (follows : ∀ id, Resolver.Follows (resolve id) (resolves id))
    {rounds : Nat} {before rest : List UInt8} {points : Nat} {seen : List Contour}
    {trail after : Trail} {answer : ComponentFlags × Cursor × List Contour}
    (done : resolveComponents resolve composite rounds ⟨(before ++ rest).toArray, before.length⟩
      points seen trail = .ok answer after) :
    ∃ earlier last bytes behind contours met, Component.Row earlier last ∧
      bytes = (earlier ++ [last]).flatMap Component.encode ∧ rest = bytes ++ behind ∧
      answer = (last.flags, ⟨(before ++ bytes ++ behind).toArray, before.length + bytes.length⟩,
        seen.reverse ++ contours) ∧
      Gathers resolves composite points (earlier ++ [last]) contours met ∧
      trail.started + met.length ≤ componentLimit ∧ after = trail.extend met := by
  -- A round moves over one component, so that the bytes before the cursor grow by it.
  induction rounds generalizing before rest points seen trail with
  | zero => cases done
  | succ rounds ih =>
      obtain ⟨component, next, glyph, between, room, read, resolved, bounded, finish⟩ :=
        of_resolveComponents_eq_ok done
      obtain ⟨front, behind, rfl, ⟨rfl, fits, placed⟩, rfl⟩ :=
        Component.yields_read composite before rest component next read
      obtain ⟨below, resolves, enough, rfl⟩ :=
        (follows component.glyph (trail.extend [⟨composite, component⟩]) between glyph room).mp
          resolved
      split at finish
      case isTrue ends =>
        obtain ⟨rfl, rfl⟩ := finish
        refine ⟨[], component, _, behind, component.placeAll glyph,
          ⟨composite, component⟩ :: below, .single fits placed ends, rfl, ?_, ?_, ?_, ?_, ?_⟩
        · simp
        · simp
        · simpa using Gathers.cons resolves bounded (.nil _)
        · simpa [Trail.extend, Nat.add_assoc, Nat.add_comm 1] using enough
        · rw [← Trail.extend_append]
          rfl
      case isFalse more =>
        rw [← List.length_append] at finish
        obtain ⟨earlier, last, bytes, behind, contours, met, row, rfl, rfl, rfl, gathers, within,
          rfl⟩ := ih finish
        refine ⟨component :: earlier, last, _, behind, component.placeAll glyph ++ contours,
          ⟨composite, component⟩ :: (below ++ met),
          row.cons fits placed (Bool.eq_false_of_not_eq_true more), rfl, ?_, ?_,
          .cons resolves bounded gathers, ?_, ?_⟩
        · simp
        · simp [Nat.add_assoc]
        · simp only [Trail.extend, List.length_cons, List.length_append,
            List.length_nil] at within ⊢
          omega
        · rw [← Trail.extend_append, ← Trail.extend_append]
          rfl

/-- Components in a row that are gathered are resolved to what was gathered. -/
theorem resolveComponents_of_gathers (follows : ∀ id, Resolver.Follows (resolve id) (resolves id))
    {earlier : List Component} {last : Component} {points : Nat} {contours : List Contour}
    {met : List Reference} (row : Component.Row earlier last)
    (gathers : Gathers resolves composite points (earlier ++ [last]) contours met)
    {rounds : Nat} (enough : earlier.length < rounds) {trail : Trail}
    (room : trail.started + met.length ≤ componentLimit) (before behind : List UInt8)
    (seen : List Contour) :
    let bytes := (earlier ++ [last]).flatMap Component.encode
    resolveComponents resolve composite rounds ⟨(before ++ bytes ++ behind).toArray,
        before.length⟩ points seen trail =
      .ok (last.flags, ⟨(before ++ bytes ++ behind).toArray, before.length + bytes.length⟩,
        seen.reverse ++ contours) (trail.extend met) := by
  intro bytes
  subst bytes
  induction earlier generalizing points contours met rounds trail before seen with
  | nil =>
      obtain ⟨rounds, rfl⟩ : ∃ less, rounds = less + 1 := ⟨rounds - 1, by omega⟩
      cases gathers with
      | @cons _ _ _ glyph below _ _ resolved bounded later =>
          cases later
          simp only [List.append_nil, List.length_cons] at room
          have round := resolveComponents_of_resolves follows composite
            (row.fits last List.mem_cons_self) (row.placed last List.mem_cons_self) resolved bounded
            trail (by omega) rounds before behind seen
          rw [if_pos row.ends] at round
          simpa using round
  | cons component earlier ih =>
      obtain ⟨rounds, rfl⟩ : ∃ less, rounds = less + 1 := ⟨rounds - 1, by omega⟩
      cases gathers with
      | @cons _ _ _ glyph below met contours resolved bounded later =>
          have more := row.more component List.mem_cons_self
          simp only [List.length_cons, List.length_append] at room enough
          have round := resolveComponents_of_resolves follows composite
            (row.fits component List.mem_cons_self) (row.placed component List.mem_cons_self)
            resolved bounded trail (by omega) rounds before
            ((earlier ++ [last]).flatMap Component.encode ++ behind) seen
          have rest := ih row.tail later (Nat.lt_of_succ_lt_succ enough)
            (show (trail.extend (⟨composite, component⟩ :: below)).started + met.length ≤
              componentLimit by simp only [Trail.extend, List.length_cons]; omega)
            (before ++ component.encode) ((component.placeAll glyph).reverse ++ seen)
          rw [if_neg (by simp [more])] at round
          simp only [List.length_append, List.append_assoc, ← Trail.extend_append] at round rest
          simp only [List.cons_append, List.flatMap_cons, List.append_assoc, List.length_append]
          rw [round, rest]
          simp [Nat.add_assoc]

theorem resolveComposite_eq (resolve : UInt16 → Resolver Glyph) (composite : UInt16)
    (metrics : Metrics) (cursor : Cursor) :
    resolveComposite resolve composite metrics cursor = (do
      let (flags, cursor, contours) ←
        resolveComponents resolve composite componentLimit cursor 0 []
      let (instructions, _) ← Resolver.readFrom cursor (CompositeRecord.readProgram flags)
      return ⟨metrics, instructions, contours⟩) := by
  unfold resolveComposite CompositeRecord.readProgram
  congr 1
  funext ⟨flags, cursor, contours⟩
  dsimp only
  split
  case isTrue => rfl
  case isFalse => rfl

/-- A composite glyph is resolved to what its record says. -/
theorem resolveComposite_follows (follows : ∀ id, Resolver.Follows (resolve id) (resolves id))
    (composite : UInt16) {header : RecordHeader} (negative : header.contourCount < 0)
    (rest : List UInt8) :
    Resolver.Follows (resolveComposite resolve composite header.metrics
        ⟨(header.encode ++ rest).toArray, header.encode.length⟩)
      fun glyph met => ∃ (record : CompositeRecord) (contours : List Contour)
          (behind : List UInt8), record.header = header ∧
        header.encode ++ rest = record.encode ++ behind ∧
        Gathers resolves composite 0 record.components contours met ∧
        glyph = ⟨record.header.metrics, record.instructions, contours⟩ := by
  intro trail after glyph room
  rw [resolveComposite_eq]
  constructor
  · intro done
    obtain ⟨_, _, start, finish⟩ := bind_eq_ok_iff.mp done
    obtain ⟨earlier, last, _, unread, contours, met, row, rfl, rfl, rfl, gathers, within, rfl⟩ :=
      gathers_of_resolveComponents follows start
    obtain ⟨⟨instructions, next⟩, _, taken, returned⟩ := bind_eq_ok_iff.mp finish
    obtain ⟨read, rfl⟩ := Resolver.readFrom_eq_ok_iff.mp taken
    cases returned
    rw [← List.length_append] at read
    obtain ⟨_, behind, rfl, ⟨rfl, size, without⟩, _⟩ :=
      CompositeRecord.yields_readProgram last.flags _ _ _ _ read
    refine ⟨met, ⟨⟨header, earlier, last, instructions, negative, row, size, without⟩, contours,
      behind, rfl, ?_, gathers, rfl⟩, within, rfl⟩
    simp only [CompositeRecord.encode, CompositeRecord.components, List.append_assoc]
  · rintro ⟨met, ⟨record, contours, behind, rfl, same, gathers, rfl⟩, within, rfl⟩
    have enough : record.earlier.length < componentLimit := by
      have listed := gathers.length_le
      rw [CompositeRecord.components, List.length_append, List.length_singleton] at listed
      omega
    have done := resolveComponents_of_gathers follows record.row gathers enough within
      record.header.encode
      (CompositeRecord.encodeProgram record.last.flags record.instructions ++ behind) []
    have taken := Resolver.readFrom_of_takes
      (CompositeRecord.takes_readProgram record.size record.program)
      (record.header.encode ++ record.components.flatMap Component.encode) behind
      (trail.extend met)
    rw [same]
    unfold CompositeRecord.encode CompositeRecord.components
    simp only [CompositeRecord.components, List.append_assoc, List.length_append] at done taken ⊢
    rw [bind_of_ok done]
    dsimp only
    rw [bind_of_ok taken]
    rfl

end GlyphTable

end OutlineFont
