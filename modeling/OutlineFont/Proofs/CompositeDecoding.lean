import OutlineFont.Proofs.ComponentResolution

/-!
# What glyphs are decoded to

Decoding succeeds exactly as a relation says that only the records of glyphs
enter.  A composite glyph is therefore put together from what its components are
decoded to on their own, at whatever depth they stand.
-/

namespace OutlineFont

namespace GlyphTable

variable {resolves : UInt16 → Glyph → List Reference → Prop}

theorem stores_of_record?_eq {table : GlyphTable} {id : UInt16} {bytes : List UInt8}
    (rest : List UInt8)
    (found : table.record? id = .ok (some (bytes ++ rest).toArray)) : table.Stores id bytes := by
  unfold record? at found
  cases located : table.locations.range id with
  | error failure =>
      rw [located] at found
      cases found
  | ok range =>
      rw [located] at found
      simp only [bind, Except.bind] at found
      split at found
      case isTrue => cases found
      case isFalse =>
        split at found
        case isTrue inside =>
          refine ⟨range, rest, located, inside, ?_⟩
          injection found with found
          injection found with found
          rw [found]
        case isFalse => cases found

/-- What a glyph is resolved to, if its components are resolved as a relation says. -/
inductive ResolvesWith (table : GlyphTable)
    (resolves : UInt16 → Glyph → List Reference → Prop) (id : UInt16) :
    Glyph → List Reference → Prop where
  | blank (absent : table.record? id = .ok none) : ResolvesWith table resolves id .blank []
  | simple {data : Bytes} {header : RecordHeader} {cursor next : Cursor} {glyph : Glyph}
      (found : table.record? id = .ok (some data))
      (start : RecordHeader.read ⟨data, 0⟩ = .ok header cursor)
      (simple : 0 ≤ header.contourCount)
      (content : SimpleGlyph.read id header.contourCount.toInt.toNat header.metrics cursor =
        .ok glyph next) : ResolvesWith table resolves id glyph []
  | composite (record : CompositeRecord) {contours : List Contour} {met : List Reference}
      (stores : table.Stores id record.encode)
      (gathers : Gathers resolves id 0 record.components contours met) :
      ResolvesWith table resolves id ⟨record.header.metrics, record.instructions, contours⟩ met

variable {table : GlyphTable}

/-- A record that starts with a header is found, and its header is read. -/
theorem Stores.header_eq {id : UInt16} {header : RecordHeader} {bytes : List UInt8}
    (stores : table.Stores id (header.encode ++ bytes)) :
    ∃ rest, table.record? id = .ok (some (header.encode ++ (bytes ++ rest)).toArray) ∧
      RecordHeader.read ⟨(header.encode ++ (bytes ++ rest)).toArray, 0⟩ =
        .ok header ⟨(header.encode ++ (bytes ++ rest)).toArray, header.encode.length⟩ := by
  have filled : header.encode ++ bytes ≠ [] := by
    intro empty
    have length := congrArg List.length empty
    simp [RecordHeader.encode, length_bigEndianBytes] at length
  obtain ⟨rest, found⟩ := stores.record?_eq filled
  have read := header.takes_read [] (bytes ++ rest)
  simp only [List.nil_append, List.length_nil, Nat.zero_add] at read
  rw [List.append_assoc] at found
  exact ⟨rest, found, read⟩

variable {resolve? : Option (UInt16 → Resolver Glyph)} {id : UInt16} {glyph : Glyph}
  {trail after : Trail}

theorem resolvesWith_of_resolveWith
    (follows : ∀ resolve, resolve? = some resolve →
      ∀ id, Resolver.Follows (resolve id) (resolves id))
    (room : trail.started ≤ componentLimit)
    (done : table.resolveWith resolve? id trail = .ok glyph after) :
    ∃ met, table.ResolvesWith resolves id glyph met ∧
      trail.started + met.length ≤ componentLimit ∧ after = trail.extend met := by
  obtain ⟨data?, same, accepted, later⟩ := bind_eq_ok_iff.mp done
  obtain ⟨found, rfl⟩ := Resolver.accept_eq_ok_iff.mp accepted
  cases data? with
  | none =>
      cases later
      exact ⟨[], .blank found, room, (Trail.extend_nil _).symm⟩
  | some data =>
      obtain ⟨⟨header, cursor⟩, same, taken, rest⟩ := bind_eq_ok_iff.mp later
      obtain ⟨start, rfl⟩ := Resolver.readFrom_eq_ok_iff.mp taken
      dsimp only at rest
      split at rest
      case isTrue simple =>
        obtain ⟨⟨decoded, next⟩, same, taken, returned⟩ := bind_eq_ok_iff.mp rest
        obtain ⟨content, rfl⟩ := Resolver.readFrom_eq_ok_iff.mp taken
        cases returned
        exact ⟨[], .simple found start simple content, room, (Trail.extend_nil _).symm⟩
      case isFalse composite =>
        cases resolve? with
        | none => cases rest
        | some resolve =>
            obtain ⟨bytes, rfl⟩ : ∃ bytes : List UInt8, data = bytes.toArray := ⟨data.toList, rfl⟩
            obtain ⟨_, behind, rfl, rfl, rfl⟩ :=
              RecordHeader.yields_read [] bytes header cursor start
            simp only [List.nil_append, List.length_nil, Nat.zero_add] at rest
            obtain ⟨met, ⟨record, contours, unread, rfl, same, gathers, rfl⟩, within, rfl⟩ :=
              (resolveComposite_follows (follows resolve rfl) id (Int16.not_le.mp composite) behind
                _ after glyph room).mp rest
            rw [same] at found
            exact ⟨met, .composite record (stores_of_record?_eq unread found) gathers, within, rfl⟩

theorem resolveWith_of_resolvesWith {met : List Reference}
    (deep : resolve? = none → ∀ id glyph met, ¬resolves id glyph met)
    (follows : ∀ resolve, resolve? = some resolve →
      ∀ id, Resolver.Follows (resolve id) (resolves id))
    (answers : table.ResolvesWith resolves id glyph met)
    (within : trail.started + met.length ≤ componentLimit) :
    table.resolveWith resolve? id trail = .ok glyph (trail.extend met) := by
  unfold resolveWith
  cases answers with
  | blank absent =>
      rw [bind_of_ok (Resolver.accept_eq_ok_iff.mpr ⟨absent, rfl⟩), Trail.extend_nil]
      rfl
  | simple found start simple content =>
      rw [bind_of_ok (Resolver.accept_eq_ok_iff.mpr ⟨found, rfl⟩), Trail.extend_nil]
      dsimp only
      rw [bind_of_ok (Resolver.readFrom_eq_ok_iff.mpr ⟨start, rfl⟩)]
      dsimp only
      rw [if_pos simple, bind_of_ok (Resolver.readFrom_eq_ok_iff.mpr ⟨content, rfl⟩)]
      rfl
  | composite record stores gathers =>
      obtain ⟨rest, found, start⟩ := Stores.header_eq stores
      rw [bind_of_ok (Resolver.accept_eq_ok_iff.mpr ⟨found, rfl⟩)]
      dsimp only
      rw [bind_of_ok (Resolver.readFrom_eq_ok_iff.mpr ⟨start, rfl⟩)]
      dsimp only
      rw [if_neg (Int16.not_le.mpr record.composite)]
      cases resolve? with
      | none =>
          obtain ⟨part, below, resolved⟩ := gathers.exists_of_mem record.last_mem_components
          exact absurd resolved (deep rfl record.last.glyph part below)
      | some resolve =>
          dsimp only
          exact (resolveComposite_follows (follows resolve rfl) id record.composite _ trail _ _
            (Nat.le_of_add_right_le within)).mpr
              ⟨_, ⟨record, _, rest, rfl, (List.append_assoc _ _ _).symm, gathers, rfl⟩, within, rfl⟩

theorem resolveWith_follows
    (deep : resolve? = none → ∀ id glyph met, ¬resolves id glyph met)
    (follows : ∀ resolve, resolve? = some resolve →
      ∀ id, Resolver.Follows (resolve id) (resolves id))
    (id : UInt16) :
    Resolver.Follows (table.resolveWith resolve? id) (table.ResolvesWith resolves id) := by
  intro trail after glyph room
  constructor
  · exact resolvesWith_of_resolveWith follows room
  · rintro ⟨met, answers, within, rfl⟩
    exact resolveWith_of_resolvesWith deep follows answers within

theorem ResolvesWith.mono {others : UInt16 → Glyph → List Reference → Prop}
    {met : List Reference}
    (weakens : ∀ id glyph below, resolves id glyph below → others id glyph below)
    (answers : table.ResolvesWith resolves id glyph met) :
    table.ResolvesWith others id glyph met := by
  cases answers with
  | blank absent => exact .blank absent
  | simple found start simple content => exact .simple found start simple content
  | composite record stores gathers => exact .composite record stores (gathers.mono weakens)

/-- What a glyph in which composite glyphs contain one another up to a depth is resolved to. -/
def Resolves (table : GlyphTable) : (depth : Nat) → UInt16 → Glyph → List Reference → Prop
  | 0 => table.ResolvesWith fun _ _ _ => False
  | depth + 1 => table.ResolvesWith (table.Resolves depth)

/-- A glyph that is resolved is resolved to the same where more is allowed. -/
theorem Resolves.succ {depth : Nat} {met : List Reference}
    (answers : table.Resolves depth id glyph met) : table.Resolves (depth + 1) id glyph met := by
  induction depth generalizing id glyph met with
  | zero => exact ResolvesWith.mono (fun _ _ _ impossible => impossible.elim) answers
  | succ depth ih => exact ResolvesWith.mono (fun _ _ _ below => ih below) answers

/-- Resolution succeeds exactly as the relation says. -/
theorem resolve_follows (table : GlyphTable) (depth : Nat) (id : UInt16) :
    Resolver.Follows (table.resolve depth id) (table.Resolves depth id) := by
  induction depth generalizing id with
  | zero =>
      refine resolveWith_follows (fun _ _ _ _ impossible => impossible) ?_ id
      intro resolve impossible
      cases impossible
  | succ depth ih =>
      refine resolveWith_follows nofun ?_ id
      rintro resolve ⟨⟩
      exact ih

theorem decode_eq_ok_iff :
    table.decode id = .ok glyph ↔
      ∃ met, table.Resolves nestingLimit id glyph met ∧ met.length ≤ componentLimit := by
  have resolved : table.decode id = .ok glyph ↔
      ∃ after, table.resolve nestingLimit id .empty = .ok glyph after := by
    unfold decode decodeTracing
    cases table.resolve nestingLimit id .empty with
    | ok decoded trail => simp
    | error failure trail => simp
  have follows := table.resolve_follows nestingLimit id .empty
  constructor
  · intro done
    obtain ⟨after, done⟩ := resolved.mp done
    obtain ⟨met, answers, within, _⟩ := (follows after glyph (Nat.zero_le _)).mp done
    exact ⟨met, answers, Nat.le_trans (Nat.le_add_left _ _) within⟩
  · rintro ⟨met, answers, within⟩
    refine resolved.mpr ⟨_, (follows _ glyph (Nat.zero_le _)).mpr ⟨met, answers, ?_, rfl⟩⟩
    rwa [Trail.empty, Nat.zero_add]

/-- A glyph whose record starts as those of composite glyphs do. -/
def IsComposite (table : GlyphTable) (id : UInt16) : Prop :=
  ∃ header : RecordHeader, header.contourCount < 0 ∧ table.Stores id header.encode

theorem Stores.front {bytes more : List UInt8} (stores : table.Stores id (bytes ++ more)) :
    table.Stores id bytes := by
  obtain ⟨range, rest, located, inside, content⟩ := stores
  exact ⟨range, more ++ rest, located, inside, by rw [content, List.append_assoc]⟩

/-- What a record starts with goes on to the same record. -/
theorem Stores.exists_append_eq {bytes others : List UInt8} (stores : table.Stores id bytes)
    (again : table.Stores id others) : ∃ after behind, bytes ++ after = others ++ behind := by
  obtain ⟨range, after, located, _, content⟩ := stores
  obtain ⟨other, behind, located', _, content'⟩ := again
  rw [located] at located'
  cases located'
  exact ⟨after, behind, content.symm.trans content'⟩

/-- A composite glyph is resolved only to what its record says. -/
theorem ResolvesWith.of_isComposite {met : List Reference} (composite : table.IsComposite id)
    (answers : table.ResolvesWith resolves id glyph met) :
    ∃ record contours, table.Stores id (CompositeRecord.encode record) ∧
      Gathers resolves id 0 record.components contours met ∧
      glyph = ⟨record.header.metrics, record.instructions, contours⟩ := by
  obtain ⟨header, negative, stores⟩ := composite
  rw [← List.append_nil header.encode] at stores
  obtain ⟨rest, found, start⟩ := stores.header_eq
  cases answers with
  | blank absent =>
      rw [found] at absent
      cases absent
  | simple foundToo startToo simple _ =>
      rw [found] at foundToo
      cases foundToo
      rw [start] at startToo
      cases startToo
      exact absurd negative (Int16.not_lt.mpr simple)
  | composite record stores gathers => exact ⟨record, _, stores, gathers, rfl⟩

theorem ResolvesWith.of_stores {record : CompositeRecord} {met : List Reference}
    (stores : table.Stores id record.encode) (answers : table.ResolvesWith resolves id glyph met) :
    ∃ contours, Gathers resolves id 0 record.components contours met ∧
      glyph = ⟨record.header.metrics, record.instructions, contours⟩ := by
  have composite : table.IsComposite id := ⟨record.header, record.composite, stores.front⟩
  obtain ⟨other, contours, storesOther, gathers, same⟩ := answers.of_isComposite composite
  obtain ⟨_, _, append⟩ := stores.exists_append_eq storesOther
  have equal := CompositeRecord.unique append
  subst equal
  exact ⟨contours, gathers, same⟩

end GlyphTable

/-- A point is transformed, then moved; it stays on or off the curve. -/
theorem Component.place_eq (component : Component) (point : Point) :
    component.place point =
      let transformed := component.matrix.elim point fun matrix => matrix.apply point
      ⟨transformed.x + component.dx, transformed.y + component.dy, point.onCurve⟩ := by
  unfold place Point.translate
  cases component.matrix with
  | none => rfl
  | some matrix => rfl

namespace GlyphTable

variable {table : GlyphTable} {id : UInt16} {decoded : Glyph}

/--
A decoded composite glyph has a whole record.  It has the contours of what its
components are decoded to on their own, in the order of the record and put in
place, its own bounding box and its own program.
-/
theorem decode_composite (done : table.decode id = .ok decoded) :
    (table.IsComposite id → ∃ record : CompositeRecord, table.Stores id record.encode) ∧
    ∀ record : CompositeRecord, table.Stores id record.encode →
      ∃ parts : List Glyph,
        List.Forall₂ (fun component part => table.decode component.glyph = .ok part)
          record.components parts ∧
        decoded.contours = (List.zipWith (fun (component : Component) (part : Glyph) =>
          part.contours.map fun contour => (⟨contour.points.map fun point =>
            let transformed := component.matrix.elim point fun matrix => matrix.apply point
            ⟨transformed.x + component.dx, transformed.y + component.dy, point.onCurve⟩⟩ :
              Contour)) record.components parts).flatten ∧
        decoded.metrics = record.header.metrics ∧ decoded.instructions = record.instructions := by
  obtain ⟨met, answers, within⟩ := decode_eq_ok_iff.mp done
  constructor
  · intro composite
    obtain ⟨record, _, stores, _⟩ := ResolvesWith.of_isComposite composite answers
    exact ⟨record, stores⟩
  · intro record stores
    obtain ⟨contours, gathers, rfl⟩ := ResolvesWith.of_stores stores answers
    obtain ⟨parts, each, rfl⟩ := gathers.exists_parts
    refine ⟨parts, each.imp ?_, ?_, rfl, rfl⟩
    · rintro component part ⟨below, answer, fewer⟩
      exact decode_eq_ok_iff.mpr ⟨below, Resolves.succ answer, Nat.le_trans fewer within⟩
    · simp only [← Component.place_eq]
      rfl

/-- A glyph inside another one that is moved and wraps, and one that is scaled and moved. -/
theorem decode_composite_twoLevels :
    let plain : Glyph := ⟨⟨10, -5, 20, 0⟩, #[], [⟨[⟨10, 0, true⟩, ⟨20, -5, false⟩]⟩]⟩
    let runs : List FlagRun := [⟨⟨1⟩, 0, by decide⟩, ⟨⟨0⟩, 0, by decide⟩]
    let inner : CompositeRecord := ⟨⟨-1, ⟨15, -8, 25, -3⟩⟩, [], ⟨⟨0x0002⟩, 0, 5, -3, none⟩, #[],
      by decide, .single (by decide) (by decide) (by decide), by decide, by decide⟩
    let outer : CompositeRecord := ⟨⟨-1, ⟨0, 0, 0, 0⟩⟩, [⟨⟨0x0023⟩, 1, 32767, 0, none⟩],
      ⟨⟨0x010A⟩, 0, -1, 2, some ⟨8192, 0, 0, 8192⟩⟩, #[0x4F],
      by decide, (Component.Row.single (by decide) (by decide) (by decide)).cons (by decide)
        (by decide) (by decide), by decide, by decide⟩
    let table : GlyphTable :=
      ⟨(SimpleGlyph.encode plain runs ++ inner.encode ++ outer.encode).toArray,
        ⟨#[0, 0, 0, 0, 0, 0, 0, 24, 0, 0, 0, 40, 0, 0, 0, 69], .long, 3⟩⟩
    ∃ decoded parts, table.decode 2 = .ok decoded ∧
      List.Forall₂ (fun component part => table.decode component.glyph = .ok part)
        outer.components parts ∧ decoded.instructions = #[0x4F] := by
  intro plain runs inner outer table
  have succeeds : (table.decode 2).isOk = true := by decide +kernel
  have stores : table.Stores 2 outer.encode := ⟨⟨40, 69⟩, [], rfl, by decide, by decide⟩
  cases done : table.decode 2 with
  | ok decoded =>
      obtain ⟨parts, each, _, _, instructions⟩ := (decode_composite done).2 outer stores
      exact ⟨decoded, parts, rfl, each, instructions⟩
  | error failure =>
      rw [done] at succeeds
      cases succeeds

end GlyphTable

end OutlineFont
