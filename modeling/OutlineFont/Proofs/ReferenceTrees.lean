import OutlineFont.Proofs.CompositeDecoding

/-!
# Trees of references

A composite glyph refers to the glyphs of its components.  Where a glyph is
decoded, these references do not come back to where they started, and unfolding
them ends: what is unfolded are the components that are met.
-/

namespace OutlineFont

namespace Component

theorem reference_unique {flags others : ComponentFlags} {glyph other : UInt16}
    {after behind : List UInt8}
    (same : encodeReference flags glyph ++ after = encodeReference others other ++ behind) :
    flags = others ∧ glyph = other := by
  unfold encodeReference at same
  rw [List.append_assoc, List.append_assoc] at same
  obtain ⟨word, _, rest⟩ := (Reader.Takes.u16 flags.word).unique (.u16 others.word) same
  obtain ⟨glyph, _, _⟩ := (Reader.Takes.u16 glyph).unique (.u16 other) rest
  exact ⟨congrArg ComponentFlags.mk word, glyph⟩

namespace Row

variable {earlier : List Component} {last : Component}

theorem exists_first (row : Row earlier last) :
    ∃ first rest, earlier ++ [last] = first :: rest ∧ first.Fits ∧
      first.flags.offsetArguments = true := by
  obtain ⟨first, rest, starts⟩ : ∃ first rest, earlier ++ [last] = first :: rest :=
    List.exists_cons_of_ne_nil (List.append_ne_nil_of_right_ne_nil _ (List.cons_ne_nil _ _))
  have listed : first ∈ earlier ++ [last] := starts ▸ List.mem_cons_self
  exact ⟨first, rest, starts, row.fits first listed, row.placed first listed⟩

/-- A glyph that is named behind components that go on is one that the row names. -/
theorem exists_mem_of_reference {front : List Component} {flags : ComponentFlags} {part : UInt16}
    {after behind : List UInt8} (row : Row earlier last)
    (fits : ∀ component ∈ front, component.Fits)
    (more : ∀ component ∈ front, component.flags.isLast = false)
    (same : front.flatMap encode ++ (encodeReference flags part ++ after) =
      (earlier ++ [last]).flatMap encode ++ behind) :
    ∃ component ∈ earlier ++ [last], component.glyph = part := by
  induction front generalizing earlier with
  | nil =>
      obtain ⟨first, rest, starts, _⟩ := row.exists_first
      rw [starts, List.flatMap_nil, List.nil_append, List.flatMap_cons, encode,
        List.append_assoc, List.append_assoc] at same
      rw [starts]
      exact ⟨first, List.mem_cons_self, (reference_unique same).2.symm⟩
  | cons component front ih =>
      obtain ⟨first, rest, starts, fitsFirst, placed⟩ := row.exists_first
      rw [starts, List.flatMap_cons, List.flatMap_cons, List.append_assoc,
        List.append_assoc] at same
      -- The flags come first, so that the components are placed alike and are read alike.
      have flagged : component.flags = first.flags := by
        rw [encode, encode, List.append_assoc, List.append_assoc] at same
        exact (reference_unique same).1
      obtain ⟨rfl, later⟩ := (fits component List.mem_cons_self).unique
        (by rw [flagged, placed]) fitsFirst placed same
      have goesOn := more component List.mem_cons_self
      cases earlier with
      | nil =>
          cases starts
          rw [row.ends] at goesOn
          cases goesOn
      | cons head earlier =>
          cases starts
          obtain ⟨named, listed, names⟩ := ih row.tail
            (fun other listed => fits other (List.mem_cons_of_mem _ listed))
            (fun other listed => more other (List.mem_cons_of_mem _ listed)) later
          exact ⟨named, List.mem_cons_of_mem _ listed, names⟩

end Row

end Component

namespace GlyphTable

/--
A glyph refers to another one if its record, read as that of a composite glyph,
names the other one behind components that go on.
-/
def References (table : GlyphTable) (id part : UInt16) : Prop :=
  ∃ (header : RecordHeader) (front : List Component) (flags : ComponentFlags),
    header.contourCount < 0 ∧ (∀ component ∈ front, component.Fits) ∧
    (∀ component ∈ front, component.flags.isLast = false) ∧
    table.Stores id (header.encode ++ (front.flatMap Component.encode ++
      Component.encodeReference flags part))

variable {table : GlyphTable} {id part : UInt16} {record : CompositeRecord}

theorem References.isComposite (references : table.References id part) : table.IsComposite id := by
  obtain ⟨header, _, _, negative, _, _, stores⟩ := references
  exact ⟨header, negative, stores.front⟩

/-- A composite glyph with a whole record refers to the glyphs of its components. -/
theorem Stores.references_iff (stores : table.Stores id record.encode) :
    table.References id part ↔ ∃ component ∈ record.components, component.glyph = part := by
  constructor
  · rintro ⟨header, front, flags, negative, fits, more, starts⟩
    obtain ⟨after, behind, same⟩ := starts.exists_append_eq stores
    unfold CompositeRecord.encode at same
    simp only [List.append_assoc] at same
    obtain ⟨_, _, rest⟩ := header.takes_read.unique record.header.takes_read same
    exact record.row.exists_mem_of_reference fits more rest
  · rintro ⟨component, listed, rfl⟩
    obtain ⟨front, back, split⟩ := List.append_of_mem listed
    have inside : ∀ other ∈ front, other ∈ record.earlier := by
      intro other listed
      rcases List.append_eq_append_iff.mp split with ⟨rest, whole, tail⟩ | ⟨rest, whole, _⟩
      · cases rest with
        | nil =>
            rw [List.append_nil] at whole
            rwa [← whole]
        | cons head rest => simp at tail
      · rw [whole]
        exact List.mem_append_left rest listed
    refine ⟨record.header, front, component.flags, record.composite, ?_, ?_, ?_⟩
    · intro other listed
      exact record.row.fits other (List.mem_append_left _ (inside other listed))
    · intro other listed
      exact record.row.more other (inside other listed)
    · unfold CompositeRecord.encode at stores
      rw [split, List.flatMap_append, List.flatMap_cons, Component.encode] at stores
      simp only [List.append_assoc] at stores
      simp only [← List.append_assoc] at stores ⊢
      exact stores.front.front.front.front

/-- A reference of a glyph that is resolved leads to one that is resolved. -/
theorem ResolvesWith.of_references {resolves : UInt16 → Glyph → List Reference → Prop}
    {glyph : Glyph} {met : List Reference} (answers : table.ResolvesWith resolves id glyph met)
    (references : table.References id part) : ∃ glyph met, resolves part glyph met := by
  obtain ⟨record, contours, stores, gathers, _⟩ := answers.of_isComposite references.isComposite
  obtain ⟨component, listed, rfl⟩ := stores.references_iff.mp references
  exact gathers.exists_of_mem listed

/-- A glyph that is resolved in some way. -/
def Resolvable (table : GlyphTable) (depth : Nat) (id : UInt16) : Prop :=
  ∃ glyph met, table.Resolves depth id glyph met

namespace Resolvable

variable {depth : Nat}

theorem pos (resolvable : table.Resolvable depth id) (composite : table.IsComposite id) :
    0 < depth := by
  obtain ⟨glyph, met, answers⟩ := resolvable
  cases depth with
  | zero =>
      obtain ⟨record, _, _, gathers, _⟩ := ResolvesWith.of_isComposite composite answers
      obtain ⟨_, _, impossible⟩ := gathers.exists_of_mem record.last_mem_components
      exact impossible.elim
  | succ depth => exact Nat.succ_pos depth

/-- A reference leads one level down. -/
theorem of_references (resolvable : table.Resolvable depth id)
    (references : table.References id part) : ∃ less, depth = less + 1 ∧
      table.Resolvable less part := by
  obtain ⟨glyph, met, answers⟩ := resolvable
  cases depth with
  | zero =>
      obtain ⟨_, _, impossible⟩ := ResolvesWith.of_references answers references
      exact impossible.elim
  | succ depth => exact ⟨depth, rfl, ResolvesWith.of_references answers references⟩

theorem of_transGen (resolvable : table.Resolvable depth id)
    (reaches : Relation.TransGen table.References id part) :
    ∃ less < depth, table.Resolvable less part := by
  induction reaches with
  | single references =>
      obtain ⟨less, rfl, leads⟩ := resolvable.of_references references
      exact ⟨less, Nat.lt_succ_self less, leads⟩
  | tail _ references ih =>
      obtain ⟨depth, below, between⟩ := ih
      obtain ⟨less, rfl, leads⟩ := between.of_references references
      exact ⟨less, Nat.lt_of_succ_lt below, leads⟩

/-- A glyph on a cycle would be resolved at less and less depth. -/
theorem not_cyclic (resolvable : table.Resolvable depth id) :
    ¬Relation.TransGen table.References id id := by
  intro cycle
  induction depth using Nat.strong_induction_on with
  | h depth ih =>
      obtain ⟨less, below, again⟩ := resolvable.of_transGen cycle
      exact ih less below again

/-- No cycle can be reached. -/
theorem acyclic (resolvable : table.Resolvable depth id)
    (reaches : Relation.ReflTransGen table.References id part) :
    ¬Relation.TransGen table.References part part := by
  rcases Relation.reflTransGen_iff_eq_or_transGen.mp reaches with rfl | reaches
  · exact resolvable.not_cyclic
  · obtain ⟨less, _, leads⟩ := resolvable.of_transGen reaches
    exact leads.not_cyclic

/-- Composite glyphs that contain one another are no more than the depth. -/
theorem length_le {chain : List UInt16} (resolvable : table.Resolvable depth id)
    (linked : List.IsChain table.References (id :: chain))
    (composites : ∀ other ∈ id :: chain, table.IsComposite other) :
    (id :: chain).length ≤ depth := by
  induction chain generalizing depth id with
  | nil => exact resolvable.pos (composites id List.mem_cons_self)
  | cons next chain ih =>
      obtain ⟨references, later⟩ := List.isChain_cons_cons.mp linked
      obtain ⟨less, rfl, leads⟩ := resolvable.of_references references
      exact Nat.succ_le_succ (ih leads later
        fun other listed => composites other (List.mem_cons_of_mem _ listed))

end Resolvable

/-- The components that are met where all references are unfolded, from above and in order. -/
inductive Unfolds (table : GlyphTable) : UInt16 → List Reference → Prop where
  | plain {id : UInt16} (plain : ¬table.IsComposite id) : Unfolds table id []
  | composite {id : UInt16} (record : CompositeRecord) (stores : table.Stores id record.encode)
      (below : UInt16 → List Reference)
      (unfolds : ∀ component ∈ record.components,
        Unfolds table component.glyph (below component.glyph)) :
      Unfolds table id
        (record.components.flatMap fun component => ⟨id, component⟩ :: below component.glyph)

theorem Unfolds.unique {met others : List Reference} (unfolds : table.Unfolds id met)
    (again : table.Unfolds id others) : met = others := by
  induction unfolds generalizing others with
  | plain plain =>
      cases again with
      | plain => rfl
      | composite record stores =>
          exact absurd ⟨record.header, record.composite, stores.front⟩ plain
  | composite record stores below _ ih =>
      cases again with
      | plain plain => exact absurd ⟨record.header, record.composite, stores.front⟩ plain
      | composite other storesOther beneath unfolds =>
          obtain ⟨_, _, same⟩ := stores.exists_append_eq storesOther
          have equal := CompositeRecord.unique same
          subst equal
          refine List.flatMap_congr fun component listed => ?_
          rw [ih component listed (unfolds component listed)]

/-- Every glyph that can be unfolded is unfolded by one function. -/
theorem exists_unfolding (table : GlyphTable) :
    ∃ below : UInt16 → List Reference, ∀ id met, table.Unfolds id met → below id = met := by
  have each (id : UInt16) : ∃ below, ∀ met, table.Unfolds id met → below = met := by
    by_cases unfolds : ∃ met, table.Unfolds id met
    · obtain ⟨met, unfolds⟩ := unfolds
      exact ⟨met, fun _ => unfolds.unique⟩
    · exact ⟨[], fun met impossible => absurd ⟨met, impossible⟩ unfolds⟩
  choose below unfolds using each
  exact ⟨below, unfolds⟩

theorem ResolvesWith.unfolds {resolves : UInt16 → Glyph → List Reference → Prop} {glyph : Glyph}
    {met : List Reference} (answers : table.ResolvesWith resolves id glyph met)
    (parts : ∀ id glyph met, resolves id glyph met → table.Unfolds id met) :
    table.Unfolds id met := by
  by_cases composite : table.IsComposite id
  · obtain ⟨record, contours, stores, gathers, _⟩ := answers.of_isComposite composite
    obtain ⟨below, unfolding⟩ := table.exists_unfolding
    have agrees (id : UInt16) (glyph : Glyph) (met : List Reference)
        (resolved : resolves id glyph met) : below id = met :=
      unfolding id met (parts id glyph met resolved)
    rw [gathers.met_eq agrees]
    refine .composite record stores below fun component listed => ?_
    obtain ⟨part, beneath, resolved⟩ := gathers.exists_of_mem listed
    rw [agrees _ _ _ resolved]
    exact parts _ _ _ resolved
  · cases answers with
    | blank => exact .plain composite
    | simple => exact .plain composite
    | composite record stores =>
        exact absurd ⟨record.header, record.composite, stores.front⟩ composite

/-- What is met while a glyph is resolved is what its references unfold to. -/
theorem Resolves.unfolds {depth : Nat} {glyph : Glyph} {met : List Reference}
    (answers : table.Resolves depth id glyph met) : table.Unfolds id met := by
  induction depth generalizing id glyph met with
  | zero => exact ResolvesWith.unfolds answers fun _ _ _ impossible => impossible.elim
  | succ depth ih => exact ResolvesWith.unfolds answers fun _ _ _ part => ih part

end GlyphTable

end OutlineFont
