import OutlineFont.Proofs.SubtableSelection

/-!
# Records of unused platforms

Most platforms do not encode Unicode in a way that is used, and a font may well
tell wrongly where their subtables start.  Such a record can at most claim
variation sequences.  So a table with damage of this kind is accepted, or
rejected for the same reason, as without it, and the same characters have the
same glyphs.
-/

namespace OutlineFont

namespace StoredEncoding

def isUsed (entry : StoredEncoding) : Bool :=
  entry.isWindows || entry.isUnicode

/-- Whether a byte of a table is one of those that tell where an unused subtable starts. -/
def IsUnusedStart (table : Bytes) (place : Nat) : Prop :=
  ∃ index < Bytes.stored table 2 2, (ofIndex table index).isUsed = false ∧
    8 + 8 * index ≤ place ∧ place < 12 + 8 * index

instance (table : Bytes) (place : Nat) : Decidable (IsUnusedStart table place) :=
  inferInstanceAs (Decidable (∃ index < Bytes.stored table 2 2, _))

theorem preference?_toRecord (entry : StoredEncoding) :
    entry.toRecord.platform.preference? =
      if entry.isWindows then some .preferred
      else if entry.isUnicode then some .fallback
      else none := by
  simp only [toRecord, Platform.preference?_ofNumbers, isWindows, isUnicode, Bool.and_eq_true,
    Bool.or_eq_true, beq_iff_eq]

theorem preference?_eq_none_iff {entry : StoredEncoding} :
    entry.toRecord.platform.preference? = none ↔ entry.isUsed = false := by
  rw [preference?_toRecord, isUsed]
  cases entry.isWindows <;> cases entry.isUnicode <;> decide

end StoredEncoding

/-! ### Damaged tables -/

/--
Two tables of one length that are alike but for the places where subtables of
unused platforms are said to start.
-/
structure AlikeWhereUsed (first second : Bytes) : Prop where
  size : second.size = first.size
  same : ∀ place < first.size, ¬StoredEncoding.IsUnusedStart first place →
    second[place]? = first[place]?

/-- The subtables of the platforms in use start behind the records. -/
def StartBehindRecords (table : Bytes) : Prop :=
  ∀ index < Bytes.stored table 2 2, 12 + 8 * index ≤ table.size →
    (StoredEncoding.ofIndex table index).isUsed →
      4 + 8 * Bytes.stored table 2 2 ≤ (StoredEncoding.ofIndex table index).start.toNat

namespace AlikeWhereUsed

variable {first second : Bytes} {index : Nat}

theorem extract_eq (alike : AlikeWhereUsed first second) {start stop : Nat}
    (apart : ∀ place, start ≤ place → place < stop →
      ¬StoredEncoding.IsUnusedStart first place) :
    second.extract start stop = first.extract start stop := by
  have same : ∀ place, start ≤ place → place < stop → second[0 + place]? = first[place]? := by
    intro place low high
    rw [Nat.zero_add]
    by_cases inside : place < first.size
    · exact alike.same place inside (apart place low high)
    · rw [Array.getElem?_eq_none (Nat.le_of_not_lt inside),
        Array.getElem?_eq_none (alike.size ▸ Nat.le_of_not_lt inside)]
  have parts := Bytes.extract_congr same
  rwa [Nat.zero_add, Nat.zero_add] at parts

theorem stored_eq (alike : AlikeWhereUsed first second) {offset width : Nat}
    (apart : ∀ place, offset ≤ place → place < offset + width →
      ¬StoredEncoding.IsUnusedStart first place) :
    Bytes.stored second offset width = Bytes.stored first offset width := by
  rw [Bytes.stored, Bytes.stored, alike.extract_eq apart]

/-- Numbers before all offsets are read alike, or missed alike. -/
theorem u16At_eq (alike : AlikeWhereUsed first second) {offset : Nat} (header : offset ≤ 2) :
    Bytes.u16At second offset = Bytes.u16At first offset := by
  have part : second.extract offset (offset + 2) = first.extract offset (offset + 2) := by
    refine alike.extract_eq ?_
    rintro place _ _ ⟨index, _, _, _, _⟩
    omega
  rw [Bytes.u16At, Bytes.u16At, Bytes.number, Bytes.number, Bytes.slice, Bytes.slice, alike.size,
    part]

theorem recordCount_eq (alike : AlikeWhereUsed first second) :
    CharacterMap.recordCount second = CharacterMap.recordCount first := by
  unfold CharacterMap.recordCount
  rw [alike.u16At_eq (by decide), alike.u16At_eq (by decide)]

/-- The platform of a record is not in the places that differ. -/
theorem platform_eq (alike : AlikeWhereUsed first second) (index : Nat) :
    (StoredEncoding.ofIndex second index).platform = (StoredEncoding.ofIndex first index).platform ∧
    (StoredEncoding.ofIndex second index).encoding =
      (StoredEncoding.ofIndex first index).encoding := by
  unfold StoredEncoding.ofIndex
  constructor
  · refine congrArg UInt16.ofNat (alike.stored_eq ?_)
    rintro place _ _ ⟨other, _, _, _, _⟩
    omega
  · refine congrArg UInt16.ofNat (alike.stored_eq ?_)
    rintro place _ _ ⟨other, _, _, _, _⟩
    omega

/-- A record of a platform in use is the same. -/
theorem ofIndex_eq (alike : AlikeWhereUsed first second)
    (used : (StoredEncoding.ofIndex first index).isUsed) :
    StoredEncoding.ofIndex second index = StoredEncoding.ofIndex first index := by
  obtain ⟨platform, encoding⟩ := alike.platform_eq index
  have start : (StoredEncoding.ofIndex second index).start =
      (StoredEncoding.ofIndex first index).start := by
    refine congrArg UInt32.ofNat (alike.stored_eq ?_)
    rintro place _ _ ⟨other, _, unused, _, _⟩
    obtain rfl : other = index := by omega
    cases used.symm.trans unused
  cases ofSecond : StoredEncoding.ofIndex second index
  cases ofFirst : StoredEncoding.ofIndex first index
  rw [ofSecond, ofFirst] at platform encoding start
  cases platform
  cases encoding
  cases start
  rfl

theorem preference?_eq (alike : AlikeWhereUsed first second) (index : Nat) :
    (StoredEncoding.ofIndex second index).toRecord.platform.preference? =
      (StoredEncoding.ofIndex first index).toRecord.platform.preference? := by
  obtain ⟨platform, encoding⟩ := alike.platform_eq index
  rw [StoredEncoding.toRecord, StoredEncoding.toRecord, platform, encoding]

/-- Behind the records the tables are the same. -/
theorem extract_behind (alike : AlikeWhereUsed first second) {start stop : Nat}
    (behind : 4 + 8 * Bytes.stored first 2 2 ≤ start) :
    second.extract start stop = first.extract start stop := by
  refine alike.extract_eq ?_
  rintro place _ _ ⟨index, _, _, _, _⟩
  omega

end AlikeWhereUsed

/-! ### Reading them -/

namespace CharacterMap

/-- The chosen subtables, without what is known of variation sequences. -/
def Selection.chosen (selection : Selection) : Selection :=
  { selection with variations := false }

/-- The first record is read and taken into account, and then the others are. -/
theorem outcome_survey_succ (table : Bytes) (selection : Selection) (index count : Nat) :
    (survey table selection index (count + 1)).outcome =
      (EncodingRecord.readAt table (4 + EncodingRecord.size * index) >>= fun entry =>
        selection.use table entry >>= fun next =>
          (survey table next (index + 1) count).outcome) := by
  rw [survey]
  cases EncodingRecord.readAt table (4 + EncodingRecord.size * index) with
  | error failure => rfl
  | ok entry =>
      change _ = (selection.use table entry >>= _)
      dsimp only
      cases selection.use table entry <;> rfl

/-- Taking a record into account does not depend on what is known of variation sequences. -/
theorem chosen_useTrusted {first second : Selection} (same : first.chosen = second.chosen)
    (table : Bytes) (entry : EncodingRecord) (preference : Preference) :
    (first.useTrusted table entry preference).map Selection.chosen =
      (second.useTrusted table entry preference).map Selection.chosen := by
  obtain ⟨segments, groups, variations⟩ := first
  obtain ⟨_, _, others⟩ := second
  cases same
  unfold Selection.useTrusted
  cases entry.format table with
  | error failure => rfl
  | ok format =>
      simp only [bind, Except.bind]
      split_ifs
      · cases SegmentMap.parse (entry.body table) <;> rfl
      · rfl
      · cases GroupMap.parse (entry.body table) <;> rfl
      · rfl
      · rfl
      · rfl

theorem chosen_useUntrusted (selection : Selection) (table : Bytes) (entry : EncodingRecord) :
    (selection.useUntrusted table entry).chosen = selection.chosen := by
  rw [Serves.useUntrusted_eq]
  rfl

end CharacterMap

namespace AlikeWhereUsed

open CharacterMap

variable {first second : Bytes}

/-- A record of a platform in use points at the same subtable in both tables. -/
theorem useTrusted_eq (alike : AlikeWhereUsed first second) {entry : EncodingRecord}
    (behind : 4 + 8 * Bytes.stored first 2 2 ≤ entry.offset) (selection : Selection)
    (preference : Preference) :
    selection.useTrusted second entry preference = selection.useTrusted first entry preference := by
  have format : entry.format second = entry.format first := by
    rw [EncodingRecord.format, EncodingRecord.format, alike.size, alike.extract_behind behind]
  have body : entry.body second = entry.body first := by
    rw [EncodingRecord.body, EncodingRecord.body, alike.size, alike.extract_behind behind]
  unfold Selection.useTrusted
  rw [format, body]

/-- One record leads to the same choice, or to the same failure. -/
theorem chosen_use (alike : AlikeWhereUsed first second) (behind : StartBehindRecords first)
    {index : Nat} (listed : index < Bytes.stored first 2 2)
    (inside : 4 + 8 * (index + 1) ≤ first.size) {selection other : Selection}
    (same : other.chosen = selection.chosen) :
    (other.use second (StoredEncoding.ofIndex second index).toRecord).map Selection.chosen =
      (selection.use first (StoredEncoding.ofIndex first index).toRecord).map
        Selection.chosen := by
  have platform := alike.preference?_eq index
  unfold Selection.use
  rw [platform]
  cases used : (StoredEncoding.ofIndex first index).isUsed with
  | true =>
      have starts := behind index listed (by omega) used
      rw [alike.ofIndex_eq used]
      split
      · rw [alike.useTrusted_eq starts]
        exact chosen_useTrusted same first _ _
      next untrusted =>
        cases used.symm.trans (StoredEncoding.preference?_eq_none_iff.mp untrusted)
  | false =>
      rw [StoredEncoding.preference?_eq_none_iff.mpr used]
      refine congrArg Except.ok ?_
      rw [chosen_useUntrusted, chosen_useUntrusted, same]

/-- The records lead to the same choice, or to the same failure. -/
theorem chosen_survey (alike : AlikeWhereUsed first second) (behind : StartBehindRecords first)
    {index count : Nat} (listed : index + count ≤ Bytes.stored first 2 2)
    {selection other : Selection} (same : other.chosen = selection.chosen) :
    (survey second other index count).outcome.map Selection.chosen =
      (survey first selection index count).outcome.map Selection.chosen := by
  induction count generalizing index selection other with
  | zero => exact congrArg Except.ok same
  | succ count ih =>
      rw [outcome_survey_succ, outcome_survey_succ, EncodingRecord.readAt_eq,
        EncodingRecord.readAt_eq, alike.size]
      by_cases inside : 4 + 8 * (index + 1) ≤ first.size
      · rw [if_pos inside, if_pos inside]
        have step := alike.chosen_use behind (by omega) inside same
        change ((other.use second _ >>= _).map _) = ((selection.use first _ >>= _).map _)
        exact exceptMap_bind_congr step fun _ _ same => ih (by omega) same
      · rw [if_neg inside, if_neg inside]
        rfl

end AlikeWhereUsed

namespace CharacterMap

/-- Selections that are alike but for variation sequences are finished alike but for them. -/
theorem finish_eq {selection other : Selection} (same : other.chosen = selection.chosen) :
    other.finish = { selection.finish with variations := other.variations } := by
  obtain ⟨segments, groups, variations⟩ := selection
  obtain ⟨_, _, _⟩ := other
  cases same
  rfl

/--
Where the subtables of unused platforms are said to start is of no account, if
all others start behind the records.  Both tables are rejected for the same
reason, or the maps that are read from them give all characters the same
glyphs and differ at most in whether there are variation sequences.
-/
theorem parse_alikeWhereUsed {first second : Bytes} (alike : AlikeWhereUsed first second)
    (behind : StartBehindRecords first) :
    (∃ failure, parse first = .error failure ∧ parse second = .error failure) ∨
      ∃ map other, parse first = .ok map ∧ parse second = .ok other ∧
        other.segments = map.segments ∧ other.groups = map.groups ∧
        ∀ character selector, other.glyph? character selector = map.glyph? character selector := by
  unfold parse surveyTable
  rw [alike.recordCount_eq]
  cases counted : recordCount first with
  | error failure => exact .inl ⟨failure, rfl, rfl⟩
  | ok count =>
      obtain ⟨-, rfl⟩ := recordCount_eq_ok counted
      have chosen : (survey second .none 0 (Bytes.stored first 2 2)).outcome.map _ =
          (survey first .none 0 (Bytes.stored first 2 2)).outcome.map _ :=
        alike.chosen_survey behind (Nat.zero_add _).le rfl
      dsimp only
      cases outcome : (survey first .none 0 (Bytes.stored first 2 2)).outcome with
      | error failure =>
          rw [outcome] at chosen
          rw [exceptMap_eq_error_iff.mp chosen]
          exact .inl ⟨failure, rfl, rfl⟩
      | ok selection =>
          rw [outcome] at chosen
          obtain ⟨other, outcome, same⟩ := exceptMap_eq_ok_iff.mp chosen
          rw [outcome]
          refine .inr ⟨selection.finish, other.finish, rfl, rfl, ?_⟩
          rw [finish_eq same]
          exact ⟨rfl, rfl, fun _ _ => rfl⟩

/--
A record for the Macintosh that starts anywhere, one for Windows, the segment
map of the latter, and the format number of variation sequences.
-/
def besideUnused (start : UInt32) : Bytes :=
  #[0, 0, 0, 2, 0, 1, 0, 0] ++ (bigEndianBytes 4 start.toNat).toArray ++
    #[0, 3, 0, 1, 0, 0, 0, 20,
      0, 4, 0, 24, 0, 0, 0, 2, 0, 0, 0, 0, 0, 0, 0, 65, 0, 0, 0, 65, 0, 1, 0, 0,
      0, 14]

/-- Damage to the first record loses the variation sequences, and nothing else. -/
theorem parse_alikeWhereUsed_besideUnused :
    AlikeWhereUsed (besideUnused 44) (besideUnused 0xffffff) ∧
    StartBehindRecords (besideUnused 44) ∧
    ∃ map other, parse (besideUnused 44) = .ok map ∧
      parse (besideUnused 0xffffff) = .ok other ∧ map.variations ∧ ¬other.variations ∧
      map.glyph? 65 0 = .ok (some 66) ∧
      ∀ character selector, other.glyph? character selector = map.glyph? character selector := by
  have alike : AlikeWhereUsed (besideUnused 44) (besideUnused 0xffffff) :=
    ⟨by decide +kernel, by decide +kernel⟩
  have behind : StartBehindRecords (besideUnused 44) := by
    unfold StartBehindRecords
    decide +kernel
  have parsed : parse (besideUnused 44) = .ok ⟨some ⟨[⟨65, 65, 1, 0⟩]⟩, none, true⟩ := by
    decide +kernel
  have damaged : parse (besideUnused 0xffffff) = .ok ⟨some ⟨[⟨65, 65, 1, 0⟩]⟩, none, false⟩ := by
    decide +kernel
  have glyph : CharacterMap.glyph? ⟨some ⟨[⟨65, 65, 1, 0⟩]⟩, none, true⟩ 65 0 = .ok (some 66) := by
    decide
  refine ⟨alike, behind, _, _, parsed, damaged, rfl, Bool.false_ne_true, glyph, ?_⟩
  rcases parse_alikeWhereUsed alike behind with
    ⟨failure, failed, -⟩ | ⟨map, other, accepted, again, -, -, glyphs⟩
  · exact absurd (parsed.symm.trans failed) nofun
  · rw [← Except.ok.inj (parsed.symm.trans accepted),
      ← Except.ok.inj (damaged.symm.trans again)] at glyphs
    exact glyphs

end CharacterMap

end OutlineFont
