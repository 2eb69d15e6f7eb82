import OutlineFont.Proofs.SubtableSelection

/-!
# Looking characters up in groups

A group map is read back from the bytes of its groups, in whatever order and
however they overlap.  A character has the glyph that the first group holding it
counts up to, and a character map with groups looks nowhere else.
-/

namespace OutlineFont

namespace Group

def encode (group : Group) : List UInt8 :=
  bigEndianBytes 4 group.start.toNat ++ bigEndianBytes 4 group.stop.toNat ++
    bigEndianBytes 4 group.glyph.toNat

theorem length_encode (group : Group) : group.encode.length = 12 := by
  simp [encode, length_bigEndianBytes]

/-- The group whose first byte is at an offset. -/
def storedAt (data : Bytes) (offset : Nat) : Group where
  start := Bytes.word data offset
  stop := Bytes.word data (offset + 4)
  glyph := Bytes.word data (offset + 8)

/-- Groups stored one after the other. -/
def storedFrom (data : Bytes) (offset count : Nat) : List Group :=
  (List.range count).map fun index => storedAt data (offset + 12 * index)

theorem storedFrom_succ (data : Bytes) (offset count : Nat) :
    storedFrom data offset (count + 1) =
      storedAt data offset :: storedFrom data (offset + 12) count :=
  Bytes.map_range_succ (storedAt data) offset 12 count

theorem storedAt_encode (before : List UInt8) (group : Group) (after : List UInt8) :
    storedAt (before ++ group.encode ++ after).toArray before.length = group := by
  have start := Bytes.word_append before group.start
    (bigEndianBytes 4 group.stop.toNat ++ bigEndianBytes 4 group.glyph.toNat ++ after)
  have stop := Bytes.word_append (before ++ bigEndianBytes 4 group.start.toNat) group.stop
    (bigEndianBytes 4 group.glyph.toNat ++ after)
  have glyph := Bytes.word_append
    (before ++ bigEndianBytes 4 group.start.toNat ++ bigEndianBytes 4 group.stop.toNat)
    group.glyph after
  simp only [List.length_append, length_bigEndianBytes, List.append_assoc] at start stop glyph
  simp only [storedAt, encode, List.append_assoc, start, stop, glyph]

/-- Groups are found again in their bytes. -/
theorem storedFrom_encode (before : List UInt8) (groups : List Group) (after : List UInt8) :
    storedFrom (before ++ groups.flatMap encode ++ after).toArray before.length groups.length =
      groups := by
  induction groups generalizing before with
  | nil => rfl
  | cons group rest ih =>
      have first := storedAt_encode before group (rest.flatMap encode ++ after)
      have others := ih (before ++ group.encode)
      simp only [List.length_append, length_encode, List.append_assoc] at first others
      rw [List.length_cons, storedFrom_succ, List.flatMap_cons]
      simp only [List.append_assoc, first, others]

/-- Only the character's distance from the first one of the group is added, without a bound. -/
theorem glyphOf_eq (group : Group) (character : UInt32) :
    group.glyphOf character =
      if group.glyph.toNat + (character.toNat - group.start.toNat) ≤ 65535 then
        .ok (.ofNat (group.glyph.toNat + (character.toNat - group.start.toNat)))
      else
        .error (.malformedHeader .glyphAboveLimit) :=
  if_congr Nat.lt_succ_iff rfl rfl

theorem covers_iff {group : Group} {character : UInt32} :
    group.covers character = true ↔ group.start ≤ character ∧ character ≤ group.stop := by
  rw [covers, Bool.and_eq_true, decide_eq_true_eq, decide_eq_true_eq]

end Group

namespace GroupMap

/--
The bytes of a group map: its format, bytes that are not looked at, the number of
groups, and the groups.
-/
def encode (ignored : List UInt8) (groups : List Group) : List UInt8 :=
  bigEndianBytes 2 12 ++ ignored ++ bigEndianBytes 4 groups.length ++ groups.flatMap Group.encode

theorem groupAt_extract {table : Bytes} {count index : Nat} (room : 16 + 12 * count ≤ table.size)
    (below : index < count) :
    groupAt (table.extract 16 (16 + count * Group.size)) index =
      .ok (Group.storedAt table (16 + 12 * index)) := by
  have size : (table.extract 16 (16 + count * 12)).size = count * 12 := by
    rw [Array.size_extract]
    omega
  have field (offset : Nat) (inside : 12 * index + offset + 4 ≤ count * 12) :
      Bytes.u32At (table.extract 16 (16 + count * 12)) (12 * index + offset) =
        .ok (Bytes.word table (16 + 12 * index + offset)) := by
    rw [Bytes.u32At_eq_ok_iff_word, size, Bytes.word_extract (by omega), Nat.add_assoc 16]
    exact ⟨inside, rfl⟩
  have start := field 0 (by omega)
  have stop := field 4 (by omega)
  have glyph := field 8 (by omega)
  rw [Nat.add_zero, Nat.add_zero] at start
  unfold groupAt Group.size
  rw [start, stop, glyph]
  rfl

/-- A group map is read when its groups lie inside the table. -/
theorem parse_of_stored {table : Bytes} {count : Nat} (format : Bytes.stored table 0 2 = 12)
    (counted : (Bytes.word table 12).toNat = count) (room : 16 + 12 * count ≤ table.size) :
    parse table = .ok ⟨Group.storedFrom table 16 count⟩ := by
  have first : Bytes.u16At table 0 = .ok 12 :=
    Bytes.u16At_eq_ok_iff.mpr ⟨by omega, format.symm⟩
  have number : Bytes.u32At table 12 = .ok (Bytes.word table 12) :=
    Bytes.u32At_eq_ok_iff_word.mpr ⟨by omega, rfl⟩
  have sliced : Bytes.slice table 16 (count * Group.size) =
      .ok (table.extract 16 (16 + count * Group.size)) := by
    apply Bytes.slice_of_le
    unfold Group.size
    omega
  have groups : (List.range count).mapM (groupAt (table.extract 16 (16 + count * Group.size))) =
      .ok (Group.storedFrom table 16 count) :=
    exceptMapM_of_forall_mem fun index below => groupAt_extract room (List.mem_range.mp below)
  unfold parse
  rw [first, number]
  simp only [bind, Except.bind, counted]
  rw [sliced]
  simp only [groups]
  rfl

/-- Groups are read back from their bytes, whatever comes behind them. -/
theorem parse_encode {ignored : List UInt8} (size : ignored.length = 10) {groups : List Group}
    (countable : groups.length < 2 ^ 32) (trailing : List UInt8) :
    parse (encode ignored groups ++ trailing).toArray = .ok ⟨groups⟩ := by
  have front : (bigEndianBytes 2 12 ++ ignored ++ bigEndianBytes 4 groups.length).length = 16 := by
    simp [length_bigEndianBytes, size]
  have count : (UInt32.ofNat groups.length).toNat = groups.length :=
    UInt32.toNat_ofNat_of_lt' countable
  have format := Bytes.stored_append [] (bigEndianBytes 2 12)
    (ignored ++ bigEndianBytes 4 groups.length ++ groups.flatMap Group.encode ++ trailing)
  have counted := Bytes.word_append (bigEndianBytes 2 12 ++ ignored) (.ofNat groups.length)
    (groups.flatMap Group.encode ++ trailing)
  have stored := Group.storedFrom_encode
    (bigEndianBytes 2 12 ++ ignored ++ bigEndianBytes 4 groups.length) groups trailing
  rw [front] at stored
  rw [count, List.length_append, length_bigEndianBytes, size] at counted
  rw [length_bigEndianBytes, bigEndian_bigEndianBytes (by decide)] at format
  simp only [List.nil_append, List.length_nil, ← List.append_assoc] at format counted
  have room : 16 + 12 * groups.length ≤ (encode ignored groups ++ trailing).toArray.size := by
    have each : (groups.flatMap Group.encode).length = 12 * groups.length := by
      rw [List.length_flatMap, List.map_congr_left fun group _ => group.length_encode]
      simp [Nat.mul_comm]
    rw [List.size_toArray, List.length_append, encode, List.length_append, front, each]
    omega
  unfold encode at room ⊢
  rw [parse_of_stored format (by rw [counted, count]) room, stored]

variable {groups : List Group} {character : UInt32}

theorem glyph?_of_none
    (none : ∀ group ∈ groups, ¬(group.start ≤ character ∧ character ≤ group.stop)) :
    glyph? ⟨groups⟩ character = .ok .none := by
  have absent : groups.find? (·.covers character) = .none :=
    List.find?_eq_none.mpr fun group listed => Group.covers_iff.not.mpr (none group listed)
  simp only [glyph?, absent]

theorem glyph?_of_first {before after : List Group} {group : Group}
    (split : groups = before ++ group :: after)
    (none : ∀ earlier ∈ before, ¬(earlier.start ≤ character ∧ character ≤ earlier.stop))
    (covers : group.start ≤ character ∧ character ≤ group.stop) :
    glyph? ⟨groups⟩ character = (group.glyphOf character).map some := by
  have absent : before.find? (·.covers character) = .none :=
    List.find?_eq_none.mpr fun earlier listed => Group.covers_iff.not.mpr (none earlier listed)
  have first : groups.find? (·.covers character) = some group := by
    rw [split, List.find?_append, absent, Option.none_or]
    exact List.find?_cons_of_pos (Group.covers_iff.mpr covers)
  simp only [glyph?, first]

end GroupMap

namespace CharacterMap

/-- The group map of a table that is accepted is that of the record which decides. -/
theorem groups_of_first? {table : Bytes} {map : CharacterMap} (parsed : parse table = .ok map)
    {entry : StoredEncoding} (first : StoredEncoding.first? table 12 = some entry)
    {groups : GroupMap} (content : GroupMap.parse (entry.subtable table) = .ok groups) :
    map.groups = some groups := by
  obtain ⟨_, selection, serves, rfl⟩ := exists_serves_of_parse parsed
  have chosen := serves.groups.first?_eq
  rw [show GroupMap.format.toNat = 12 from rfl, first, Option.map_some, content] at chosen
  cases found : selection.groups with
  | none =>
      rw [found] at chosen
      cases chosen
  | some pair =>
      rw [found] at chosen
      cases chosen
      simp only [Selection.finish, found, Option.map_some]

/--
A group map that is stored in a table, with any bytes behind it, is read back as
it is.  A character that no group holds has no glyph; else the first group that
holds it counts its glyph, which must be a glyph number.  A character map that
uses the groups looks up nothing else: it takes glyph zero for none, and has no
variations.
-/
theorem glyph?_of_encoded_groups {ignored : List UInt8} (size : ignored.length = 10)
    {groups : List Group} (countable : groups.length < 2 ^ 32) (trailing : List UInt8) :
    let subtable : Bytes := (GroupMap.encode ignored groups ++ trailing).toArray
    GroupMap.parse subtable = .ok ⟨groups⟩ ∧
    (∀ character : UInt32,
      (∀ group ∈ groups, ¬(group.start ≤ character ∧ character ≤ group.stop)) →
        GroupMap.glyph? ⟨groups⟩ character = .ok none) ∧
    (∀ (character : UInt32) (before after : List Group) (group : Group),
      groups = before ++ group :: after →
      (∀ earlier ∈ before, ¬(earlier.start ≤ character ∧ character ≤ earlier.stop)) →
      group.start ≤ character ∧ character ≤ group.stop →
        let number := group.glyph.toNat + (character.toNat - group.start.toNat)
        GroupMap.glyph? ⟨groups⟩ character =
          if number ≤ 65535 then .ok (some (.ofNat number))
          else .error (.malformedHeader .glyphAboveLimit)) ∧
    (∀ (table : Bytes) (map : CharacterMap) (entry : StoredEncoding), parse table = .ok map →
      StoredEncoding.first? table 12 = some entry → entry.subtable table = subtable →
        map.groups = some ⟨groups⟩) ∧
    ∀ map : CharacterMap, map.groups = some ⟨groups⟩ → ∀ character selector : UInt32,
      map.glyph? character selector =
        if selector = 0 then
          (GroupMap.glyph? ⟨groups⟩ character).map fun glyph => glyph.filter (· != 0)
        else
          .error (.variationSelector selector) := by
  intro subtable
  have parsed : GroupMap.parse subtable = .ok ⟨groups⟩ :=
    GroupMap.parse_encode size countable trailing
  refine ⟨parsed, fun _ => GroupMap.glyph?_of_none, ?_, ?_, ?_⟩
  · intro character before after group split none covers number
    rw [GroupMap.glyph?_of_first split none covers, Group.glyphOf_eq]
    split_ifs <;> rfl
  · intro table map entry accepted first content
    exact groups_of_first? accepted first (content ▸ parsed)
  · intro map uses character selector
    simp only [glyph?, mapped?, uses]

/-- An inverted group, two that overlap, and one that counts beyond all glyph numbers. -/
def mixedGroups : List Group :=
  [⟨20, 10, 5⟩, ⟨10, 20, 65530⟩, ⟨15, 30, 7⟩, ⟨40, 0xffffffff, 0xffffffff⟩]

/-- A table whose only record points at mixed groups, with bytes behind them. -/
def mixedTable : Bytes :=
  #[0, 0, 0, 1, 0, 3, 0, 10, 0, 0, 0, 12] ++
    (GroupMap.encode (List.replicate 10 0) mixedGroups ++ [1, 2, 3]).toArray

/--
The first group counts nowhere.  The second one gives the last glyph number to
character 15 and none to character 16, though the third one holds it as well.
The sum of character 41 does not wrap around.
-/
theorem glyph?_of_encoded_groups_mixedGroups :
    GroupMap.glyph? ⟨mixedGroups⟩ 5 = .ok none ∧
    GroupMap.glyph? ⟨mixedGroups⟩ 15 = .ok (some 65535) ∧
    GroupMap.glyph? ⟨mixedGroups⟩ 16 = .error (.malformedHeader .glyphAboveLimit) ∧
    GroupMap.glyph? ⟨mixedGroups⟩ 41 = .error (.malformedHeader .glyphAboveLimit) ∧
    ∃ map, parse mixedTable = .ok map ∧ map.glyph? 15 0 = .ok (some 65535) ∧
      map.glyph? 15 1 = .error (.variationSelector 1) := by
  have size : (List.replicate 10 (0 : UInt8)).length = 10 := List.length_replicate
  have countable : mixedGroups.length < 2 ^ 32 := by decide
  obtain ⟨-, absent, found, uses, lookup⟩ := glyph?_of_encoded_groups size countable [1, 2, 3]
  have first : StoredEncoding.first? mixedTable 12 = some ⟨3, 10, 12⟩ := by decide +kernel
  have subtable : StoredEncoding.subtable mixedTable ⟨3, 10, 12⟩ =
      (GroupMap.encode (List.replicate 10 0) mixedGroups ++ [1, 2, 3]).toArray := by
    decide +kernel
  have parsed : parse mixedTable = .ok ⟨none, some ⟨mixedGroups⟩, false⟩ := by decide +kernel
  have last := found 15 [⟨20, 10, 5⟩] [⟨15, 30, 7⟩, ⟨40, 0xffffffff, 0xffffffff⟩]
    ⟨10, 20, 65530⟩ rfl (by decide) (by decide)
  have above := found 16 [⟨20, 10, 5⟩] [⟨15, 30, 7⟩, ⟨40, 0xffffffff, 0xffffffff⟩]
    ⟨10, 20, 65530⟩ rfl (by decide) (by decide)
  have unwrapped := found 41 [⟨20, 10, 5⟩, ⟨10, 20, 65530⟩, ⟨15, 30, 7⟩] []
    ⟨40, 0xffffffff, 0xffffffff⟩ rfl (by decide) (by decide)
  have groups := uses mixedTable _ _ parsed first subtable
  have mapped := lookup _ groups 15 0
  rw [last] at mapped
  exact ⟨absent 5 (by decide), last, above, unwrapped, _, parsed, mapped, lookup _ groups 15 1⟩

end CharacterMap

end OutlineFont
