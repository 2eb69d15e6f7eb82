import OutlineFont.Proofs.PointBounds
import OutlineFont.Proofs.StoredNumbers

/-!
# End points

The end points that are read ascend, and the flags behind them are as many as the
last one says, so that cutting the points into contours cannot fail.  A decoded
glyph is therefore made of contours with points, and its end points are those that
are stored, or in a composite glyph those of all its parts in a row.
-/

namespace OutlineFont

namespace SimpleGlyph

variable {id : UInt16} {cursor next : Cursor}

/-- End points are read as they are stored, and every one is above the one before it. -/
theorem of_readEndPoints {count : Nat} {seen endPoints : List Nat}
    (descending : seen.IsChain (· > ·))
    (done : readEndPoints id count seen cursor = .ok endPoints next) :
    endPoints.IsChain (· < ·) ∧
      endPoints = seen.reverse ++ (List.range count).map fun index =>
        Bytes.stored cursor.data (cursor.offset + 2 * index) 2 := by
  induction count generalizing seen cursor with
  | zero =>
      cases done
      exact ⟨List.isChain_reverse.mpr descending, (List.append_nil _).symm⟩
  | succ count ih =>
      rw [readEndPoints] at done
      obtain ⟨word, between, read, rest⟩ := bind_eq_ok_iff.mp done
      obtain ⟨_, same, rfl⟩ := Reader.u16_eq_ok_iff.mp read
      dsimp only at rest
      split at rest
      case isTrue => cases rest
      case isFalse ascends =>
        have above : ∀ before ∈ seen.head?, word.toNat > before := by
          intro before latest
          rw [Option.any_eq_true] at ascends
          exact Nat.not_le.mp fun reached => ascends ⟨before, latest, by simpa using reached⟩
        obtain ⟨chain, rfl⟩ := ih (List.isChain_cons.mpr ⟨above, descending⟩) rest
        refine ⟨chain, ?_⟩
        rw [Bytes.map_range_succ (Bytes.stored cursor.data · 2), List.reverse_cons, same,
          List.append_assoc]
        rfl

theorem length_readCoordinates {forms : List DeltaForm} {previous : Int16}
    {seen coordinates : List Int16}
    (done : readCoordinates forms previous seen cursor = .ok coordinates next) :
    coordinates.length = seen.length + forms.length := by
  induction forms generalizing previous seen cursor with
  | nil =>
      cases done
      exact List.length_reverse
  | cons form rest ih =>
      rw [readCoordinates] at done
      obtain ⟨difference, between, _, later⟩ := bind_eq_ok_iff.mp done
      have length := ih later
      rw [List.length_cons] at length ⊢
      omega

/-- The sizes of the pieces up to end points, negative where these do not ascend. -/
def pieceSizes : (first : Nat) → List Nat → List Int
  | _, [] => []
  | first, last :: rest => (((last + 1 : Nat) : Int) - (first : Int)) :: pieceSizes (last + 1) rest

theorem pieceSizes_pos {first : Nat} {endPoints : List Nat}
    (above : ∀ last ∈ endPoints.head?, first ≤ last) (ascending : endPoints.IsChain (· < ·)) :
    ∀ size ∈ pieceSizes first endPoints, 0 < size := by
  induction endPoints generalizing first with
  | nil => exact fun _ none => absurd none List.not_mem_nil
  | cons last rest ih =>
      obtain ⟨onward, ascending⟩ := List.isChain_cons.mp ascending
      have reached := above last rfl
      exact List.forall_mem_cons.mpr ⟨by omega, ih onward ascending⟩

/-- What is cut off has the size that the end points tell. -/
theorem sizes_of_split {first : Nat} {endPoints : List Nat} {points : List Point}
    {contours : List Contour} (above : ∀ last ∈ endPoints.head?, first ≤ last)
    (ascending : endPoints.IsChain (· < ·)) (cut : split id first endPoints points = .ok contours) :
    contours.map (fun contour => (contour.size : Int)) = pieceSizes first endPoints := by
  induction endPoints generalizing first points contours with
  | nil =>
      cases cut
      rfl
  | cons last rest ih =>
      obtain ⟨onward, later⟩ := List.isChain_cons.mp ascending
      have reached := above last rfl
      rw [split] at cut
      split at cut
      case isFalse => cases cut
      case isTrue taken =>
        cases remaining : split id (last + 1) rest (points.drop (last + 1 - first)) with
        | error failure =>
            rw [remaining] at cut
            cases cut
        | ok others =>
            rw [remaining] at cut
            cases cut
            have size : (((points.take (last + 1 - first)).length : Nat) : Int) =
                ((last + 1 : Nat) : Int) - (first : Int) := by omega
            rw [List.map_cons, pieceSizes, ih onward later remaining, Contour.size, size]

/-- Cutting enough points at ascending end points gives contours that end there. -/
theorem exists_split_eq (id : UInt16) {first : Nat} {endPoints : List Nat} {points : List Point}
    (above : ∀ last ∈ endPoints.head?, first ≤ last) (ascending : endPoints.IsChain (· < ·))
    (enough : ∀ last ∈ endPoints, last < first + points.length) :
    ∃ contours, split id first endPoints points = .ok contours ∧
      (∀ contour ∈ contours, contour.points ≠ []) ∧
      Glyph.runningCounts first contours = endPoints.map (· + 1) := by
  induction endPoints generalizing first points with
  | nil => exact ⟨[], rfl, List.forall_mem_nil _, rfl⟩
  | cons last rest ih =>
      obtain ⟨onward, later⟩ := List.isChain_cons.mp ascending
      have reached := above last rfl
      have fits := enough last List.mem_cons_self
      have taken : (points.take (last + 1 - first)).length = last + 1 - first := by
        rw [List.length_take]
        omega
      have remaining : ∀ other ∈ rest,
          other < last + 1 + (points.drop (last + 1 - first)).length := by
        intro other listed
        have inside := enough other (List.mem_cons_of_mem _ listed)
        rw [List.length_drop]
        omega
      obtain ⟨contours, cut, filled, counts⟩ := ih onward later remaining
      refine ⟨⟨points.take (last + 1 - first)⟩ :: contours, ?_, ?_, ?_⟩
      · rw [split]
        simp only [taken, if_true, cut]
        rfl
      · refine List.forall_mem_cons.mpr ⟨List.ne_nil_of_length_pos ?_, filled⟩
        rw [taken]
        omega
      · have size : first + (points.take (last + 1 - first)).length = last + 1 := by omega
        rw [Glyph.runningCounts, Contour.size, size, counts, List.map_cons]

/-- What was read before the points are cut is enough to cut them. -/
theorem exists_split_of_reads {count : Nat} {endPoints : List Nat} {flags : List PointFlag}
    {xs ys : List Int16} {start ended flagged between : Cursor}
    (ends : readEndPoints id count [] start = .ok endPoints ended)
    (flagging : readFlags id (endPoints.getLast?.elim 0 (· + 1))
      (endPoints.getLast?.elim 0 (· + 1)) [] flagged = .ok flags cursor)
    (across : readCoordinates (flags.map (·.formX)) 0 [] cursor = .ok xs between)
    (upward : readCoordinates (flags.map (·.formY)) 0 [] between = .ok ys next) :
    ∃ contours, split id 0 endPoints (points flags xs ys) = .ok contours ∧
      (∀ contour ∈ contours, contour.points ≠ []) ∧
      Glyph.runningCounts 0 contours = endPoints.map (· + 1) := by
  obtain ⟨ascending, _⟩ := of_readEndPoints .nil ends
  have all := length_readFlags (Nat.le_refl _) flagging
  have horizontal := length_readCoordinates across
  have vertical := length_readCoordinates upward
  have length : (points flags xs ys).length = endPoints.getLast?.elim 0 (· + 1) := by
    simp only [List.length_nil, List.length_map, Nat.zero_add] at all horizontal vertical
    rw [points, List.length_zipWith, List.length_zip, horizontal, vertical, all, Nat.min_self,
      Nat.min_self]
  refine exists_split_eq id (fun _ _ => Nat.zero_le _) ascending ?_
  intro last listed
  rw [length, Nat.zero_add]
  cases final : endPoints.getLast? with
  | none =>
      rw [List.getLast?_eq_none_iff] at final
      rw [final] at listed
      cases listed
  | some greatest =>
      obtain ⟨front, rfl⟩ := List.getLast?_eq_some_iff.mp final
      rcases List.mem_append.mp listed with before | same
      · have below := (List.pairwise_append.mp ascending.pairwise).2.2 last before greatest
          (List.mem_singleton_self _)
        exact Nat.lt_succ_of_lt below
      · rw [List.mem_singleton.mp same]
        exact Nat.lt_succ_self _

end SimpleGlyph

/-- A glyph without empty contours. -/
def Glyph.Filled (glyph : Glyph) : Prop :=
  ∀ contour ∈ glyph.contours, contour.points ≠ []

namespace SimpleGlyph

variable {id : UInt16} {count : Nat} {metrics : Metrics} {glyph : Glyph} {cursor next : Cursor}

/-- A simple glyph has the end points that are stored behind its header. -/
theorem endPoints_of_read (done : SimpleGlyph.read id count metrics cursor = .ok glyph next) :
    glyph.Filled ∧ glyph.endPoints = (List.range count).map fun index =>
      Bytes.stored cursor.data (cursor.offset + 2 * index) 2 := by
  unfold SimpleGlyph.read at done
  split at done
  case isTrue empty =>
    cases done
    rw [empty]
    exact ⟨List.forall_mem_nil _, rfl⟩
  case isFalse =>
    obtain ⟨endPoints, _, ends, rest⟩ := bind_eq_ok_iff.mp done
    obtain ⟨instructions, _, _, rest⟩ := bind_eq_ok_iff.mp rest
    obtain ⟨flags, _, flagging, rest⟩ := bind_eq_ok_iff.mp rest
    obtain ⟨xs, _, across, rest⟩ := bind_eq_ok_iff.mp rest
    obtain ⟨ys, _, upward, rest⟩ := bind_eq_ok_iff.mp rest
    obtain ⟨contours, _, accepted, returned⟩ := bind_eq_ok_iff.mp rest
    cases returned
    obtain ⟨cut, _⟩ := Reader.accept_eq_ok_iff.mp accepted
    obtain ⟨others, same, filled, counts⟩ := exists_split_of_reads ends flagging across upward
    cases cut.symm.trans same
    refine ⟨filled, ?_⟩
    rw [Glyph.endPoints_of_filled filled, counts, List.map_map]
    exact (List.map_id _).trans (of_readEndPoints .nil ends).2

end SimpleGlyph

/-- A header begins with the number of contours, and ends after ten bytes. -/
theorem RecordHeader.of_read {data : Bytes} {header : RecordHeader} {cursor : Cursor}
    {count : Int16} (done : RecordHeader.read ⟨data, 0⟩ = .ok header cursor)
    (counted : Bytes.i16At data 0 = .ok count) :
    header.contourCount = count ∧ cursor = ⟨data, 10⟩ := by
  unfold RecordHeader.read Metrics.read Reader.i16 at done
  simp only [bind_eq_ok_iff, map_eq_ok_iff, Reader.number_eq_ok_iff, pure_eq_ok_iff] at done
  obtain ⟨_, _, ⟨number, ⟨inside, same, rfl⟩, rfl⟩, metrics, _, ⟨_, _, ⟨_, ⟨_, _, rfl⟩, rfl⟩, _, _,
    ⟨_, ⟨_, _, rfl⟩, rfl⟩, _, _, ⟨_, ⟨_, _, rfl⟩, rfl⟩, _, _, ⟨_, ⟨_, _, rfl⟩, rfl⟩, rfl, rfl⟩,
    rfl, rfl⟩ := done
  rw [Bytes.i16At, Bytes.number_eq_ok_iff.mpr ⟨inside, same⟩] at counted
  cases counted
  exact ⟨rfl, rfl⟩

/-! ### Glyphs without empty contours -/

theorem Component.filled_placeAll (component : Component) {glyph : Glyph} (filled : glyph.Filled) :
    ∀ contour ∈ component.placeAll glyph, contour.points ≠ [] := by
  intro contour listed
  obtain ⟨whole, among, rfl⟩ := List.mem_map.mp listed
  exact fun empty => filled whole among (List.map_eq_nil_iff.mp empty)

theorem Gathers.filled {resolves : UInt16 → Glyph → List Reference → Prop} {composite : UInt16}
    {points : Nat} {components : List Component} {contours : List Contour} {met : List Reference}
    (parts : ∀ id glyph below, resolves id glyph below → glyph.Filled)
    (gathers : Gathers resolves composite points components contours met) :
    ∀ contour ∈ contours, contour.points ≠ [] := by
  induction gathers with
  | nil => exact List.forall_mem_nil _
  | @cons _ component _ _ _ _ _ resolved _ _ ih =>
      exact List.forall_mem_append.mpr
        ⟨component.filled_placeAll (parts _ _ _ resolved), ih⟩

namespace GlyphTable

variable {table : GlyphTable} {id : UInt16} {glyph : Glyph} {met : List Reference}

theorem ResolvesWith.filled {resolves : UInt16 → Glyph → List Reference → Prop}
    (parts : ∀ id glyph below, resolves id glyph below → glyph.Filled)
    (answers : table.ResolvesWith resolves id glyph met) : glyph.Filled := by
  cases answers with
  | blank => exact List.forall_mem_nil _
  | simple _ _ _ content => exact (SimpleGlyph.endPoints_of_read content).1
  | composite record _ gathers => exact gathers.filled parts

/-- A simple record is taken for what it is, and no other. -/
theorem ResolvesWith.endPoints_of_simple {resolves : UInt16 → Glyph → List Reference → Prop}
    (answers : table.ResolvesWith resolves id glyph met) {data : Bytes} {count : Int16}
    (found : table.record? id = .ok (some data)) (counted : Bytes.i16At data 0 = .ok count)
    (simple : 0 ≤ count) :
    glyph.endPoints = (List.range count.toInt.toNat).map fun index =>
      Bytes.stored data (10 + 2 * index) 2 := by
  cases answers with
  | blank absent =>
      rw [found] at absent
      cases absent
  | simple foundToo start _ content =>
      cases found.symm.trans foundToo
      obtain ⟨rfl, rfl⟩ := RecordHeader.of_read start counted
      exact (SimpleGlyph.endPoints_of_read content).2
  | composite record stores _ =>
      obtain ⟨rest, foundToo, start⟩ := Stores.header_eq stores
      cases found.symm.trans foundToo
      obtain ⟨rfl, _⟩ := RecordHeader.of_read start counted
      exact absurd record.composite (Int16.not_lt.mpr simple)

theorem Resolves.endPoints_of_simple {depth : Nat} (answers : table.Resolves depth id glyph met)
    {data : Bytes} {count : Int16} (found : table.record? id = .ok (some data))
    (counted : Bytes.i16At data 0 = .ok count) (simple : 0 ≤ count) :
    glyph.endPoints = (List.range count.toInt.toNat).map fun index =>
      Bytes.stored data (10 + 2 * index) 2 := by
  cases depth with
  | zero => exact ResolvesWith.endPoints_of_simple answers found counted simple
  | succ depth => exact ResolvesWith.endPoints_of_simple answers found counted simple

theorem Resolves.filled {depth : Nat} (answers : table.Resolves depth id glyph met) :
    glyph.Filled := by
  induction depth generalizing id glyph met with
  | zero => exact ResolvesWith.filled (fun _ _ _ impossible => impossible.elim) answers
  | succ depth ih => exact ResolvesWith.filled (fun _ _ _ => ih) answers

end GlyphTable

namespace Glyph

variable {glyph : Glyph}

theorem Filled.pairwise_endPoints (filled : glyph.Filled) : glyph.endPoints.Pairwise (· < ·) := by
  have ascending : (runningCounts 0 glyph.contours).Pairwise (· < ·) :=
    pairwise_runningCounts filled
  rw [endPoints_of_filled filled, List.pairwise_map]
  refine ascending.imp_of_mem ?_
  intro lower upper listed _ below
  have positive := runningCounts_gt filled lower listed
  omega

theorem Filled.length_endPoints (filled : glyph.Filled) :
    glyph.endPoints.length = glyph.contours.length := by
  rw [endPoints_of_filled filled, List.length_map, length_runningCounts]

/-- The last end point is the last point. -/
theorem Filled.getLast?_endPoints (filled : glyph.Filled) (some : glyph.contours ≠ []) :
    ∃ last, glyph.endPoints.getLast? = .some last ∧ last + 1 = glyph.pointCount := by
  have final := getLast?_runningCounts 0 some
  have positive := runningCounts_gt filled _ (List.mem_of_getLast? final)
  rw [Nat.zero_add] at final positive
  refine ⟨glyph.pointCount - 1, ?_, Nat.sub_add_cancel positive⟩
  rw [endPoints_of_filled filled, List.getLast?_map, final]
  rfl

end Glyph

/-! ### Failures of records -/

/-- Whether a failure lies in a glyph record or its place, but not in points that are missing. -/
def FontError.concernsRecord : FontError → Bool
  | .truncated _ | .outOfRange .glyph _ _ | .pointMatching _ => true
  | .malformedGlyph _ fault => fault != .pointsMissing
  | _ => false

/-- Work that fails only because of a record, and never because points are missing. -/
abbrev ReadsRecord {State α : Type} (work : EStateM FontError State α) : Prop :=
  FailsWith (fun failure => failure.concernsRecord = true) work

namespace SimpleGlyph

theorem readsRecord_readEndPoints (id : UInt16) (count : Nat) (seen : List Nat) :
    ReadsRecord (readEndPoints id count seen) := by
  induction count generalizing seen with
  | zero => exact .pure _
  | succ count ih =>
      rw [readEndPoints]
      exact (Reader.failsWith_u16 fun _ => rfl).bind fun _ => .guard rfl (ih _)

theorem readsRecord_readInstructions : ReadsRecord readInstructions :=
  (Reader.failsWith_u16 fun _ => rfl).bind fun _ => Reader.failsWith_bytes (fun _ => rfl) _

theorem readsRecord_readFlags (id : UInt16) (rounds missing : Nat) (seen : List PointFlag) :
    ReadsRecord (readFlags id rounds missing seen) := by
  induction rounds generalizing missing seen with
  | zero => exact .pure _
  | succ rounds ih =>
      cases missing with
      | zero => exact .pure _
      | succ missing =>
          rw [readFlags]
          refine (Reader.failsWith_u8 fun _ => rfl).bind fun flag => ?_
          dsimp only
          split
          · exact (Reader.failsWith_u8 fun _ => rfl).bind fun _ => .guard rfl (ih _ _)
          · exact ih _ _

theorem DeltaForm.readsRecord_read (form : DeltaForm) : ReadsRecord form.read := by
  cases form with
  | word => exact Reader.failsWith_i16 fun _ => rfl
  | zero => exact .pure _
  | negativeByte => exact (Reader.failsWith_u8 fun _ => rfl).map _
  | positiveByte => exact (Reader.failsWith_u8 fun _ => rfl).map _

theorem readsRecord_readCoordinates (forms : List DeltaForm) (previous : Int16)
    (seen : List Int16) :
    ReadsRecord (readCoordinates forms previous seen) := by
  induction forms generalizing previous seen with
  | nil => exact .pure _
  | cons form rest ih =>
      rw [readCoordinates]
      exact (DeltaForm.readsRecord_read form).bind fun _ => ih _ _

/-- Points are never missing where contours are cut, since the flags are as many as they must be. -/
theorem readsRecord_read (id : UInt16) (count : Nat) (metrics : Metrics) :
    ReadsRecord (SimpleGlyph.read id count metrics) := by
  intro cursor failure next failed
  unfold SimpleGlyph.read at failed
  split at failed
  case isTrue => cases failed
  case isFalse =>
    rcases bind_eq_error_iff.mp failed with failed | ⟨endPoints, _, ends, failed⟩
    · exact readsRecord_readEndPoints _ _ _ _ _ _ failed
    rcases bind_eq_error_iff.mp failed with failed | ⟨instructions, _, _, failed⟩
    · exact readsRecord_readInstructions _ _ _ failed
    rcases bind_eq_error_iff.mp failed with failed | ⟨flags, _, flagging, failed⟩
    · exact readsRecord_readFlags _ _ _ _ _ _ _ failed
    rcases bind_eq_error_iff.mp failed with failed | ⟨xs, _, across, failed⟩
    · exact readsRecord_readCoordinates _ _ _ _ _ _ failed
    rcases bind_eq_error_iff.mp failed with failed | ⟨ys, _, upward, failed⟩
    · exact readsRecord_readCoordinates _ _ _ _ _ _ failed
    obtain ⟨contours, cut, _⟩ := exists_split_of_reads ends flagging across upward
    rw [cut] at failed
    cases failed

end SimpleGlyph

namespace Component

theorem readsRecord_readOffset (flags : ComponentFlags) : ReadsRecord (readOffset flags) := by
  unfold readOffset
  split
  · exact (Reader.failsWith_i16 fun _ => rfl).bind fun _ =>
      (Reader.failsWith_i16 fun _ => rfl).bind fun _ => .pure _
  · exact (Reader.failsWith_i8 fun _ => rfl).bind fun _ =>
      (Reader.failsWith_i8 fun _ => rfl).bind fun _ => .pure _

theorem readsRecord_readMatrix (flags : ComponentFlags) : ReadsRecord (readMatrix flags) := by
  have number : ReadsRecord Reader.i16 := Reader.failsWith_i16 fun _ => rfl
  unfold readMatrix
  split
  · exact number.bind fun _ => .pure _
  split
  · exact number.bind fun _ => number.bind fun _ => .pure _
  split
  · exact number.bind fun _ => number.bind fun _ => number.bind fun _ => number.bind fun _ =>
      .pure _
  · exact .pure _

theorem readsRecord_read (composite : UInt16) : ReadsRecord (Component.read composite) :=
  (Reader.failsWith_u16 fun _ => rfl).bind fun _ => (Reader.failsWith_u16 fun _ => rfl).bind
    fun _ => .guard rfl <| (readsRecord_readOffset _).bind fun _ =>
      (readsRecord_readMatrix _).bind fun _ => .pure _

end Component

namespace Resolver

variable {α : Type}

theorem readsRecord_accept {result : Except FontError α}
    (expected : ∀ failure, result = .error failure → failure.concernsRecord = true) :
    ReadsRecord (accept result) := by
  intro trail failure after failed
  unfold accept at failed
  cases result with
  | ok value => cases failed
  | error first =>
      cases failed
      exact expected failure rfl

theorem readsRecord_readFrom {reader : Reader α} (reads : ReadsRecord reader) (cursor : Cursor) :
    ReadsRecord (readFrom cursor reader) := by
  intro trail failure after failed
  unfold readFrom at failed
  cases outcome : reader cursor with
  | ok value next =>
      rw [outcome] at failed
      cases failed
  | error first next =>
      rw [outcome] at failed
      cases failed
      exact reads _ _ _ outcome

theorem readsRecord_startComponent (composite : UInt16) :
    ReadsRecord (startComponent composite) := by
  intro trail failure after failed
  rw [startComponent_eq] at failed
  split at failed
  · cases failed
  · cases failed
    rfl

end Resolver

namespace GlyphTable

theorem record?_error {table : GlyphTable} {id : UInt16} {failure : FontError}
    (failed : table.record? id = .error failure) : failure.concernsRecord = true := by
  have location {position : Nat} {failure : FontError}
      (failed : table.locations.location position = .error failure) :
      failure.concernsRecord = true := by
    unfold GlyphLocations.location at failed
    split at failed
    · exact Bytes.u16At_error (exceptMap_eq_error_iff.mp failed) ▸ rfl
    · exact Bytes.u32At_error (exceptMap_eq_error_iff.mp failed) ▸ rfl
  unfold record? at failed
  rcases exceptBind_eq_error_iff.mp failed with located | ⟨range, _, failed⟩
  · unfold GlyphLocations.range at located
    split at located
    · cases located
      rfl
    · rcases exceptBind_eq_error_iff.mp located with start | ⟨start, _, located⟩
      · exact location start
      · rcases exceptBind_eq_error_iff.mp located with stop | ⟨stop, _, located⟩
        · exact location stop
        · split at located
          · cases located
            rfl
          · cases located
  · split at failed
    · cases failed
    · split at failed
      · cases failed
      · cases failed
        rfl

variable {resolve : UInt16 → Resolver Glyph}

theorem readsRecord_resolveComponents (parts : ∀ id, ReadsRecord (resolve id)) (composite : UInt16)
    (rounds : Nat) (cursor : Cursor) (points : Nat) (seen : List Contour) :
    ReadsRecord (resolveComponents resolve composite rounds cursor points seen) := by
  induction rounds generalizing cursor points seen with
  | zero =>
      rw [resolveComponents]
      intro trail failure after failed
      cases failed
      rfl
  | succ rounds ih =>
      rw [resolveComponents]
      refine (Resolver.readsRecord_startComponent composite).bind fun _ => ?_
      refine (Resolver.readsRecord_readFrom (Component.readsRecord_read composite) cursor).bind ?_
      rintro ⟨component, next⟩
      refine (FailsWith.modify _).bind fun _ => (parts component.glyph).bind fun glyph => ?_
      refine .guard rfl ?_
      split
      · exact .pure _
      · exact ih _ _ _

theorem readsRecord_resolveComposite (parts : ∀ id, ReadsRecord (resolve id)) (composite : UInt16)
    (metrics : Metrics) (cursor : Cursor) :
    ReadsRecord (resolveComposite resolve composite metrics cursor) := by
  refine (readsRecord_resolveComponents parts composite _ _ _ _).bind ?_
  rintro ⟨flags, next, contours⟩
  dsimp only
  split
  · exact (Resolver.readsRecord_readFrom SimpleGlyph.readsRecord_readInstructions next).bind
      fun _ => .pure _
  · exact .pure _

theorem readsRecord_recordHeader : ReadsRecord RecordHeader.read := by
  have number : ReadsRecord Reader.i16 := Reader.failsWith_i16 fun _ => rfl
  exact number.bind fun _ =>
    (number.bind fun _ => number.bind fun _ => number.bind fun _ => number.bind fun _ =>
      .pure _).bind fun _ => .pure _

theorem readsRecord_resolveWith (table : GlyphTable) {resolve? : Option (UInt16 → Resolver Glyph)}
    (parts : ∀ resolve, resolve? = some resolve → ∀ id, ReadsRecord (resolve id)) (id : UInt16) :
    ReadsRecord (table.resolveWith resolve? id) := by
  refine (Resolver.readsRecord_accept fun _ => record?_error).bind fun data? => ?_
  cases data? with
  | none => exact .pure _
  | some data =>
      refine (Resolver.readsRecord_readFrom readsRecord_recordHeader _).bind ?_
      rintro ⟨header, cursor⟩
      dsimp only
      split
      · exact (Resolver.readsRecord_readFrom (SimpleGlyph.readsRecord_read _ _ _) cursor).bind
          fun _ => .pure _
      · cases resolve? with
        | none =>
            intro trail failure after failed
            cases failed
            rfl
        | some resolve => exact readsRecord_resolveComposite (parts resolve rfl) id _ _

theorem readsRecord_resolve (table : GlyphTable) (depth : Nat) (id : UInt16) :
    ReadsRecord (table.resolve depth id) := by
  induction depth generalizing id with
  | zero =>
      refine table.readsRecord_resolveWith ?_ id
      intro resolve impossible
      cases impossible
  | succ depth ih =>
      refine table.readsRecord_resolveWith ?_ id
      rintro resolve ⟨⟩
      exact ih

theorem decode_error {table : GlyphTable} {id : UInt16} {failure : FontError}
    (failed : table.decode id = .error failure) : failure.concernsRecord = true := by
  unfold decode decodeTracing at failed
  cases outcome : table.resolve nestingLimit id .empty with
  | ok glyph after =>
      rw [outcome] at failed
      cases failed
  | error first after =>
      rw [outcome] at failed
      cases failed
      exact table.readsRecord_resolve nestingLimit id _ _ _ outcome

/--
A decoded glyph has no empty contour, and not more points than can be numbered.
It has an end point for every contour; these ascend, and the last one is the last
point.  Those of a simple glyph are stored behind the header of its record.  No
glyph fails to be decoded because points are missing.  And where end points have
been read, the sizes of the pieces up to them are positive, and so they are the
sizes of the contours that are cut.
-/
theorem decode_wellFormed (table : GlyphTable) (id : UInt16) :
    (∀ glyph, table.decode id = .ok glyph →
      (∀ contour ∈ glyph.contours, contour.points ≠ []) ∧
      glyph.pointCount ≤ 65536 ∧
      glyph.endPoints.length = glyph.contours.length ∧
      glyph.endPoints.Pairwise (· < ·) ∧
      (glyph.contours ≠ [] →
        ∃ last, glyph.endPoints.getLast? = some last ∧ last + 1 = glyph.pointCount) ∧
      ∀ (data : Bytes) (count : Int16), table.record? id = .ok (some data) →
        Bytes.i16At data 0 = .ok count → 0 ≤ count →
        glyph.endPoints = (List.range count.toInt.toNat).map fun index =>
          Bytes.stored data (10 + 2 * index) 2) ∧
    (∀ composite, table.decode id ≠ .error (.malformedGlyph composite .pointsMissing)) ∧
    ∀ (count : Nat) (endPoints : List Nat) (cursor next : Cursor),
      SimpleGlyph.readEndPoints id count [] cursor = .ok endPoints next →
        (∀ size ∈ SimpleGlyph.pieceSizes 0 endPoints, 0 < size) ∧
        ∀ points contours, SimpleGlyph.split id 0 endPoints points = .ok contours →
          contours.map (fun contour => (contour.size : Int)) =
            SimpleGlyph.pieceSizes 0 endPoints := by
  refine ⟨?_, ?_, ?_⟩
  · intro glyph decoded
    obtain ⟨met, answers, _⟩ := decode_eq_ok_iff.mp decoded
    have filled := answers.filled
    refine ⟨filled, answers.pointCount_le, filled.length_endPoints, filled.pairwise_endPoints,
      filled.getLast?_endPoints, ?_⟩
    intro data count found counted simple
    exact answers.endPoints_of_simple found counted simple
  · intro composite failed
    cases decode_error failed
  · intro count endPoints cursor next done
    have ascending := (SimpleGlyph.of_readEndPoints .nil done).1
    have above : ∀ last ∈ endPoints.head?, 0 ≤ last := fun _ _ => Nat.zero_le _
    exact ⟨SimpleGlyph.pieceSizes_pos above ascending,
      fun _ _ => SimpleGlyph.sizes_of_split above ascending⟩

/-- A simple glyph of two contours, and a composite glyph that holds it twice. -/
def pairedTable : GlyphTable where
  data := #[0, 2, 0, 0, 0, 0, 0, 0, 0, 0, 0, 0, 0, 2, 0, 0, 0x37, 0x37, 0x37, 1, 2, 3, 1, 2, 3,
    255, 255, 0, 0, 0, 0, 0, 0, 0, 0, 0, 0x22, 0, 0, 1, 1, 0, 2, 0, 0, 255, 255]
  locations := ⟨#[0, 0, 0, 0, 0, 0, 0, 25, 0, 0, 0, 47], .long, 2⟩

/-- The simple glyph has the stored end points, and those of the composite glyph go on from them. -/
theorem decode_wellFormed_pairedTable :
    ∃ part whole, pairedTable.decode 0 = .ok part ∧ part.endPoints = [0, 2] ∧
      pairedTable.decode 1 = .ok whole ∧ whole.contours.length = 4 ∧
      (∀ contour ∈ whole.contours, contour.points ≠ []) ∧ whole.endPoints.length = 4 ∧
      whole.endPoints.Pairwise (· < ·) ∧
      (∀ size ∈ SimpleGlyph.pieceSizes 0 [0, 2], 0 < size) := by
  have simple : ((pairedTable.decode 0).map fun glyph => glyph.contours.length) = .ok 2 := by
    decide +kernel
  have composite : ((pairedTable.decode 1).map fun glyph => glyph.contours.length) = .ok 4 := by
    decide +kernel
  obtain ⟨part, decoded, -⟩ := exceptMap_eq_ok_iff.mp simple
  obtain ⟨whole, resolved, four⟩ := exceptMap_eq_ok_iff.mp composite
  obtain ⟨-, -, -, -, -, stored⟩ := (decode_wellFormed pairedTable 0).1 part decoded
  obtain ⟨filled, -, length, ascending, -, -⟩ := (decode_wellFormed pairedTable 1).1 whole resolved
  have found : pairedTable.record? 0 = .ok (some (pairedTable.data.extract 0 25)) := by
    decide +kernel
  have read : SimpleGlyph.readEndPoints 0 2 [] ⟨pairedTable.data, 10⟩ =
      .ok [0, 2] ⟨pairedTable.data, 14⟩ := rfl
  have sizes := (decode_wellFormed pairedTable 0).2.2 2 [0, 2] _ _ read
  have same := stored _ 2 found (by decide +kernel) (by decide)
  refine ⟨part, whole, decoded, same.trans (by decide +kernel), resolved, four, filled,
    length.trans four, ascending, sizes.1⟩

end GlyphTable

end OutlineFont
