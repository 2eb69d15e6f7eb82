import OutlineFont.Proofs.SimpleEncoding

/-!
# Encodings of composite glyphs

A composite record names its components one behind the other, each with the
numbers that its flags ask for, and the last one says that it is.  A component
is read exactly from its encoding, so that a record says in one way only what
the glyph is made of.
-/

namespace OutlineFont

open Reader (Takes Yields)

theorem Int16.toInt16_toInt8 {value : Int16} (least : -128 ≤ value.toInt)
    (greatest : value.toInt ≤ 127) : value.toInt8.toInt16 = value := by
  apply Int16.toInt_inj.mp
  rw [Int8.toInt_toInt16, Int16.toInt_toInt8]
  exact Int.bmod_eq_of_le (by omega) (by omega)

namespace Component

/-- The bytes of flags and of a reference to a glyph, which every component starts with. -/
def encodeReference (flags : ComponentFlags) (glyph : UInt16) : List UInt8 :=
  bigEndianBytes 2 flags.word.toNat ++ bigEndianBytes 2 glyph.toNat

def encodeOffset (flags : ComponentFlags) (dx dy : Int16) : List UInt8 :=
  if flags.wordArguments then
    bigEndianBytes 2 dx.toUInt16.toNat ++ bigEndianBytes 2 dy.toUInt16.toNat
  else
    [dx.toInt8.toUInt8] ++ [dy.toInt8.toUInt8]

/-- The bytes of a transformation, of which the flags say which numbers are stored. -/
def encodeMatrix (flags : ComponentFlags) (matrix : Matrix) : List UInt8 :=
  if flags.hasScale then
    bigEndianBytes 2 matrix.xx.toUInt16.toNat
  else if flags.hasAxisScales then
    bigEndianBytes 2 matrix.xx.toUInt16.toNat ++ bigEndianBytes 2 matrix.yy.toUInt16.toNat
  else
    bigEndianBytes 2 matrix.xx.toUInt16.toNat ++
      (bigEndianBytes 2 matrix.xy.toUInt16.toNat ++
      (bigEndianBytes 2 matrix.yx.toUInt16.toNat ++
      bigEndianBytes 2 matrix.yy.toUInt16.toNat))

def encode (component : Component) : List UInt8 :=
  encodeReference component.flags component.glyph ++
    (encodeOffset component.flags component.dx component.dy ++
    component.matrix.elim [] (encodeMatrix component.flags))

/-- The transformations that can be stored under given flags. -/
def Admits (flags : ComponentFlags) : Option Matrix → Prop
  | none => flags.hasScale = false ∧ flags.hasAxisScales = false ∧ flags.hasMatrix = false
  | some matrix =>
      if flags.hasScale then
        matrix.xy = 0 ∧ matrix.yx = 0 ∧ matrix.xx = matrix.yy
      else if flags.hasAxisScales then
        matrix.xy = 0 ∧ matrix.yx = 0
      else
        flags.hasMatrix = true

instance (flags : ComponentFlags) : (matrix : Option Matrix) → Decidable (Admits flags matrix)
  | none => inferInstanceAs (Decidable (_ ∧ _))
  | some matrix => inferInstanceAs (Decidable
      (if flags.hasScale then matrix.xy = 0 ∧ matrix.yx = 0 ∧ matrix.xx = matrix.yy
      else if flags.hasAxisScales then matrix.xy = 0 ∧ matrix.yx = 0
      else flags.hasMatrix = true))

/-- A component that can be stored under its flags. -/
structure Fits (component : Component) : Prop where
  offset : component.flags.wordArguments = true ∨
    (-128 ≤ component.dx.toInt ∧ component.dx.toInt ≤ 127) ∧
      -128 ≤ component.dy.toInt ∧ component.dy.toInt ≤ 127
  matrix : Admits component.flags component.matrix

instance (component : Component) : Decidable component.Fits :=
  decidable_of_iff (_ ∧ Admits component.flags component.matrix)
    ⟨fun ⟨offset, matrix⟩ => ⟨offset, matrix⟩, fun ⟨offset, matrix⟩ => ⟨offset, matrix⟩⟩

theorem Fits.takes_readOffset {component : Component} (fits : component.Fits) :
    Takes (readOffset component.flags)
      (encodeOffset component.flags component.dx component.dy) (component.dx, component.dy) := by
  unfold readOffset encodeOffset
  cases words : component.flags.wordArguments with
  | true =>
      exact (Takes.i16 component.dx).bind ((Takes.i16 component.dy).bind_pure rfl)
  | false =>
      have bytes := fits.offset
      rw [words] at bytes
      obtain ⟨⟨leastX, greatestX⟩, leastY, greatestY⟩ := bytes.resolve_left Bool.false_ne_true
      refine (Takes.i8 component.dx.toInt8).bind ((Takes.i8 component.dy.toInt8).bind_pure ?_)
      rw [Int16.toInt16_toInt8 leastX greatestX, Int16.toInt16_toInt8 leastY greatestY]

theorem yields_readOffset (flags : ComponentFlags) :
    Yields (readOffset flags) fun offset bytes =>
      bytes = encodeOffset flags offset.1 offset.2 ∧
        (flags.wordArguments = true ∨ (-128 ≤ offset.1.toInt ∧ offset.1.toInt ≤ 127) ∧
          -128 ≤ offset.2.toInt ∧ offset.2.toInt ≤ 127) := by
  unfold readOffset encodeOffset
  split
  case isTrue words =>
    refine Yields.i16.bind ?_
    rintro dx _ rfl
    refine Yields.i16.bind ?_
    rintro dy _ rfl
    refine .pure ⟨?_, .inl words⟩
    rw [List.append_nil]
  case isFalse =>
    refine Yields.i8.bind ?_
    rintro dx _ rfl
    refine Yields.i8.bind ?_
    rintro dy _ rfl
    refine .pure ⟨?_, .inr ?_⟩
    · rw [List.append_nil, Int8.toInt8_toInt16, Int8.toInt8_toInt16]
    · rw [Int8.toInt_toInt16, Int8.toInt_toInt16]
      exact ⟨⟨dx.le_toInt, dx.toInt_le⟩, dy.le_toInt, dy.toInt_le⟩

theorem takes_readMatrix {flags : ComponentFlags} {matrix : Option Matrix}
    (admits : Admits flags matrix) :
    Takes (readMatrix flags) (matrix.elim [] (encodeMatrix flags)) matrix := by
  unfold readMatrix
  cases matrix with
  | none =>
      obtain ⟨noScale, noAxisScales, noMatrix⟩ := admits
      rw [if_neg (by simp [noScale]), if_neg (by simp [noAxisScales]), if_neg (by simp [noMatrix])]
      exact .pure none
  | some matrix =>
      obtain ⟨xx, xy, yx, yy⟩ := matrix
      rw [Admits] at admits
      dsimp only at admits
      rw [Option.elim_some]
      unfold encodeMatrix
      split
      case isTrue scale =>
        rw [if_pos scale] at admits
        obtain ⟨rfl, rfl, rfl⟩ := admits
        exact (Takes.i16 xx).bind_pure rfl
      case isFalse noScale =>
        rw [if_neg noScale] at admits
        split
        case isTrue axisScales =>
          rw [if_pos axisScales] at admits
          obtain ⟨rfl, rfl⟩ := admits
          exact (Takes.i16 xx).bind ((Takes.i16 yy).bind_pure rfl)
        case isFalse noAxisScales =>
          rw [if_neg noAxisScales] at admits
          rw [if_pos admits]
          exact (Takes.i16 xx).bind ((Takes.i16 xy).bind
            ((Takes.i16 yx).bind ((Takes.i16 yy).bind_pure rfl)))

theorem yields_readMatrix (flags : ComponentFlags) :
    Yields (readMatrix flags) fun matrix bytes =>
      bytes = matrix.elim [] (encodeMatrix flags) ∧ Admits flags matrix := by
  unfold readMatrix
  split
  case isTrue scale =>
    refine Yields.i16.bind ?_
    rintro xx _ rfl
    exact .pure (by simp [Admits, encodeMatrix, scale])
  case isFalse noScale =>
    split
    case isTrue axisScales =>
      refine Yields.i16.bind ?_
      rintro xx _ rfl
      refine Yields.i16.bind ?_
      rintro yy _ rfl
      exact .pure (by simp [Admits, encodeMatrix, noScale, axisScales])
    case isFalse noAxisScales =>
      split
      case isTrue both =>
        refine Yields.i16.bind ?_
        rintro xx _ rfl
        refine Yields.i16.bind ?_
        rintro xy _ rfl
        refine Yields.i16.bind ?_
        rintro yx _ rfl
        refine Yields.i16.bind ?_
        rintro yy _ rfl
        exact .pure (by simp [Admits, encodeMatrix, noScale, noAxisScales, both])
      case isFalse noMatrix =>
        exact .pure (by simp [Admits, noScale, noAxisScales, noMatrix])

/-- A component that is placed by an offset is read from its bytes. -/
theorem Fits.takes_read {component : Component} (fits : component.Fits)
    (placed : component.flags.offsetArguments = true) (composite : UInt16) :
    Takes (read composite) component.encode component := by
  unfold read encode encodeReference
  rw [List.append_assoc]
  refine (Takes.u16 component.flags.word).bind ?_
  refine (Takes.u16 component.glyph).bind ?_
  dsimp only
  rw [if_neg (by simp [placed])]
  refine fits.takes_readOffset.bind ?_
  exact (takes_readMatrix fits.matrix).bind_pure rfl

/-- Whatever is read as a component is one, placed by an offset. -/
theorem yields_read (composite : UInt16) :
    Yields (read composite) fun component bytes => bytes = component.encode ∧
      component.Fits ∧ component.flags.offsetArguments = true := by
  unfold read
  refine Yields.u16.bind ?_
  rintro word _ rfl
  refine Yields.u16.bind ?_
  rintro glyph _ rfl
  dsimp only
  split
  case isTrue => exact .throw _ _
  case isFalse placed =>
    refine (yields_readOffset ⟨word⟩).bind ?_
    rintro ⟨dx, dy⟩ _ ⟨rfl, offset⟩
    refine (yields_readMatrix ⟨word⟩).bind ?_
    rintro matrix _ ⟨rfl, admits⟩
    refine .pure ⟨?_, ⟨offset, admits⟩, by simpa using placed⟩
    simp [encode, encodeReference]

/-- Where one component is read there is no other. -/
theorem Fits.unique {component other : Component} {after behind : List UInt8}
    (fits : component.Fits) (placed : component.flags.offsetArguments = true)
    (fitsOther : other.Fits) (placedOther : other.flags.offsetArguments = true)
    (same : component.encode ++ after = other.encode ++ behind) :
    component = other ∧ after = behind := by
  obtain ⟨equal, _, rest⟩ := (fits.takes_read placed 0).unique (fitsOther.takes_read placedOther 0)
    same
  exact ⟨equal, rest⟩

/-- Components that can be stored in a row; only the last one says that it is. -/
structure Row (earlier : List Component) (last : Component) : Prop where
  fits : ∀ component ∈ earlier ++ [last], component.Fits
  placed : ∀ component ∈ earlier ++ [last], component.flags.offsetArguments = true
  more : ∀ component ∈ earlier, component.flags.isLast = false
  ends : last.flags.isLast = true

namespace Row

variable {component last : Component} {earlier : List Component}

theorem single (fits : last.Fits) (placed : last.flags.offsetArguments = true)
    (ends : last.flags.isLast = true) : Row [] last where
  fits := by
    intro other listed
    rwa [List.mem_singleton.mp listed]
  placed := by
    intro other listed
    rwa [List.mem_singleton.mp listed]
  more := nofun
  ends := ends

theorem cons (row : Row earlier last) (fits : component.Fits)
    (placed : component.flags.offsetArguments = true) (more : component.flags.isLast = false) :
    Row (component :: earlier) last where
  fits := List.forall_mem_cons.mpr ⟨fits, row.fits⟩
  placed := List.forall_mem_cons.mpr ⟨placed, row.placed⟩
  more := List.forall_mem_cons.mpr ⟨more, row.more⟩
  ends := row.ends

theorem tail (row : Row (component :: earlier) last) : Row earlier last where
  fits := (List.forall_mem_cons.mp row.fits).2
  placed := (List.forall_mem_cons.mp row.placed).2
  more := (List.forall_mem_cons.mp row.more).2
  ends := row.ends

/-- Rows that are stored at one place start with one component. -/
theorem first_unique {others front back : List Component} {final first second : Component}
    {after behind : List UInt8} (row : Row earlier last) (again : Row others final)
    (starts : earlier ++ [last] = first :: front) (startsToo : others ++ [final] = second :: back)
    (same : (earlier ++ [last]).flatMap encode ++ after =
      (others ++ [final]).flatMap encode ++ behind) :
    first = second ∧ front.flatMap encode ++ after = back.flatMap encode ++ behind := by
  have listed : first ∈ earlier ++ [last] := starts ▸ List.mem_cons_self
  have listedToo : second ∈ others ++ [final] := startsToo ▸ List.mem_cons_self
  rw [starts, startsToo, List.flatMap_cons, List.flatMap_cons, List.append_assoc,
    List.append_assoc] at same
  exact (row.fits first listed).unique (row.placed first listed) (again.fits second listedToo)
    (again.placed second listedToo) same

/-- Where one row is stored there is no other. -/
theorem unique {others : List Component} {final : Component} {after behind : List UInt8}
    (row : Row earlier last) (again : Row others final)
    (same : (earlier ++ [last]).flatMap encode ++ after =
      (others ++ [final]).flatMap encode ++ behind) :
    earlier = others ∧ last = final ∧ after = behind := by
  induction earlier generalizing others with
  | nil =>
      cases others with
      | nil =>
          obtain ⟨rfl, rest⟩ := row.first_unique again rfl rfl same
          exact ⟨rfl, rfl, rest⟩
      | cons other others =>
          obtain ⟨rfl, _⟩ := row.first_unique again rfl rfl same
          have more := again.more last List.mem_cons_self
          rw [row.ends] at more
          cases more
  | cons component earlier ih =>
      cases others with
      | nil =>
          obtain ⟨rfl, _⟩ := row.first_unique again rfl rfl same
          have more := row.more component List.mem_cons_self
          rw [again.ends] at more
          cases more
      | cons other others =>
          obtain ⟨rfl, later⟩ := row.first_unique again rfl rfl same
          obtain ⟨rfl, rest⟩ := ih row.tail again.tail later
          exact ⟨rfl, rest⟩

end Row

end Component

/-- A composite record: components in a row, and a program if the last of them says so. -/
structure CompositeRecord where
  header : RecordHeader
  earlier : List Component
  last : Component
  instructions : Bytes
  composite : header.contourCount < 0
  row : Component.Row earlier last
  size : instructions.size ≤ 65535
  program : last.flags.hasInstructions = false → instructions = #[]

namespace CompositeRecord

def components (record : CompositeRecord) : List Component :=
  record.earlier ++ [record.last]

theorem last_mem_components (record : CompositeRecord) : record.last ∈ record.components :=
  List.mem_append_right record.earlier List.mem_cons_self

/-- Read the program behind components of which the last one has given flags. -/
def readProgram (flags : ComponentFlags) : Reader Bytes :=
  if flags.hasInstructions then SimpleGlyph.readInstructions else pure #[]

def encodeProgram (flags : ComponentFlags) (instructions : Bytes) : List UInt8 :=
  if flags.hasInstructions then
    bigEndianBytes 2 instructions.size ++ instructions.toList
  else
    []

theorem takes_readProgram {flags : ComponentFlags} {instructions : Bytes}
    (size : instructions.size ≤ 65535)
    (without : flags.hasInstructions = false → instructions = #[]) :
    Takes (readProgram flags) (encodeProgram flags instructions) instructions := by
  unfold readProgram encodeProgram
  cases has : flags.hasInstructions with
  | true => exact SimpleGlyph.takes_readInstructions size
  | false =>
      rw [without has]
      exact .pure #[]

theorem yields_readProgram (flags : ComponentFlags) :
    Yields (readProgram flags) fun instructions bytes =>
      bytes = encodeProgram flags instructions ∧ instructions.size ≤ 65535 ∧
        (flags.hasInstructions = false → instructions = #[]) := by
  unfold readProgram encodeProgram
  cases flags.hasInstructions with
  | true =>
      refine SimpleGlyph.yields_readInstructions.mono ?_
      rintro instructions bytes ⟨same, size⟩
      exact ⟨same, size, nofun⟩
  | false => exact .pure ⟨rfl, Nat.zero_le _, fun _ => rfl⟩

def encode (record : CompositeRecord) : List UInt8 :=
  record.header.encode ++ (record.components.flatMap Component.encode ++
    encodeProgram record.last.flags record.instructions)

/-- Where one composite record is stored there is no other. -/
theorem unique {record other : CompositeRecord} {after behind : List UInt8}
    (same : record.encode ++ after = other.encode ++ behind) : record = other := by
  unfold encode at same
  simp only [List.append_assoc] at same
  obtain ⟨header, _, rest⟩ :=
    record.header.takes_read.unique other.header.takes_read same
  obtain ⟨earlier, last, program⟩ := record.row.unique other.row rest
  obtain ⟨_, _, final, instructions, _, _, size, without⟩ := record
  obtain ⟨_, _, _, others, _, _, sizeOther, withoutOther⟩ := other
  subst header earlier last
  obtain ⟨same, _, _⟩ := (takes_readProgram size without).unique
    (takes_readProgram sizeOther withoutOther) program
  subst same
  rfl

end CompositeRecord

end OutlineFont
