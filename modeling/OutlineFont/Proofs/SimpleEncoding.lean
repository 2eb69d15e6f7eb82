import OutlineFont.Outline.GlyphTable
import OutlineFont.Proofs.ReaderLaws

/-!
# Encodings of simple glyphs

The format leaves choices: flags may be grouped in runs in any way, and a
difference may take any form that can hold it.  An encoding is a list of runs
whose flags agree with the points of the glyph.  Whatever the choices, decoding
gives the glyph back.
-/

namespace OutlineFont

open Reader (Takes Yields)

/-- Flags that are stored once: one, or one with a count of further points. -/
structure FlagRun where
  flag : PointFlag
  further : UInt8
  single : flag.repeats = false → further = 0
  deriving DecidableEq

namespace FlagRun

def flags (run : FlagRun) : List PointFlag :=
  List.replicate (run.further.toNat + 1) run.flag

/-- The count is stored only when the flag says so. -/
def encode (run : FlagRun) : List UInt8 :=
  if run.flag.repeats then [run.flag.byte, run.further] else [run.flag.byte]

theorem takes_readFlags (glyph : UInt16) (runs : List FlagRun) (rounds missing : Nat)
    (seen : List PointFlag) (size : (runs.flatMap flags).length = missing)
    (enough : missing ≤ rounds) :
    Takes (SimpleGlyph.readFlags glyph rounds missing seen) (runs.flatMap encode)
      (seen.reverse ++ runs.flatMap flags) := by
  induction runs generalizing rounds missing seen with
  | nil =>
      subst size
      rw [List.flatMap_nil, List.flatMap_nil, List.append_nil]
      cases rounds with
      | zero => exact .pure _
      | succ rounds => exact .pure _
  | cons run rest ih =>
      obtain ⟨flag, further, single⟩ := run
      simp only [List.flatMap_cons, List.length_append, flags, List.length_replicate] at size
      obtain ⟨missing, rfl⟩ : ∃ less, missing = less + 1 := ⟨missing - 1, by omega⟩
      obtain ⟨rounds, rfl⟩ : ∃ less, rounds = less + 1 := ⟨rounds - 1, by omega⟩
      rw [SimpleGlyph.readFlags, List.flatMap_cons, List.flatMap_cons]
      cases repeated : flag.repeats with
      | true =>
          have bytes : encode ⟨flag, further, single⟩ = [flag.byte] ++ [further] := by
            simp [encode, repeated]
          have notLonger : ¬missing < further.toNat := by omega
          have remaining := ih rounds (missing - further.toNat)
            (List.replicate (further.toNat + 1) flag ++ seen) (by omega) (by omega)
          rw [bytes, List.append_assoc]
          refine (Takes.u8 flag.byte).bind ?_
          rw [if_pos repeated]
          refine (Takes.u8 further).bind ?_
          dsimp only
          rw [if_neg notLonger]
          simpa [flags, ← List.append_assoc] using remaining
      | false =>
          have none := single repeated
          subst none
          have bytes : encode ⟨flag, 0, single⟩ = [flag.byte] := by
            simp [encode, repeated]
          have less : (rest.flatMap flags).length = missing := by
            rw [UInt8.toNat_zero] at size
            omega
          have remaining := ih rounds missing (flag :: seen) less (by omega)
          rw [bytes]
          refine (Takes.u8 flag.byte).bind ?_
          rw [if_neg (by simp [repeated])]
          simpa [flags] using remaining

end FlagRun

namespace DeltaForm

/-- The differences that a form can store. -/
def Holds : DeltaForm → Int16 → Prop
  | .word, _ => True
  | .zero, difference => difference = 0
  | .negativeByte, difference => -255 ≤ difference.toInt ∧ difference.toInt ≤ 0
  | .positiveByte, difference => 0 ≤ difference.toInt ∧ difference.toInt ≤ 255

instance : (form : DeltaForm) → (difference : Int16) → Decidable (form.Holds difference)
  | .word, _ => inferInstanceAs (Decidable True)
  | .zero, difference => inferInstanceAs (Decidable (difference = 0))
  | .negativeByte, difference =>
      inferInstanceAs (Decidable (-255 ≤ difference.toInt ∧ difference.toInt ≤ 0))
  | .positiveByte, difference =>
      inferInstanceAs (Decidable (0 ≤ difference.toInt ∧ difference.toInt ≤ 255))

def encode : DeltaForm → Int16 → List UInt8
  | .word, difference => bigEndianBytes 2 difference.toUInt16.toNat
  | .zero, _ => []
  | .negativeByte, difference | .positiveByte, difference =>
      [UInt8.ofNat difference.toInt.natAbs]

/-- A form reads back what it can store. -/
theorem Holds.takes_read {form : DeltaForm} {difference : Int16} (holds : form.Holds difference) :
    Takes form.read (form.encode difference) difference := by
  cases form with
  | word => exact .i16 difference
  | zero =>
      cases holds
      exact .pure 0
  | negativeByte =>
      obtain ⟨least, greatest⟩ := holds
      have takes := (Takes.u8 (UInt8.ofNat difference.toInt.natAbs)).map
        fun byte => -Int16.ofNat byte.toNat
      have magnitude : (UInt8.ofNat difference.toInt.natAbs).toNat = difference.toInt.natAbs :=
        UInt8.toNat_ofNat_of_lt' (by simp only [UInt8.size]; omega)
      have negated : -(difference.toInt.natAbs : Int) = difference.toInt := by omega
      rw [magnitude, Int16.neg_ofNat, negated, Int16.ofInt_toInt] at takes
      exact takes
  | positiveByte =>
      obtain ⟨least, greatest⟩ := holds
      have takes := (Takes.u8 (UInt8.ofNat difference.toInt.natAbs)).map
        fun byte => Int16.ofNat byte.toNat
      have magnitude : (UInt8.ofNat difference.toInt.natAbs).toNat = difference.toInt.natAbs :=
        UInt8.toNat_ofNat_of_lt' (by simp only [UInt8.size]; omega)
      have same : (difference.toInt.natAbs : Int) = difference.toInt := by omega
      rw [magnitude, ← Int16.ofInt_eq_ofNat, same, Int16.ofInt_toInt] at takes
      exact takes

end DeltaForm

/-- The differences of coordinates, each from the one before it; they wrap. -/
def differences : (previous : Int16) → List Int16 → List Int16
  | _, [] => []
  | previous, coordinate :: rest => (coordinate - previous) :: differences coordinate rest

/-- The bytes of coordinates whose differences take given forms. -/
def encodeCoordinates (forms : List DeltaForm) (coordinates : List Int16) : List UInt8 :=
  (List.zipWith DeltaForm.encode forms (differences 0 coordinates)).flatten

theorem takes_readCoordinates {forms : List DeltaForm} {previous : Int16}
    {coordinates : List Int16} (seen : List Int16)
    (holds : List.Forall₂ DeltaForm.Holds forms (differences previous coordinates)) :
    Takes (SimpleGlyph.readCoordinates forms previous seen)
      (List.zipWith DeltaForm.encode forms (differences previous coordinates)).flatten
      (seen.reverse ++ coordinates) := by
  induction coordinates generalizing forms previous seen with
  | nil =>
      cases holds
      rw [List.append_nil]
      exact .pure _
  | cons coordinate rest ih =>
      cases holds with
      | @cons form _ forms _ first later =>
          have remaining := ih (coordinate :: seen) later
          rw [SimpleGlyph.readCoordinates, differences, List.zipWith_cons_cons, List.flatten_cons]
          refine first.takes_read.bind ?_
          have next : previous + (coordinate - previous) = coordinate := by
            rw [Int16.add_comm, Int16.sub_add_cancel]
          rw [next]
          simpa using remaining

namespace Glyph

theorem runningCounts_gt {before : Nat} {contours : List Contour}
    (filled : ∀ contour ∈ contours, contour.points ≠ []) :
    ∀ count ∈ runningCounts before contours, before < count := by
  induction contours generalizing before with
  | nil =>
      intro count impossible
      cases impossible
  | cons contour rest ih =>
      have some : 0 < contour.size :=
        List.length_pos_iff.mpr (filled contour List.mem_cons_self)
      intro count listed
      rcases List.mem_cons.mp listed with rfl | later
      · omega
      · have others : ∀ other ∈ rest, other.points ≠ [] :=
          fun other listed => filled other (List.mem_cons_of_mem _ listed)
        have above := ih others count later
        omega

theorem runningCounts_le {before : Nat} {contours : List Contour} :
    ∀ count ∈ runningCounts before contours,
      count ≤ before + contours.foldr (fun contour count => contour.size + count) 0 := by
  induction contours generalizing before with
  | nil =>
      intro count impossible
      cases impossible
  | cons contour rest ih =>
      intro count listed
      rw [List.foldr_cons]
      rcases List.mem_cons.mp listed with rfl | later
      · omega
      · have below := ih count later
        omega

theorem pairwise_runningCounts {before : Nat} {contours : List Contour}
    (filled : ∀ contour ∈ contours, contour.points ≠ []) :
    (runningCounts before contours).Pairwise (· < ·) := by
  induction contours generalizing before with
  | nil => exact .nil
  | cons contour rest ih =>
      have others : ∀ other ∈ rest, other.points ≠ [] :=
        fun other listed => filled other (List.mem_cons_of_mem _ listed)
      exact .cons (runningCounts_gt others) (ih others)

theorem length_runningCounts (before : Nat) (contours : List Contour) :
    (runningCounts before contours).length = contours.length := by
  induction contours generalizing before with
  | nil => rfl
  | cons contour rest ih => simp [runningCounts, ih]

theorem getLast?_runningCounts (before : Nat) {contours : List Contour} (some : contours ≠ []) :
    (runningCounts before contours).getLast? =
      .some (before + contours.foldr (fun contour count => contour.size + count) 0) := by
  induction contours generalizing before with
  | nil => exact absurd rfl some
  | cons contour rest ih =>
      cases rest with
      | nil => simp [runningCounts]
      | cons next rest =>
          have later := ih (before + contour.size) (List.cons_ne_nil _ _)
          rw [runningCounts, List.getLast?_cons, later]
          simp [Nat.add_assoc]

/-- Where no contour is empty, every contour has an end point. -/
theorem endPoints_of_filled {glyph : Glyph}
    (filled : ∀ contour ∈ glyph.contours, contour.points ≠ []) :
    glyph.endPoints = (runningCounts 0 glyph.contours).map (· - 1) := by
  unfold endPoints
  rw [List.filter_eq_self.mpr]
  intro count listed
  have positive := runningCounts_gt filled count listed
  simp only [bne_iff_ne, ne_eq]
  omega

end Glyph

namespace Metrics

def encode (metrics : Metrics) : List UInt8 :=
  bigEndianBytes 2 metrics.minX.toUInt16.toNat ++
    (bigEndianBytes 2 metrics.minY.toUInt16.toNat ++
    (bigEndianBytes 2 metrics.maxX.toUInt16.toNat ++
    bigEndianBytes 2 metrics.maxY.toUInt16.toNat))

theorem takes_read (metrics : Metrics) : Takes read metrics.encode metrics :=
  (Takes.i16 metrics.minX).bind ((Takes.i16 metrics.minY).bind
    ((Takes.i16 metrics.maxX).bind ((Takes.i16 metrics.maxY).bind_pure rfl)))

theorem yields_read : Yields read fun metrics bytes => bytes = metrics.encode := by
  unfold read
  refine Yields.i16.bind ?_
  rintro minX _ rfl
  refine Yields.i16.bind ?_
  rintro minY _ rfl
  refine Yields.i16.bind ?_
  rintro maxX _ rfl
  refine Yields.i16.bind ?_
  rintro maxY _ rfl
  refine .pure ?_
  rw [List.append_nil]
  rfl

end Metrics

namespace RecordHeader

def encode (header : RecordHeader) : List UInt8 :=
  bigEndianBytes 2 header.contourCount.toUInt16.toNat ++ header.metrics.encode

theorem takes_read (header : RecordHeader) : Takes read header.encode header :=
  (Takes.i16 header.contourCount).bind (header.metrics.takes_read.bind_pure rfl)

theorem yields_read : Yields read fun header bytes => bytes = header.encode := by
  unfold read
  refine Yields.i16.bind ?_
  rintro contourCount _ rfl
  refine Metrics.yields_read.bind ?_
  rintro metrics _ rfl
  refine .pure ?_
  rw [List.append_nil]
  rfl

end RecordHeader

namespace SimpleGlyph

/-- Ascending end points are read one after the other. -/
theorem takes_readEndPoints (glyph : UInt16) {endPoints : List Nat} (seen : List Nat)
    (ascending : endPoints.Pairwise (· < ·)) (fits : ∀ last ∈ endPoints, last < 65536)
    (above : ∀ before ∈ seen.head?, ∀ last ∈ endPoints, before < last) :
    Takes (readEndPoints glyph endPoints.length seen) (endPoints.flatMap (bigEndianBytes 2))
      (seen.reverse ++ endPoints) := by
  induction endPoints generalizing seen with
  | nil =>
      rw [List.append_nil]
      exact .pure _
  | cons last rest ih =>
      have value : (UInt16.ofNat last).toNat = last :=
        UInt16.toNat_ofNat_of_lt' (fits last List.mem_cons_self)
      have takes := Takes.u16 (UInt16.ofNat last)
      have remaining := ih (last :: seen) ascending.of_cons
        (fun later listed => fits later (List.mem_cons_of_mem _ listed))
        (fun before same later listed => by
          cases same
          exact List.rel_of_pairwise_cons ascending listed)
      have ascends : ¬(seen.head?.any (last ≤ ·)) = true := by
        cases seen with
        | nil => simp
        | cons before _ =>
            have less := above before rfl last List.mem_cons_self
            simp only [List.head?_cons, Option.any_some, decide_eq_true_eq]
            omega
      rw [value] at takes
      rw [List.length_cons, readEndPoints, List.flatMap_cons]
      refine takes.bind ?_
      rw [value]
      dsimp only
      rw [if_neg ascends]
      simpa using remaining

theorem takes_readInstructions {instructions : Bytes} (fits : instructions.size ≤ 65535) :
    Takes readInstructions (bigEndianBytes 2 instructions.size ++ instructions.toList)
      instructions := by
  have value : (UInt16.ofNat instructions.size).toNat = instructions.size :=
    UInt16.toNat_ofNat_of_lt' (Nat.lt_succ_of_le fits)
  have length := Takes.u16 (UInt16.ofNat instructions.size)
  have content := Takes.bytes instructions.toList
  rw [value] at length
  unfold readInstructions
  refine length.bind ?_
  rw [value]
  simpa using content

theorem yields_readInstructions : Yields readInstructions fun instructions bytes =>
    bytes = bigEndianBytes 2 instructions.size ++ instructions.toList ∧
      instructions.size ≤ 65535 := by
  unfold readInstructions
  refine Yields.u16.bind ?_
  rintro length _ rfl
  refine (Yields.bytes length.toNat).mono ?_
  rintro instructions bytes ⟨rfl, size⟩
  rw [List.size_toArray, size]
  exact ⟨rfl, Nat.le_of_lt_succ length.toNat_lt⟩

/-- Points are put together from their flags and coordinates. -/
theorem points_eq {flags : List PointFlag} {points : List Point}
    (onCurve : flags.map (·.onCurve) = points.map (·.onCurve)) :
    SimpleGlyph.points flags (points.map (·.x)) (points.map (·.y)) = points := by
  unfold SimpleGlyph.points
  induction points generalizing flags with
  | nil => simp
  | cons point rest ih =>
      cases flags with
      | nil => cases onCurve
      | cons flag flags =>
          obtain ⟨same, later⟩ := List.cons.inj onCurve
          have remaining := ih later
          simp only [List.map_cons, List.zip_cons_cons, List.zipWith_cons_cons, same, remaining]

/-- Cutting at the end points of contours gives the contours back. -/
theorem split_eq (glyph : UInt16) (first : Nat) {contours : List Contour}
    (filled : ∀ contour ∈ contours, contour.points ≠ []) :
    split glyph first ((Glyph.runningCounts first contours).map (· - 1))
      (contours.flatMap (·.points)) = .ok contours := by
  induction contours generalizing first with
  | nil => rfl
  | cons contour rest ih =>
      have some : 0 < contour.size :=
        List.length_pos_iff.mpr (filled contour List.mem_cons_self)
      have next : first + contour.size - 1 + 1 = first + contour.size := by omega
      have size : first + contour.size - first = contour.points.length :=
        Nat.add_sub_cancel_left first contour.size
      have remaining := ih (first + contour.size)
        fun other listed => filled other (List.mem_cons_of_mem _ listed)
      rw [Glyph.runningCounts, List.map_cons, List.flatMap_cons, split]
      simp only [next, size, List.take_left, List.drop_left, if_true, remaining]
      rfl

def header (glyph : Glyph) : RecordHeader :=
  ⟨Int16.ofNat glyph.contours.length, glyph.metrics⟩

@[simp] theorem header_metrics (glyph : Glyph) : (header glyph).metrics = glyph.metrics :=
  rfl

/-- The bytes of a record behind its header, with the flags grouped in runs. -/
def encodeBody (glyph : Glyph) (runs : List FlagRun) : List UInt8 :=
  let flags := runs.flatMap (·.flags)
  glyph.endPoints.flatMap (bigEndianBytes 2) ++
    ((bigEndianBytes 2 glyph.instructions.size ++ glyph.instructions.toList) ++
    (runs.flatMap (·.encode) ++
    (encodeCoordinates (flags.map (·.formX)) (glyph.points.map (·.x)) ++
    encodeCoordinates (flags.map (·.formY)) (glyph.points.map (·.y)))))

def encode (glyph : Glyph) (runs : List FlagRun) : List UInt8 :=
  (header glyph).encode ++ encodeBody glyph runs

/-- A glyph with contours that a record can hold, and runs of flags that agree with its points. -/
structure Encodes (glyph : Glyph) (runs : List FlagRun) : Prop where
  contours : glyph.contours ≠ []
  contourCount : glyph.contours.length ≤ 32767
  filled : ∀ contour ∈ glyph.contours, contour.points ≠ []
  pointCount : glyph.pointCount ≤ 65536
  instructions : glyph.instructions.size ≤ 65535
  onCurve : (runs.flatMap (·.flags)).map (·.onCurve) = glyph.points.map (·.onCurve)
  horizontal : List.Forall₂ DeltaForm.Holds ((runs.flatMap (·.flags)).map (·.formX))
    (differences 0 (glyph.points.map (·.x)))
  vertical : List.Forall₂ DeltaForm.Holds ((runs.flatMap (·.flags)).map (·.formY))
    (differences 0 (glyph.points.map (·.y)))

namespace Encodes

variable {glyph : Glyph} {runs : List FlagRun}

theorem toInt_contourCount (encodes : Encodes glyph runs) :
    (header glyph).contourCount.toInt = glyph.contours.length :=
  Int16.toInt_ofNat_of_lt (Nat.lt_succ_of_le encodes.contourCount)

/-- The end points are those of as many contours, ascend, and end with the last point. -/
theorem takes_readEndPoints (encodes : Encodes glyph runs) (id : UInt16) :
    Takes (readEndPoints id glyph.contours.length []) (glyph.endPoints.flatMap (bigEndianBytes 2))
      glyph.endPoints := by
  have same := Glyph.endPoints_of_filled encodes.filled
  have length : glyph.endPoints.length = glyph.contours.length := by
    rw [same, List.length_map, Glyph.length_runningCounts]
  rw [← length]
  refine SimpleGlyph.takes_readEndPoints id [] ?_ ?_ nofun
  · rw [same, List.pairwise_map]
    refine (Glyph.pairwise_runningCounts encodes.filled).imp_of_mem ?_
    intro first second listed _ less
    have positive := Glyph.runningCounts_gt encodes.filled first listed
    omega
  · rw [same]
    intro last listed
    obtain ⟨count, counted, rfl⟩ := List.mem_map.mp listed
    have positive := Glyph.runningCounts_gt encodes.filled count counted
    have below := Glyph.runningCounts_le count counted
    have bounded := encodes.pointCount
    unfold Glyph.pointCount at bounded
    omega

theorem getLast?_endPoints (encodes : Encodes glyph runs) :
    glyph.endPoints.getLast?.elim 0 (· + 1) = glyph.points.length := by
  have last := Glyph.getLast?_runningCounts 0 encodes.contours
  have positive := Glyph.runningCounts_gt encodes.filled _ (List.mem_of_getLast? last)
  rw [Glyph.endPoints_of_filled encodes.filled, List.getLast?_map, last, Glyph.length_points]
  simp only [Option.map_some, Option.elim_some, Glyph.pointCount]
  omega

/-- Reading a record behind its header gives the glyph back. -/
theorem takes_read (encodes : Encodes glyph runs) (id : UInt16) :
    Takes (SimpleGlyph.read id glyph.contours.length glyph.metrics) (encodeBody glyph runs)
      glyph := by
  have filled := List.length_pos_iff.mpr encodes.contours
  have flagCount : (runs.flatMap (·.flags)).length = glyph.points.length := by
    have same := congrArg List.length encodes.onCurve
    rwa [List.length_map, List.length_map] at same
  have flags := FlagRun.takes_readFlags id runs glyph.points.length glyph.points.length [] flagCount
    (Nat.le_refl _)
  have xs := takes_readCoordinates [] encodes.horizontal
  have ys := takes_readCoordinates [] encodes.vertical
  have cut : split id 0 glyph.endPoints (SimpleGlyph.points (runs.flatMap (·.flags))
      (glyph.points.map (·.x)) (glyph.points.map (·.y))) = .ok glyph.contours := by
    rw [SimpleGlyph.points_eq encodes.onCurve, Glyph.endPoints_of_filled encodes.filled]
    exact split_eq id 0 encodes.filled
  rw [SimpleGlyph.read, if_neg (by omega)]
  unfold encodeBody
  refine (encodes.takes_readEndPoints id).bind ?_
  refine (takes_readInstructions encodes.instructions).bind ?_
  dsimp only
  rw [encodes.getLast?_endPoints]
  refine flags.bind ?_
  refine xs.bind ?_
  rw [← List.append_nil (encodeCoordinates _ (glyph.points.map (·.y)))]
  refine ys.bind ?_
  exact (Takes.accept cut).bind (.pure _)

end Encodes

end SimpleGlyph

namespace Resolver

/-- A reader that takes the bytes at a place comes to the place behind them. -/
theorem readFrom_of_takes {α : Type} {reader : Reader α} {bytes : List UInt8} {value : α}
    (takes : Takes reader bytes value) (before after : List UInt8) (trail : Trail) :
    readFrom ⟨(before ++ bytes ++ after).toArray, before.length⟩ reader trail =
      .ok (value, ⟨(before ++ bytes ++ after).toArray, before.length + bytes.length⟩) trail := by
  unfold readFrom
  rw [takes before after]

end Resolver

namespace GlyphTable

/-- The range of a glyph lies in the table and starts with these bytes. -/
def Stores (table : GlyphTable) (id : UInt16) (bytes : List UInt8) : Prop :=
  ∃ range rest, table.locations.range id = .ok range ∧ range.stop ≤ table.data.size ∧
    (table.data.extract range.start range.stop).toList = bytes ++ rest

theorem Stores.record?_eq {table : GlyphTable} {id : UInt16} {bytes : List UInt8}
    (stores : table.Stores id bytes) (filled : bytes ≠ []) :
    ∃ rest, table.record? id = .ok (some (bytes ++ rest).toArray) := by
  obtain ⟨range, rest, located, inside, content⟩ := stores
  refine ⟨rest, ?_⟩
  have apart : range.start ≠ range.stop := by
    intro same
    have empty : bytes ++ rest = [] := by
      rw [← content, same]
      simp
    exact filled (List.append_eq_nil_iff.mp empty).1
  unfold record?
  rw [located]
  simp only [bind, Except.bind, if_neg apart, if_pos inside]
  rw [← content]
  rfl

/--
Decoding undoes every encoding: whichever runs the flags are grouped in, and
whichever forms hold the differences, the decoded glyph is the one that was stored.
-/
theorem decode_eq_of_encodes {table : GlyphTable} {id : UInt16} {glyph : Glyph}
    {runs : List FlagRun} (encodes : SimpleGlyph.Encodes glyph runs)
    (stores : table.Stores id (SimpleGlyph.encode glyph runs)) :
    table.decode id = .ok glyph := by
  have filled : SimpleGlyph.encode glyph runs ≠ [] := by
    intro empty
    have length := congrArg List.length empty
    simp [SimpleGlyph.encode, RecordHeader.encode, length_bigEndianBytes] at length
  obtain ⟨rest, found⟩ := stores.record?_eq filled
  have simple : 0 ≤ (SimpleGlyph.header glyph).contourCount := by
    rw [Int16.le_iff_toInt_le, encodes.toInt_contourCount]
    exact Int.natCast_nonneg _
  have header := Resolver.readFrom_of_takes (SimpleGlyph.header glyph).takes_read []
    (SimpleGlyph.encodeBody glyph runs ++ rest) .empty
  have body := Resolver.readFrom_of_takes (encodes.takes_read id)
    (SimpleGlyph.header glyph).encode rest .empty
  simp only [List.nil_append, List.length_nil, Nat.zero_add, ← List.append_assoc] at header
  have resolved (resolve? : Option (UInt16 → Resolver Glyph)) :
      table.resolveWith resolve? id .empty = .ok glyph .empty := by
    have record : Resolver.accept (table.record? id) .empty =
        .ok (some (SimpleGlyph.encode glyph runs ++ rest).toArray) .empty := by
      rw [found]
      rfl
    unfold resolveWith
    rw [bind_of_ok record]
    dsimp only
    unfold SimpleGlyph.encode
    rw [bind_of_ok header]
    dsimp only
    rw [if_pos simple, encodes.toInt_contourCount, Int.toNat_natCast, SimpleGlyph.header_metrics,
      bind_of_ok body]
    rfl
  unfold decode decodeTracing nestingLimit resolve
  rw [resolved]

/-- A run goes on from one contour to the next, and a difference of zero takes a word. -/
theorem decode_eq_of_encodes_runAcrossContours :
    let glyph : Glyph := ⟨⟨-270, 0, 30, 0⟩, #[0x4F],
      [⟨[⟨10, 0, true⟩, ⟨20, 0, true⟩]⟩, ⟨[⟨30, 0, true⟩, ⟨-270, 0, false⟩]⟩]⟩
    let runs : List FlagRun := [⟨⟨0x3B⟩, 2, by decide⟩, ⟨⟨0⟩, 0, by decide⟩]
    let locations : GlyphLocations := ⟨#[0, 0, 0, 0, 0, 0, 0, 27], .long, 1⟩
    GlyphTable.decode ⟨(SimpleGlyph.encode glyph runs).toArray, locations⟩ 0 = .ok glyph := by
  intro glyph runs locations
  have encodes : SimpleGlyph.Encodes glyph runs :=
    ⟨by decide, by decide, by decide, by decide, by decide, by decide, by decide, by decide⟩
  exact decode_eq_of_encodes encodes ⟨⟨0, 27⟩, [], rfl, by decide, by decide⟩

end GlyphTable

end OutlineFont
