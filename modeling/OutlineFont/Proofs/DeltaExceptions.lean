import OutlineFont.Proofs.InstructionFrame

/-!
# What delta exceptions add up to

A delta instruction pops pairs one after the other and adjusts a control value for
each that is meant for the size of the machine.  Control values are words whose
sums wrap, so a control value ends up with the sum of all adjustments at its
index.  Pairs for other sizes leave no trace, and the order of the pairs does not
matter.
-/

namespace OutlineFont.Hinting

open List

/-! ### Tables of control values -/

namespace Fixed

theorem add_ofInt_add (value : Fixed) (first second : Int) :
    value + .ofInt (first + second) = value + .ofInt first + .ofInt second := by
  change Fixed.mk (value.bits + Int32.ofInt (first + second)) =
    Fixed.mk (value.bits + Int32.ofInt first + Int32.ofInt second)
  rw [Int32.ofInt_add, Int32.add_assoc]

theorem add_ofInt_zero (value : Fixed) : value + .ofInt 0 = value := by
  change Fixed.mk (value.bits + 0) = value
  rw [Int32.add_zero]

/-- Sums of distances are taken modulo the size of a word. -/
theorem toInt_bits_add_ofInt (value : Fixed) (amount : Int) :
    (value + .ofInt amount).bits.toInt = (value.bits.toInt + amount).bmod (2 ^ 32) := by
  change (value.bits + Int32.ofInt amount).toInt = _
  rw [Int32.toInt_add, Int32.toInt_ofInt]
  exact Int.add_bmod_bmod

/-- A table with an amount added to each of its values. -/
def addEach (amounts : Nat → Int) (table : Array Fixed) : Array Fixed :=
  table.mapIdx fun index value => value + .ofInt (amounts index)

theorem getElem?_addEach (amounts : Nat → Int) {table : Array Fixed} {index : Nat} {value : Fixed}
    (found : table[index]? = some value) :
    (addEach amounts table)[index]? = some (value + .ofInt (amounts index)) := by
  unfold addEach
  rw [Array.getElem?_mapIdx, found]
  rfl

theorem addEach_zero (table : Array Fixed) : addEach (fun _ => 0) table = table := by
  apply Array.ext_getElem?
  intro index
  unfold addEach
  rw [Array.getElem?_mapIdx]
  simp only [add_ofInt_zero, Option.map_id']

theorem addEach_addEach (first second : Nat → Int) (table : Array Fixed) :
    addEach second (addEach first table) =
      addEach (fun index => first index + second index) table := by
  unfold addEach
  rw [Array.mapIdx_mapIdx]
  simp only [add_ofInt_add]
  rfl

/-- Adding to one value is putting the sum in its place. -/
theorem addEach_single {table : Array Fixed} {place : Nat} (inside : place < table.size)
    (amount : Int) :
    addEach (fun index => if place = index then amount else 0) table =
      table.set place (table[place] + .ofInt amount) := by
  apply Array.ext_getElem?
  intro index
  unfold addEach
  rw [Array.getElem?_mapIdx, Array.getElem?_set]
  dsimp only
  by_cases here : place = index
  · subst here
    rw [if_pos rfl, if_pos rfl, Array.getElem?_eq_getElem inside]
    rfl
  · rw [if_neg here, if_neg here]
    simp only [add_ofInt_zero, Option.map_id']

end Fixed

/-! ### Pairs and their sums -/

namespace DeltaPair

/-- What the low half of a byte stands for, from the most steps down to the most steps up. -/
def stepSizes : List Int :=
  [-8, -7, -6, -5, -4, -3, -2, -1, 1, 2, 3, 4, 5, 6, 7, 8]

theorem stepSizes_getD (pair : DeltaPair) :
    stepSizes.getD (pair.packed.toNat % 16) 0 = pair.steps := by
  have below : pair.packed.toNat % 16 < 16 := Nat.mod_lt _ (by decide)
  unfold steps
  generalize pair.packed.toNat % 16 = low at below
  interval_cases low <;> rfl

/-- Whether a pair is meant for the size of a machine. -/
def IsFor (machine : Machine) (bias : Nat) (pair : DeltaPair) : Prop :=
  machine.graphics.deltaBase.toNat + bias + pair.packed.toNat / 16 % 16 = machine.ppem

instance (machine : Machine) (bias : Nat) : DecidablePred (IsFor machine bias) :=
  fun _ => inferInstanceAs (Decidable (_ = _))

theorem meets_iff_isFor (machine : Machine) (bias : Nat) (pair : DeltaPair) :
    machine.meets bias pair = true ↔ pair.IsFor machine bias := by
  unfold Machine.meets target IsFor
  rw [decide_eq_true_iff]
  omega

/-- The sum of the adjustments of one control value, in sixty-fourths of a pixel. -/
def total (machine : Machine) (bias : Nat) (pairs : List DeltaPair) (index : Nat) : Int :=
  ((pairs.filter fun pair => pair.IsFor machine bias ∧ toIndex pair.index = index).map
    fun pair => stepSizes.getD (pair.packed.toNat % 16) 0 *
      2 ^ (6 - machine.graphics.deltaShift)).sum

variable (machine : Machine) (bias : Nat)

theorem total_cons (pair : DeltaPair) (pairs : List DeltaPair) :
    total machine bias (pair :: pairs) =
      fun index => total machine bias [pair] index + total machine bias pairs index := by
  funext index
  unfold total
  by_cases adjusts : pair.IsFor machine bias ∧ toIndex pair.index = index
  · simp [adjusts]
  · simp [adjusts]

variable {machine bias}

theorem total_of_isFor {pair : DeltaPair} (meant : pair.IsFor machine bias) :
    total machine bias [pair] = fun index =>
      if toIndex pair.index = index then pair.adjustment machine.graphics.deltaShift else 0 := by
  funext index
  unfold total adjustment
  rw [← stepSizes_getD]
  by_cases here : toIndex pair.index = index
  · simp [meant, here]
  · simp [here]

theorem total_of_not_isFor {pair : DeltaPair} (other : ¬pair.IsFor machine bias) :
    total machine bias [pair] = fun _ => 0 := by
  funext index
  unfold total
  simp [other]

/-- Only the pairs that are meant for the machine count, in whatever order. -/
theorem total_eq_of_perm {pairs others : List DeltaPair}
    (same : pairs.filter (IsFor machine bias) ~ others.filter (IsFor machine bias)) :
    total machine bias pairs = total machine bias others := by
  funext index
  have both (listed : List DeltaPair) :
      (listed.filter fun pair => pair.IsFor machine bias ∧ toIndex pair.index = index) =
        (listed.filter (IsFor machine bias)).filter (toIndex ·.index = index) := by
    rw [filter_filter]
    simp only [Bool.decide_and, Bool.and_comm]
  unfold total
  rw [both, both]
  exact ((same.filter _).map _).sum_eq

end DeltaPair

open DeltaPair (IsFor ofItems total)

/-! ### The instruction -/

/-- A machine after pairs have been taken off its stack and carried out. -/
def Machine.adjusted (machine : Machine) (bias : Nat) (pairs : List DeltaPair)
    (rest : List Int32) : Machine :=
  { machine with
    stack := .ofList rest
    controls := Fixed.addEach (total machine bias pairs) machine.controls }

namespace Machine

variable (machine : Machine) (bias : Nat)

theorem adjusted_nil : machine.adjusted bias [] machine.stack.items = machine := by
  have controls : Fixed.addEach (total machine bias []) machine.controls = machine.controls :=
    Fixed.addEach_zero _
  unfold adjusted
  rw [controls, Stack.ofList_items]

/-- Carrying out a pair and then others is carrying out all of them. -/
theorem adjusted_adjusted (pair : DeltaPair) (pairs : List DeltaPair) (between rest : List Int32) :
    (machine.adjusted bias [pair] between).adjusted bias pairs rest =
      machine.adjusted bias (pair :: pairs) rest := by
  have controls := Fixed.addEach_addEach (total machine bias [pair]) (total machine bias pairs)
    machine.controls
  rw [← DeltaPair.total_cons] at controls
  exact congrArg (fun controls : Array Fixed =>
    { machine with stack := .ofList rest, controls := controls }) controls

end Machine

namespace Engine

/-- A pair adjusts the control value at its index, or none if it is for another size. -/
theorem applyDelta_eq {machine : Machine} {bias : Nat} {pair : DeltaPair}
    (inside : pair.IsFor machine bias → toIndex pair.index < machine.controls.size) :
    applyDelta bias pair machine = .ok () (machine.adjusted bias [pair] machine.stack.items) := by
  have choice : applyDelta bias pair machine =
      (if machine.meets bias pair then
        changeControl pair.index (· + .ofInt (pair.adjustment machine.graphics.deltaShift))
      else pure ()) machine := rfl
  rw [choice]
  unfold Machine.adjusted
  by_cases meant : pair.IsFor machine bias
  · rw [if_pos ((DeltaPair.meets_iff_isFor machine bias pair).mpr meant), Stack.ofList_items,
      DeltaPair.total_of_isFor meant, Fixed.addEach_single (inside meant)]
    exact dif_pos (inside meant)
  · rw [if_neg (mt (DeltaPair.meets_iff_isFor machine bias pair).mp meant), Stack.ofList_items,
      DeltaPair.total_of_not_isFor meant, Fixed.addEach_zero]
    rfl

theorem popUnsigned_of_items {machine : Machine} {value : Int32} {rest : List Int32}
    (stack : machine.stack.items = value :: rest) :
    popUnsigned machine = .ok value.toUInt32 { machine with stack := .ofList rest } := by
  unfold popUnsigned
  rw [map_eq_pure_bind, bind_of_ok (pop_of_items stack)]
  rfl

/-- Pairs on the stack are taken off it, and all of them are carried out. -/
theorem applyDeltas_eq {bias count : Nat} {machine : Machine} {items : List Int32}
    (stack : machine.stack.items = items) (enough : 2 * count ≤ items.length)
    (inside : ∀ pair ∈ ofItems count items, pair.IsFor machine bias →
      toIndex pair.index < machine.controls.size) :
    applyDeltas bias count machine =
      .ok () (machine.adjusted bias (ofItems count items) (items.drop (2 * count))) := by
  -- The table keeps its size, so the indices that lie inside it stay inside.
  induction count generalizing machine items with
  | zero =>
      subst stack
      rw [Nat.mul_zero, drop_zero, ofItems, machine.adjusted_nil bias]
      · rfl
      · nofun
  | succ count ih =>
      match items, enough with
      | index :: packed :: rest, enough =>
          obtain ⟨first, others⟩ := forall_mem_cons.mp inside
          let after := machine.adjusted bias [⟨index, packed.toUInt32⟩] rest
          have applied : applyDelta bias ⟨index, packed.toUInt32⟩
              { machine with stack := .ofList rest } = .ok () after := applyDelta_eq first
          have size : after.controls.size = machine.controls.size := Array.size_mapIdx
          have left : 2 * count ≤ rest.length := by
            simp only [length_cons] at enough
            omega
          have further : applyDeltas bias count after =
              .ok () (after.adjusted bias (ofItems count rest) (rest.drop (2 * count))) :=
            ih rfl left fun pair listed meant => size ▸ others pair listed meant
          rw [Machine.adjusted_adjusted] at further
          rw [applyDeltas, bind_of_ok (pop_of_items stack), bind_of_ok (popUnsigned_of_items rfl),
            bind_of_ok applied, further]
          rfl

/-- The instruction pops its count, and then pairs. -/
theorem perform_of_deltaControl {program : Program} {instruction : Instruction} {bias : Nat}
    (action : instruction.opcode.action = .deltaControl bias) {machine : Machine} {count : Int32}
    {items : List Int32} (stack : machine.stack.items = count :: items)
    (enough : 2 * count.toUInt32.toNat ≤ items.length)
    (inside : ∀ pair ∈ ofItems count.toUInt32.toNat items, pair.IsFor machine bias →
      toIndex pair.index < machine.controls.size) :
    perform program instruction machine = .ok (.goto instruction.next)
      (machine.adjusted bias (ofItems count.toUInt32.toNat items)
        (items.drop (2 * count.toUInt32.toNat))) := by
  have popped : popUnsigned machine = .ok count.toUInt32 { machine with stack := .ofList items } :=
    popUnsigned_of_items stack
  have carriedOut : applyDeltas bias count.toUInt32.toNat { machine with stack := .ofList items } =
      .ok () (machine.adjusted bias (ofItems count.toUInt32.toNat items)
        (items.drop (2 * count.toUInt32.toNat))) := applyDeltas_eq rfl enough inside
  have transformed : transform program instruction machine =
      .ok () (machine.adjusted bias (ofItems count.toUInt32.toNat items)
        (items.drop (2 * count.toUInt32.toNat))) := by
    unfold transform
    rw [action]
    exact (bind_of_ok popped).trans carriedOut
  unfold perform
  rw [action]
  exact bind_of_ok transformed

/--
A delta instruction takes its count and as many pairs off the stack.  Every
control value is raised by the sum of the adjustments at its index, modulo the
size of a word, and nothing else changes.  A stack with the same pairs for the
size of the machine above the same elements, in another order or among other
pairs for other sizes, has the same outcome.
-/
theorem perform_deltaControl {program : Program} {instruction : Instruction} {bias : Nat}
    (action : instruction.opcode.action = .deltaControl bias) {machine : Machine} {count : Int32}
    {items : List Int32} (stack : machine.stack.items = count :: items)
    (enough : 2 * count.toUInt32.toNat ≤ items.length)
    (inside : ∀ pair ∈ ofItems count.toUInt32.toNat items, pair.IsFor machine bias →
      toIndex pair.index < machine.controls.size) :
    (∃ controls, perform program instruction machine = .ok (.goto instruction.next)
        { machine with
          stack := .ofList (items.drop (2 * count.toUInt32.toNat))
          controls := controls } ∧
      controls.size = machine.controls.size ∧
      ∀ index value, machine.controls[index]? = some value → ∃ adjusted,
        controls[index]? = some adjusted ∧ adjusted.bits.toInt = (value.bits.toInt +
          total machine bias (ofItems count.toUInt32.toNat items) index).bmod (2 ^ 32)) ∧
    ∀ (other : Int32) (others : List Int32), 2 * other.toUInt32.toNat ≤ others.length →
      others.drop (2 * other.toUInt32.toNat) = items.drop (2 * count.toUInt32.toNat) →
      (ofItems other.toUInt32.toNat others).filter (IsFor machine bias) ~
        (ofItems count.toUInt32.toNat items).filter (IsFor machine bias) →
      perform program instruction { machine with stack := .ofList (other :: others) } =
        perform program instruction machine := by
  refine ⟨⟨_, perform_of_deltaControl action stack enough inside, Array.size_mapIdx, ?_⟩, ?_⟩
  · intro index value found
    refine ⟨_, Fixed.getElem?_addEach _ found, ?_⟩
    exact value.toInt_bits_add_ofInt _
  · intro other others enough' below same
    let again : Machine := { machine with stack := .ofList (other :: others) }
    have inside' : ∀ pair ∈ ofItems other.toUInt32.toNat others, pair.IsFor again bias →
        toIndex pair.index < again.controls.size := by
      intro pair listed meant
      have among := same.mem_iff.mp (mem_filter.mpr ⟨listed, decide_eq_true meant⟩)
      exact inside pair (mem_filter.mp among).1 meant
    have sums : total again bias (ofItems other.toUInt32.toNat others) =
        total machine bias (ofItems count.toUInt32.toNat items) :=
      DeltaPair.total_eq_of_perm same
    have adjusted : again.adjusted bias (ofItems other.toUInt32.toNat others)
          (others.drop (2 * other.toUInt32.toNat)) =
        machine.adjusted bias (ofItems count.toUInt32.toNat items)
          (items.drop (2 * count.toUInt32.toNat)) := by
      unfold Machine.adjusted
      rw [sums, below]
    calc perform program instruction again
        = .ok (.goto instruction.next) (again.adjusted bias (ofItems other.toUInt32.toNat others)
            (others.drop (2 * other.toUInt32.toNat))) :=
          perform_of_deltaControl action rfl enough' inside'
      _ = .ok (.goto instruction.next) (machine.adjusted bias
            (ofItems count.toUInt32.toNat items) (items.drop (2 * count.toUInt32.toNat))) := by
          rw [adjusted]
      _ = perform program instruction machine :=
          (perform_of_deltaControl action stack enough inside).symm

/-- A machine at ten pixels per em with three pairs on its stack, one of them for another size. -/
def exceptional : Machine :=
  { (default : Machine) with
    stack := .ofList [3, 0, 0x1F, 7, 0x2F, 0, 0x18, 5]
    controls := #[⟨64⟩, ⟨-32⟩]
    ppem := 10 }

/-- The two pairs for ten pixels add up, and the index of the third is beyond the table. -/
theorem perform_deltaControl_exceptional :
    (Opcode.mk 0x73).action = .deltaControl 0 ∧
    exceptional.stack.items = 3 :: [0, 0x1F, 7, 0x2F, 0, 0x18, 5] ∧
    2 * (3 : Int32).toUInt32.toNat ≤ [0, 0x1F, 7, 0x2F, 0, 0x18, (5 : Int32)].length ∧
    (∀ pair ∈ ofItems (3 : Int32).toUInt32.toNat [0, 0x1F, 7, 0x2F, 0, 0x18, 5],
      pair.IsFor exceptional 0 → toIndex pair.index < exceptional.controls.size) ∧
    ∃ controls, perform ⟨.glyph, #[0x73]⟩ ⟨0, ⟨0x73⟩, []⟩ exceptional = .ok (.goto 1)
        { exceptional with stack := .ofList [5], controls := controls } ∧
      controls.size = 2 ∧
      (∃ adjusted, controls[0]? = some adjusted ∧ adjusted.bits.toInt = 64 + 64 + 8) ∧
      ∃ adjusted, controls[1]? = some adjusted ∧ adjusted.bits.toInt = -32 := by
  have action : (Instruction.mk 0 ⟨0x73⟩ []).opcode.action = .deltaControl 0 := by decide
  have stack : exceptional.stack.items = 3 :: [0, 0x1F, 7, 0x2F, 0, 0x18, 5] := rfl
  have enough : 2 * (3 : Int32).toUInt32.toNat ≤
      [0, 0x1F, 7, 0x2F, 0, 0x18, (5 : Int32)].length := by decide
  have inside : ∀ pair ∈ ofItems (3 : Int32).toUInt32.toNat [0, 0x1F, 7, 0x2F, 0, 0x18, 5],
      pair.IsFor exceptional 0 → toIndex pair.index < exceptional.controls.size := by decide
  obtain ⟨⟨controls, performed, size, values⟩, _⟩ := perform_deltaControl action stack enough inside
  exact ⟨action, stack, enough, inside, controls, performed, size, values 0 _ rfl, values 1 _ rfl⟩

end Engine

end OutlineFont.Hinting
