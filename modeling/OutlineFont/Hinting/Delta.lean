import OutlineFont.Hinting.Machine

/-!
# Delta exceptions

A delta exception adjusts one control value at one size.  It is a pair of an
index and a byte: the high half of the byte selects the size, the low half the
number of steps.
-/

namespace OutlineFont.Hinting

/-- A control value index with its packed exception. -/
structure DeltaPair where
  index : Int32
  packed : UInt32
  deriving DecidableEq, Repr

namespace DeltaPair

/-- The size that an exception is meant for. -/
def target (pair : DeltaPair) (base : UInt32) (bias : Nat) : Nat :=
  pair.packed.toNat / 16 % 16 + base.toNat + bias

/-- The number of steps: from eight down to one below, then from one to eight above. -/
def steps (pair : DeltaPair) : Int :=
  let low := pair.packed.toNat % 16
  if low < 8 then low - 8 else low - 7

/-- The adjustment in sixty-fourths of a pixel, for steps of two to the minus `shift` pixels. -/
def adjustment (pair : DeltaPair) (shift : Nat) : Int :=
  pair.steps * Int.pow 2 (6 - shift)

/-- The first `count` pairs on a stack, each with its index on top. -/
def ofItems : (count : Nat) → List Int32 → List DeltaPair
  | count + 1, index :: packed :: rest => ⟨index, packed.toUInt32⟩ :: ofItems count rest
  | _, _ => []

end DeltaPair

/-- Whether an exception is meant for the size of the machine. -/
def Machine.meets (machine : Machine) (bias : Nat) (pair : DeltaPair) : Bool :=
  pair.target machine.graphics.deltaBase bias = machine.ppem

namespace Engine

/-- Carry out an exception if it is meant for the size of the machine. -/
def applyDelta (bias : Nat) (pair : DeltaPair) : Engine Unit := do
  let machine ← get
  let amount := Fixed.ofInt (pair.adjustment machine.graphics.deltaShift)
  if machine.meets bias pair then
    changeControl pair.index (· + amount)

/-- Pop pairs and carry them out one after the other. -/
def applyDeltas (bias : Nat) : (count : Nat) → Engine Unit
  | 0 => pure ()
  | count + 1 => do
      let index ← pop
      let packed ← popUnsigned
      applyDelta bias ⟨index, packed⟩
      applyDeltas bias count

end Engine

end OutlineFont.Hinting
