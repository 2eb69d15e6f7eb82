import OutlineFont.Error

/-!
# The stack

The elements of the machine's stack are words of thirty-two bits whose meaning
depends on the instruction that takes them.  The stack never holds more than
`Stack.limit` elements, whatever a font asks for.
-/

namespace OutlineFont.Hinting

/-- The elements, topmost first, with their number. -/
structure Stack where
  items : List Int32
  depth : Nat
  depth_eq : depth = items.length

namespace Stack

/-- The greatest number of elements. -/
def limit : Nat := 65536

def ofList (items : List Int32) : Stack :=
  ⟨items, items.length, rfl⟩

def empty : Stack :=
  ofList []

instance : Inhabited Stack := ⟨empty⟩

@[simp] theorem items_ofList (items : List Int32) : (ofList items).items = items :=
  rfl

@[ext] theorem ext {a b : Stack} (same : a.items = b.items) : a = b := by
  obtain ⟨items, depth, depth_eq⟩ := a
  obtain ⟨other, otherDepth, otherDepth_eq⟩ := b
  cases same
  cases depth_eq
  cases otherDepth_eq
  rfl

@[simp] theorem ofList_items (stack : Stack) : ofList stack.items = stack :=
  Stack.ext rfl

def push (stack : Stack) (value : Int32) : Except FontError Stack :=
  if stack.depth < limit then
    .ok ⟨value :: stack.items, stack.depth + 1, by simp [stack.depth_eq]⟩
  else
    .error (.hinting .stackOverflow)

theorem push_of_lt {stack : Stack} (space : stack.depth < limit) (value : Int32) :
    stack.push value = .ok (ofList (value :: stack.items)) := by
  simp only [push, space, if_true]
  exact congrArg Except.ok (Stack.ext rfl)

theorem push_of_le {stack : Stack} (full : limit ≤ stack.depth) (value : Int32) :
    stack.push value = .error (.hinting .stackOverflow) := by
  simp [push, Nat.not_lt.mpr full]

def pop : Stack → Except FontError (Int32 × Stack)
  | ⟨[], _, _⟩ => .error (.hinting .popFromEmpty)
  | ⟨value :: rest, depth, depth_eq⟩ =>
      .ok (value, ⟨rest, depth - 1, by simp [depth_eq]⟩)

@[simp] theorem pop_ofList_cons (value : Int32) (rest : List Int32) :
    (ofList (value :: rest)).pop = .ok (value, ofList rest) :=
  rfl

@[simp] theorem pop_empty : empty.pop = .error (.hinting .popFromEmpty) :=
  rfl

def peek (stack : Stack) : Except FontError Int32 :=
  match stack.items with
  | [] => .error (.hinting .readFromEmpty)
  | value :: _ => .ok value

/-- The index of the element at a position counted from the top, which has position one. -/
def index (stack : Stack) (position : Int32) : Except FontError (Fin stack.items.length) :=
  if inside : 0 < position.toInt ∧ position.toInt ≤ stack.depth then
    .ok ⟨position.toInt.toNat - 1, by have := stack.depth_eq; omega⟩
  else
    .error (.hinting (.noStackElement position stack.depth))

/-- Push a copy of the element at a position. -/
def copyToTop (stack : Stack) (position : Int32) : Except FontError Stack := do
  let index ← stack.index position
  stack.push stack.items[index]

/-- Move the element at a position to the top. -/
def moveToTop (stack : Stack) (position : Int32) : Except FontError Stack := do
  let index ← stack.index position
  .ok ⟨stack.items[index] :: stack.items.eraseIdx index, stack.depth, by
    have := stack.depth_eq
    have := index.isLt
    rw [List.length_cons, List.length_eraseIdx_of_lt index.isLt]
    omega⟩

theorem moveToTop_of_index {stack : Stack} {position : Int32}
    {index : Fin stack.items.length} (found : stack.index position = .ok index) :
    stack.moveToTop position =
      .ok (ofList (stack.items[index] :: stack.items.eraseIdx index)) := by
  rw [moveToTop, found]
  exact congrArg Except.ok (Stack.ext rfl)

/-- Swap the two topmost elements. -/
def swap : Stack → Except FontError Stack
  | ⟨first :: second :: rest, depth, depth_eq⟩ =>
      .ok ⟨second :: first :: rest, depth, depth_eq⟩
  | _ => .error (.hinting .popFromEmpty)

/-- Move the third element to the top. -/
def roll (stack : Stack) : Except FontError Stack :=
  stack.moveToTop 3

end Stack

end OutlineFont.Hinting
