/-!
# Shortest decimals

A binary number with a bounded significand is written with the fewest decimal
digits that are nearer to it than to any other such number.
-/

namespace OutlineFont.Text

/-- A decimal number `digits * 10 ^ exponent`. -/
structure Decimal where
  digits : Nat
  exponent : Int
  deriving DecidableEq, Repr

/-- The places of a decimal number before the point, then the others if there are any. -/
def Decimal.text (decimal : Decimal) : String :=
  match decimal.exponent with
  | .ofNat places => toString (decimal.digits * Nat.pow 10 places)
  | .negSucc places =>
      let unit := Nat.pow 10 (places + 1)
      toString (decimal.digits / unit) ++ "." ++
        String.ofList (List.leftpad (places + 1) '0' (Nat.toDigits 10 (decimal.digits % unit)))

/-- The numbers that round to a given one; its ends belong to it or not. -/
structure RoundingInterval where
  low : Nat
  value : Nat
  high : Nat
  closed : Bool
  deriving DecidableEq, Repr

namespace RoundingInterval

/-- Whether a number rounds to the given one. -/
def holds (interval : RoundingInterval) (number : Nat) : Bool :=
  if interval.closed then
    interval.low ≤ number && number ≤ interval.high
  else
    interval.low < number && number < interval.high

/--
The coarsest multiple of a power of ten that rounds to the given number, among
powers of at most `grid`, as a pair of factor and power.  Of two such multiples
the nearer counts, and of two equally near ones the larger.
-/
def coarsest (interval : RoundingInterval) (unit : Nat) : (grid : Nat) → Nat × Nat
  | 0 => (interval.value / unit, 0)
  | grid + 1 =>
      let step := unit * Nat.pow 10 (grid + 1)
      let below := interval.value / step
      let down := interval.holds (below * step)
      let up := interval.holds ((below + 1) * step)
      if down && (!up || 2 * interval.value < (2 * below + 1) * step) then
        (below, grid + 1)
      else if up then
        (below + 1, grid + 1)
      else
        interval.coarsest unit grid

end RoundingInterval

/-- A binary number `significand * 2 ^ exponent` whose significand has `precision` bits. -/
structure Binary where
  precision : Nat
  significand : Nat
  exponent : Int
  deriving DecidableEq, Repr

namespace Binary

/-- The number with `precision` bits nearest to a positive integer; a tie goes to the even one. -/
def nearest (precision n : Nat) : Binary :=
  let size := n.log2 + 1
  if size ≤ precision then
    ⟨precision, n * Nat.pow 2 (precision - size), size - precision⟩
  else
    let unit := Nat.pow 2 (size - precision)
    let quotient := n / unit
    let remainder := n % unit
    let up := unit < 2 * remainder || (2 * remainder == unit && quotient % 2 == 1)
    let rounded := if up then quotient + 1 else quotient
    if rounded = Nat.pow 2 precision then
      ⟨precision, Nat.pow 2 (precision - 1), size - precision + 1⟩
    else
      ⟨precision, rounded, size - precision⟩

/--
The shortest decimal that rounds to a binary number.  The gap below a power of
two is half the gap above it, so all ends are counted in quarters of the last
bit.
-/
def shortest (number : Binary) : Decimal :=
  let quarter := number.exponent - 2
  let places := (-quarter).toNat
  let scale := Nat.pow 2 quarter.toNat * Nat.pow 10 places
  let middle := 4 * number.significand
  let lowGap := if number.significand = Nat.pow 2 (number.precision - 1) then 1 else 2
  let interval : RoundingInterval :=
    ⟨(middle - lowGap) * scale, middle * scale, (middle + 2) * scale,
      number.significand % 2 == 0⟩
  let unit := Nat.pow 2 places
  let (digits, grid) :=
    interval.coarsest unit ((Nat.toDigits 10 (interval.value / unit)).length + 1)
  ⟨digits, (grid : Int) - places⟩

end Binary

example : (Decimal.mk 125 (-2)).text = "1.25" := by decide +kernel

example : (Decimal.mk 3 2).text = "300" := by decide +kernel

example : (Binary.nearest 24 10973).shortest = ⟨10973, 0⟩ := by decide +kernel

example : (Binary.nearest 24 (2 ^ 25 + 3)).significand = 2 ^ 23 + 1 := by decide +kernel

end OutlineFont.Text
