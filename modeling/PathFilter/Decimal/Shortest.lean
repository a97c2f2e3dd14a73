import PathFilter.Decimal.Binary64

/-!
# The shortest decimal that reads back

The numbers that round to a given magnitude form an interval around it: half the way to each of
its neighbours, ends included exactly if the mantissa is even. The **shortest** decimal of the
magnitude has the fewest significant digits of all decimals in that interval, and is the nearest
to the magnitude among those; of two equally near the one with the even last digit is taken.

For a given number of digits only the two points of the decimal grid next to the magnitude have
to be tried: if any point of the grid lies in the interval, one of these does. Seventeen digits
always suffice. All comparisons are of natural numbers.
-/

namespace PathFilter.Decimal

/-- A positive decimal `d.ddd · 10 ^ exponent`; the first digit is not zero, nor is the last. -/
structure Digits where
  /-- The significant digits, from the first. -/
  digits : List Char
  /-- The power of ten of the first digit. -/
  exponent : Int
  deriving DecidableEq, Repr

/-- The decimal `n · 10 ^ p` of a positive `n`. -/
def Digits.ofScaled (n : Nat) (p : Int) : Digits :=
  let ds := Nat.toDigits 10 n
  ⟨(ds.reverse.dropWhile (· == '0')).reverse, p + ds.length - 1⟩

namespace Binary64

/-- The power of ten of the first significant digit of a positive magnitude. -/
def decimalExponent (x : Binary64) : Int :=
  let whole := x.units / one
  if 0 < whole then (Nat.toDigits 10 whole).length - 1
  else - (Nat.toDigits 10 ((one - 1) / x.units)).length

/-- The quarters of a unit step between the magnitude and the lower end of its interval. Just
below a power of two the magnitudes lie twice as close, except at the bottom of the range. -/
def lowerQuarters (x : Binary64) : Nat :=
  if x.mantissa = leadingBit ∧ 0 < x.shift then 1 else 2

/-- The magnitude, the ends of its interval and a point of the decimal grid, all multiplied by
the same number so that they are natural. -/
structure Grid where
  value : Nat
  low : Nat
  high : Nat
  /-- The distance between two points of the grid. -/
  step : Nat
  /-- Whether the ends belong to the interval. -/
  closed : Bool

/-- The grid of the multiples of `10 ^ p`. -/
def grid (x : Binary64) (p : Int) : Grid :=
  -- one of the two powers of ten is the number one, whatever the sign of `p`
  let scale := Nat.pow 2 x.shift * Nat.pow 10 (-p).toNat
  { value := 4 * x.mantissa * scale
    low := (4 * x.mantissa - x.lowerQuarters) * scale
    high := (4 * x.mantissa + 2) * scale
    step := 4 * one * Nat.pow 10 p.toNat
    closed := x.mantissa % 2 == 0 }

/-- Whether the `n`-th point of the grid lies in the interval. -/
def Grid.holds (g : Grid) (n : Nat) : Bool :=
  let point := n * g.step
  if g.closed then g.low ≤ point && point ≤ g.high else g.low < point && point < g.high

/-- The point of the grid that stands for the magnitude, if one lies in the interval. -/
def Grid.best? (g : Grid) : Option Nat :=
  -- the magnitude lies between the points `n` and `n + 1`
  let n := g.value / g.step
  let below := g.value - n * g.step
  let above := (n + 1) * g.step - g.value
  match g.holds n, g.holds (n + 1) with
  | true, true =>
    some (if below < above then n else if above < below then n + 1 else n + n % 2)
  | true, false => some n
  | false, true => some (n + 1)
  | false, false => none

/-- Tries grids for numbers of digits from `count` on, at most `fuel` of them. -/
def shortestFrom (x : Binary64) (count : Nat) : Nat → Digits
  -- not reached: seventeen digits tell any two magnitudes apart
  | 0 => Digits.ofScaled x.units (-1074)
  | fuel + 1 =>
    let p := x.decimalExponent - (count - 1 : Nat)
    match (x.grid p).best? with
    | some n => Digits.ofScaled n p
    | none => shortestFrom x (count + 1) fuel

/-- The shortest decimal of a positive magnitude. -/
def shortest (x : Binary64) : Digits := shortestFrom x 1 17

end Binary64

end PathFilter.Decimal
