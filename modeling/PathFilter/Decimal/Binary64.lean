/-!
# Binary floating-point magnitudes

A finite **binary64 magnitude** is a whole number of units of 2⁻¹⁰⁷⁴, the smallest positive one,
with at most 53 significant bits. `Binary64` writes it as `mantissa · 2 ^ shift` units, so that
all arithmetic on magnitudes is exact arithmetic of natural numbers. A shift is only taken where
the mantissa has all its 53 bits, which leaves one representation of each magnitude. The sign is
kept apart by whoever needs one.

* `Binary64.ofRatio?` rounds a quotient of natural numbers to the nearest magnitude, a tie to the
  one with the even mantissa; there is none where the quotient is too large for the format.
* `Binary64.mul?` and `Binary64.div?` are the exact product and quotient, rounded once.
-/

namespace PathFilter.Decimal

/-- The quotient of two natural numbers, rounded to the nearest, and a tie to the even one. -/
def divNearestEven (a b : Nat) : Nat :=
  let q := a / b
  let r := 2 * (a % b)
  if r < b then q else if b < r then q + 1 else q + q % 2

/-- A finite magnitude of `mantissa · 2 ^ shift` units of 2⁻¹⁰⁷⁴. -/
structure Binary64 where
  mantissa : Nat
  shift : Nat
  deriving DecidableEq, Repr

namespace Binary64

/-- The number of significant bits. -/
def precision : Nat := 53

/-- The mantissa whose leading bit alone is set. -/
def leadingBit : Nat := 0x10000000000000

/-- The number of units in the number one. -/
def one : Nat := Nat.pow 2 1074

/-- The largest shift of a finite magnitude. -/
def maxShift : Nat := 2045

/-- The number of units in a magnitude. -/
def units (x : Binary64) : Nat := x.mantissa * Nat.pow 2 x.shift

/-- The magnitude zero. -/
def zero : Binary64 := ⟨0, 0⟩

/-- Whether a magnitude is zero. -/
def isZero (x : Binary64) : Bool := x.mantissa == 0

/-- The magnitude nearest to `num / den`, if it is finite. The leading bits that are kept are
found from the whole number of units in the quotient; rounding may carry into one bit more. -/
def ofRatio? (num den : Nat) : Option Binary64 :=
  let whole := num * one / den
  -- below 2 ^ 53 units every whole number is a magnitude, and nothing is shifted out
  let shift := whole.log2 + 1 - precision
  let mantissa := divNearestEven (num * one) (den * Nat.pow 2 shift)
  let x :=
    -- all bits were ones and were rounded up
    if mantissa = 2 * leadingBit then ⟨leadingBit, shift + 1⟩ else ⟨mantissa, shift⟩
  if maxShift < x.shift then none else some x

/-- The magnitude nearest to a natural number. -/
def ofNat? (n : Nat) : Option Binary64 := ofRatio? n 1

/-- The product, rounded once, if it is finite. -/
def mul? (x y : Binary64) : Option Binary64 := ofRatio? (x.units * y.units) (one * one)

/-- The quotient, rounded once, if it is finite. -/
def div? (x y : Binary64) : Option Binary64 := ofRatio? x.units y.units

end Binary64

end PathFilter.Decimal
