import PathFilter.Decimal.Shortest

/-!
# How a decimal is laid out

The digits of a number can be written **positionally**, with as many zeros as the place of the
point asks for, or in **scientific** form with the power of ten behind an `e`. A `Layout` says
for which powers of ten the positional form is taken. That form always has a digit on both sides
of the point; the scientific one has a point only between digits, and always a sign in its
exponent.
-/

namespace PathFilter.Decimal

/-- The range of powers of ten that are written positionally. -/
structure Layout where
  least : Int
  greatest : Int
  deriving DecidableEq, Repr

private def zeros (n : Nat) : List Char := List.replicate n '0'

/-- The digits with the point in its place. -/
def Digits.positional (d : Digits) : List Char :=
  if d.exponent < 0 then
    ['0', '.'] ++ zeros ((-d.exponent).toNat - 1) ++ d.digits
  else
    let places := d.exponent.toNat + 1
    let padded := d.digits ++ zeros (places - d.digits.length)
    let fraction := padded.drop places
    padded.take places ++ '.' :: (if fraction.isEmpty then ['0'] else fraction)

/-- The first digit, the others behind a point, and the power of ten. -/
def Digits.scientific (d : Digits) : List Char :=
  d.digits.take 1 ++
  (if d.digits.length ≤ 1 then [] else '.' :: d.digits.drop 1) ++
  'e' :: (if d.exponent < 0 then '-' else '+') :: Nat.toDigits 10 d.exponent.natAbs

/-- The digits in the form that the layout prescribes. -/
def Layout.render (l : Layout) (d : Digits) : List Char :=
  if l.least ≤ d.exponent ∧ d.exponent ≤ l.greatest then d.positional else d.scientific

/-- The shortest text of a magnitude; zero is written positionally. -/
def Layout.renderMagnitude (l : Layout) (x : Binary64) : List Char :=
  if x.isZero then ['0', '.', '0'] else l.render x.shortest

end PathFilter.Decimal
