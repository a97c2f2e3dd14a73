import PathFilter.Json.Text

/-!
# Numerals of a JSON text

No field of a configuration is a number, so a number is only ever met where something else was
wanted, and is read to be shown. A **numeral** is the written form: digits, perhaps a fraction,
perhaps an exponent. Without the last two it is an integer, if it fits in 64 bits; otherwise its
value is a binary fraction found in two steps, each of which rounds:

1. the digits are gathered into a **significand** for as long as it fits in 64 bits. The integer
   digits that no longer fit are dropped and counted as powers of ten; fraction digits that no
   longer fit are dropped without trace (`gather`);
2. the significand, rounded, is multiplied or divided by a rounded power of ten (`scale`).

A value beyond the largest finite magnitude is refused. An exponent of more than 31 bits is not
read to its end where the answer no longer depends on it (`overrun?`).
-/

namespace PathFilter.Json

open Decimal (Binary64)

/-! ### The written form -/

/-- An exponent as it is written: its sign and its digits. -/
structure Exponent where
  negative : Bool
  digits : List Char
  deriving DecidableEq, Repr

/-- A numeral without its sign. -/
structure Numeral where
  whole : List Char
  /-- The digits behind the point, if there is one. -/
  fraction : Option (List Char)
  exponent : Option Exponent
  deriving DecidableEq, Repr

/-- Reads the digits before the point. A leading zero stands alone. -/
def readWhole : List Char → Read (List Char)
  | [] => .error (.here [] .endInValue)
  | c :: cs =>
    if c = '0' then
      if cs.head?.any Char.isDigit then .error (.past cs .badNumber) else .ok (['0'], cs)
    else if c.isDigit then .ok (c :: cs.takeWhile Char.isDigit, cs.dropWhile Char.isDigit)
    else .error (.past (c :: cs) .badNumber)

/-- Reads a fraction, if there is one. At least one digit stands behind the point. -/
def readFraction : List Char → Read (Option (List Char))
  | '.' :: cs =>
    match cs.takeWhile Char.isDigit, cs.dropWhile Char.isDigit with
    | [], [] => .error (.past [] .endInValue)
    | [], rest => .error (.past rest .badNumber)
    | ds, rest => .ok (some ds, rest)
  | cs => .ok (none, cs)

/-- Whether a character opens an exponent. -/
def opensExponent (c : Char) : Bool := c == 'e' || c == 'E'

/-- What is left after an optional sign, and whether it is a minus. -/
def readSign : List Char → Bool × List Char
  | '-' :: cs => (true, cs)
  | '+' :: cs => (false, cs)
  | cs => (false, cs)

/-- Reads an exponent, if there is one. At least one digit stands behind its sign. -/
def readExponent : List Char → Read (Option Exponent)
  | [] => .ok (none, [])
  | c :: cs =>
    if opensExponent c then
      match readSign cs with
      | (_, []) => .error (.here [] .endInValue)
      | (negative, d :: ds) =>
        if d.isDigit then
          .ok (some ⟨negative, d :: ds.takeWhile Char.isDigit⟩, ds.dropWhile Char.isDigit)
        else .error (.past (d :: ds) .badNumber)
    else .ok (none, c :: cs)

/-- Reads a numeral whose sign has been read. -/
def readNumeral (cs : List Char) : Read Numeral :=
  match readWhole cs with
  | .error f => .error f
  | .ok (whole, cs) =>
    match readFraction cs with
    | .error f => .error f
    | .ok (fraction, cs) =>
      match readExponent cs with
      | .error f => .error f
      | .ok (exponent, cs) => .ok (⟨whole, fraction, exponent⟩, cs)

/-! ### The value -/

/-- The number that a digit writes. -/
def digitValue (c : Char) : Nat := c.toNat - '0'.toNat

/-- The number that digits write. -/
def natValue (ds : List Char) : Nat := ds.foldl (fun n c => 10 * n + digitValue c) 0

/-- Significands are less than this. -/
def significandLimit : Nat := 0x10000000000000000

/-- Appends digits to a significand for as long as it fits, and counts them. -/
def gather (n : Nat) : List Char → Nat × Nat
  | [] => (n, 0)
  | c :: cs =>
    let m := 10 * n + digitValue c
    if m < significandLimit then
      let (s, count) := gather m cs
      (s, count + 1)
    else (n, 0) -- one digit that does not fit ends it, even if a later one would

/-- The significand of a numeral and the power of ten that belongs to it, its exponent not yet
counted. -/
def Numeral.significand (x : Numeral) : Nat × Int :=
  let (n, kept) := gather 0 x.whole
  let (s, appended) := gather n (x.fraction.getD [])
  (s, (x.whole.length - kept : Int) - appended)

/-- The largest power of ten that is a finite magnitude. -/
def maxPower : Nat := 308

/-- A power of ten as a rounded magnitude. -/
def power? (n : Nat) : Option Binary64 := Binary64.ofNat? (Nat.pow 10 n)

/-- Divides a magnitude by a power of ten: by the largest finite one as long as the power is
beyond it and anything is left to divide. -/
def divPower? (x : Binary64) (n : Nat) : Option Binary64 :=
  if n ≤ maxPower then (power? n).bind x.div?
  else if x.isZero then some x
  else ((power? maxPower).bind x.div?).bind fun y => divPower? y (n - maxPower)
termination_by n
decreasing_by
  have : 0 < maxPower := by decide
  omega

/-- Multiplies a magnitude by a power of ten. -/
def mulPower? (x : Binary64) (n : Nat) : Option Binary64 :=
  if n ≤ maxPower then (power? n).bind x.mul?
  else if x.isZero then some x
  else none

/-- The magnitude of `n · 10 ^ e`, if it is finite. -/
def scale? (n : Nat) (e : Int) : Option Binary64 := do
  let x ← Binary64.ofNat? n
  if 0 ≤ e then mulPower? x e.toNat else divPower? x (-e).toNat

/-- Exponents beyond this are not read to their end. -/
def exponentLimit : Nat := 2147483647

/-- The digits behind the first one that takes an exponent beyond its limit, if one does. -/
def overrun? (n : Nat) : List Char → Option (List Char)
  | [] => none
  | c :: cs =>
    let m := 10 * n + digitValue c
    if exponentLimit < m then some cs else overrun? m cs

/-- The number that an exponent writes. -/
def Exponent.value (e : Exponent) : Int :=
  if e.negative then -(natValue e.digits : Int) else natValue e.digits

/-- Whether the numeral has the form of an integer. -/
def Numeral.isWhole (x : Numeral) : Bool := x.fraction.isNone && x.exponent.isNone

/-- The integer that a signed numeral writes, if it has the form of one and fits: without a sign
in 64 bits, with one in 63 bits and not zero, or exactly -2⁶³. -/
def Numeral.integer? (negative : Bool) (x : Numeral) : Option Int :=
  let n := natValue x.whole
  if !x.isWhole then none
  else if negative then if 0 < n ∧ n ≤ 0x8000000000000000 then some (-(n : Int)) else none
  else if n < significandLimit then some n
  else none

/-- What a number is found to be whose numeral has been read, with `rest` left behind it. An
exponent that overruns its limit makes the number too large, unless all its digits are zero or
the exponent is negative: then it is zero. -/
def Numeral.found (negative : Bool) (x : Numeral) (rest : List Char) : Except Fault Found :=
  match x.integer? negative with
  | some n => .ok (.integer n)
  | none =>
    let (n, e) := x.significand
    let exponent := x.exponent.getD ⟨false, []⟩
    match overrun? 0 exponent.digits with
    | some unread =>
      -- the fault lies behind the digit that passed the limit, before those not yet read
      if n ≠ 0 ∧ !exponent.negative then .error (.here (unread ++ rest) .numberTooLarge)
      else .ok (.floating negative Binary64.zero)
    | none =>
      match scale? n (e + exponent.value) with
      | some m => .ok (.floating negative m)
      | none => .error (.here rest .numberTooLarge)

/-- Reads a number whose sign has been read. -/
def readNumber (negative : Bool) (cs : List Char) : Read Found :=
  match readNumeral cs with
  | .error f => .error f
  | .ok (x, rest) => (x.found negative rest).map fun f => (f, rest)

end PathFilter.Json
