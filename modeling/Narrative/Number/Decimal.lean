import Narrative.Number.Binary64

namespace Narrative

-- A whole number of powers of ten
structure Decimal where
  digits : Nat
  exponent : Int
deriving DecidableEq, Repr

namespace Decimal

-- Four times a double with its exponent two lower, and the ends of the reals that
-- round to it in the same unit. The ends belong to it when the mantissa is even.
structure Interval where
  low : Nat
  value : Nat
  high : Nat
  closed : Bool

def Interval.ofBinary (mantissa : Nat) (exponent : Int) : Interval :=
  let atBinade := mantissa = Binary64.leadingBit ∧ Binary64.leastExponent < exponent
  { low := if atBinade then 4 * mantissa - 1 else 4 * mantissa - 2
    value := 4 * mantissa
    high := 4 * mantissa + 2
    closed := mantissa % 2 = 0 }

def Interval.scale (i : Interval) (factor : Nat) : Interval :=
  { i with low := i.low * factor, value := i.value * factor, high := i.high * factor }

def Interval.contains (i : Interval) (n : Nat) : Bool :=
  (i.low < n && n < i.high) || (i.closed && (n == i.low || n == i.high))

-- The multiple of the step inside the interval that lies nearest to its value, the
-- greater of two that are as near. One of the two neighbours of the value is
-- inside if any multiple is.
def Interval.nearestMultiple? (i : Interval) (step : Nat) : Option Nat :=
  let below := i.value / step
  let above := if below * step = i.value then below else below + 1
  match i.contains (below * step), i.contains (above * step) with
  | true, true => some (if i.value - below * step < above * step - i.value then below else above)
  | true, false => some below
  | false, true => some above
  | false, false => none

-- The first power of ten from the given one downward that has a multiple inside
-- the interval. The interval counts units of two to the exponent.
def search (i : Interval) (exponent : Int) : Nat → Int → Decimal
  | 0, k => ⟨0, k⟩
  | fuel + 1, k =>
    let factor := if k < 0 then 10 ^ k.natAbs else 1
    let scaled := i.scale (if exponent < 0 then factor else factor * 2 ^ exponent.natAbs)
    let unit := if k < 0 then 1 else 10 ^ k.natAbs
    let step := if exponent < 0 then unit * 2 ^ exponent.natAbs else unit
    match scaled.nearestMultiple? step with
    | some n => ⟨n, k⟩
    | none => search i exponent fuel (k - 1)

-- No double has a decimal place above the first of these or a digit that it needs
-- below the last.
def highestPlace : Nat := 309

def placeCount : Nat := 309 + 1074 + 3

-- The fewest digits that read back as the same double, and the nearest to it of
-- those
def shortest (mantissa : Nat) (exponent : Int) : Decimal :=
  if mantissa = 0 then ⟨0, 0⟩
  else
    let top : Nat := (Nat.toDigits 10 (mantissa * Nat.pow 2 exponent.toNat + 1)).length
    search (.ofBinary mantissa exponent) (exponent - 2) placeCount (min top highestPlace)

-- The value rounded to that many places after the point, a half to the even digit
def rounded (mantissa : Nat) (exponent : Int) (places : Nat) : Decimal :=
  if exponent < 0 then
    ⟨roundHalfEven (mantissa * Nat.pow 10 places) (Nat.pow 2 exponent.natAbs), -places⟩
  else
    ⟨mantissa * Nat.pow 2 exponent.natAbs * Nat.pow 10 places, -places⟩

end Decimal

end Narrative
