namespace Narrative

-- What the 64 bits of a double stand for. A finite one is its mantissa times a
-- power of two.
inductive Binary64 where
  | nan
  | infinite (negative : Bool)
  | finite (negative : Bool) (mantissa : Nat) (exponent : Int)
deriving DecidableEq, Repr

-- The quotient rounded to the nearest whole number, a half to the even one
def roundHalfEven (num den : Nat) : Nat :=
  let q := num / den
  let r := num % den
  if 2 * r < den then q
  else if den < 2 * r then q + 1
  else q + q % 2

namespace Binary64

def leastExponent : Int := -1074

-- The mantissa of a normal number has its leading bit at this power of two.
def leadingBit : Nat := Nat.pow 2 52

def ofBits (bits : UInt64) : Binary64 :=
  let n := bits.toNat
  let negative := decide (Nat.pow 2 63 ≤ n)
  let biased := n / Nat.pow 2 52 % Nat.pow 2 11
  let fraction := n % Nat.pow 2 52
  if biased = 2047 then
    if fraction = 0 then .infinite negative else .nan
  else if biased = 0 then
    .finite negative fraction leastExponent
  else
    .finite negative (leadingBit + fraction) (leastExponent + (biased - 1 : Nat))

-- The double nearest to a whole number below two to the 64, a half to the even
-- mantissa
def ofNat (negative : Bool) (n : Nat) : Binary64 :=
  let excess := n.log2 - 52
  .finite negative (roundHalfEven n (Nat.pow 2 excess)) excess

def ofInt (i : Int) : Binary64 := ofNat (decide (i < 0)) i.natAbs

end Binary64

end Narrative
