import Narrative.Text.Basic

namespace Narrative

-- Decimal numerals of ASCII digits, with an optional sign in front when read.
-- A numeral out of the range that is asked for is none.
namespace Numeral

def ofNat (n : Nat) : Text := Nat.toDigits 10 n

def ofInt (i : Int) : Text := if i < 0 then '-' :: ofNat i.natAbs else ofNat i.natAbs

-- Hexadecimal digits, those from ten on in capitals or not
def hex (capitals : Bool) (n : Nat) : Text :=
  (Nat.toDigits 16 n).map fun c => if capitals then c.toUpper else c

def digitsValue (ds : Text) : Nat := Nat.ofDigitChars 10 ds 0

-- At least one digit, nothing else, and a value below the bound
def readDigits? (bound : Nat) (ds : Text) : Option Nat :=
  if ds ≠ [] ∧ ds.all Char.isDigit ∧ digitsValue ds < bound then some (digitsValue ds) else none

def readNat? (bound : Nat) : Text → Option Nat
  | '+' :: ds => readDigits? bound ds
  | ds => readDigits? bound ds

-- A signed numeral between minus the bound, inclusive, and the bound, exclusive
def readInt? (bound : Nat) : Text → Option Int
  | '+' :: ds => (readDigits? bound ds).map Int.ofNat
  | '-' :: ds => (readDigits? (bound + 1) ds).map fun n => -Int.ofNat n
  | ds => (readDigits? bound ds).map Int.ofNat

-- Counts and offsets fit into 64 bits, widths into 32 with a sign.
def countBound : Nat := Nat.pow 2 64

def widthBound : Nat := Nat.pow 2 31

end Numeral

end Narrative
