import Narrative.Number.Decimal
import Narrative.Text.Numeral

namespace Narrative

-- Written forms of numbers
namespace Decimal

-- The digits with a point before the last so many of them, and zeros in front
-- where they are too few
def pointed (digits : Text) (places : Nat) : Text :=
  let padded := List.replicate (places + 1 - digits.length) '0' ++ digits
  let whole := padded.take (padded.length - places)
  if places = 0 then padded else whole ++ '.' :: padded.drop (padded.length - places)

-- Never with an exponent
def positional (d : Decimal) : Text :=
  if d.exponent < 0 then pointed (Numeral.ofNat d.digits) d.exponent.natAbs
  else if d.digits = 0 then ['0']
  else Numeral.ofNat d.digits ++ List.replicate d.exponent.natAbs '0'

-- One digit before the point, and the exponent after the letter e
def scientific (d : Decimal) : Text :=
  let ds := Numeral.ofNat d.digits
  let mantissa := match ds with
    | first :: rest => if rest = [] then [first] else first :: '.' :: rest
    | [] => []
  mantissa ++ 'e' :: Numeral.ofInt (d.exponent + (ds.length - 1 : Nat))

end Decimal

namespace Binary64

def signed (negative : Bool) (t : Text) : Text := if negative then '-' :: t else t

-- The shortest digits that read back, positional, without a point when whole
def display : Binary64 → Text
  | nan => ['N', 'a', 'N']
  | infinite negative => signed negative ['i', 'n', 'f']
  | finite negative m e => signed negative (Decimal.shortest m e).positional

-- A binary fraction has no more decimal places than bits behind its point, so
-- places beyond those are zeros.
def exactPlaces (exponent : Int) (places : Nat) : Nat := min places (-exponent).toNat

-- Exactly so many places after the point
def fixed (x : Binary64) (places : Nat) : Text :=
  match x with
  | nan => ['N', 'a', 'N']
  | infinite negative => signed negative ['i', 'n', 'f']
  | finite negative m e =>
    let near := exactPlaces e places
    let digits := Decimal.pointed (Numeral.ofNat (Decimal.rounded m e near).digits) near
    let point := if near = 0 ∧ places ≠ 0 then ['.'] else []
    signed negative (digits ++ point ++ List.replicate (places - near) '0')

-- As a literal: with a point when whole, and with an exponent from ten to the
-- sixteenth on and below a ten-thousandth
def literal : Binary64 → Text
  | nan => ['N', 'a', 'N']
  | infinite negative => signed negative ['i', 'n', 'f']
  | finite negative m e =>
    let d := Decimal.shortest m e
    let size := d.exponent + (Numeral.ofNat d.digits).length
    if m = 0 then signed negative ['0', '.', '0']
    else if 16 < size ∨ size < -3 then signed negative d.scientific
    else if d.exponent < 0 then signed negative d.positional
    else signed negative (d.positional ++ ['.', '0'])

end Binary64

end Narrative
