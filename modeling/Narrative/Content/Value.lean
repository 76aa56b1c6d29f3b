import Narrative.Host
import Narrative.Number.Written
import Narrative.Text.Quoted

namespace Narrative

-- A plain value that can be shown inside text
inductive Value where
  | text (t : Text)
  | float (bits : UInt64)
  | int (i : Int64)
  | bool (b : Bool)
deriving DecidableEq

namespace Value

-- The width of a format that is a letter, in either case, and a numeral. No numeral
-- is zero.
def width? (letter : Char) : Text → Option Nat
  | head :: rest =>
    if head.toUpper = letter then
      if rest = [] then some 0 else Numeral.readNat? Numeral.countBound rest
    else
      none
  | [] => none

-- Nothing is written wider or with more decimal places than this.
def maxWidth : Nat := 65535

def withinWidth (write : Nat → Text) (width : Nat) : Except RenderError Text :=
  if maxWidth < width then .error (.formatTooWide width) else .ok (write width)

def padZeros (width : Nat) (digits : Text) : Text :=
  List.replicate (width - digits.length) '0' ++ digits

-- Padding counts digits, not the sign.
def renderPadded (i : Int64) (width : Nat) : Text :=
  Binary64.signed (i.toInt < 0) (padZeros width (Numeral.ofNat i.toInt.natAbs))

def renderBool (b : Bool) : Text := if b then "true".toList else "false".toList

-- X and x are the two's complement in hexadecimal, D pads with zeros, F goes
-- through the nearest double. Any other format is ignored.
def renderInt (i : Int64) : Option Text → Except RenderError Text
  | none => .ok (Numeral.ofInt i.toInt)
  | some format =>
    if format = ['X'] then .ok (Numeral.hex true i.toUInt64.toNat)
    else if format = ['x'] then .ok (Numeral.hex false i.toUInt64.toNat)
    else match width? 'D' format with
      | some width => withinWidth (renderPadded i) width
      | none => match width? 'F' format with
        | some places => withinWidth ((Binary64.ofInt i.toInt).fixed) places
        | none => .ok (Numeral.ofInt i.toInt)

def renderFloat (bits : UInt64) (format : Option Text) : Except RenderError Text :=
  match format.bind (width? 'F') with
  | some places => withinWidth ((Binary64.ofBits bits).fixed) places
  | none => .ok (Binary64.ofBits bits).display

def render (v : Value) (format : Option Text) : Except RenderError Text :=
  match v with
  | text t => .ok t
  | bool b => .ok (renderBool b)
  | int i => renderInt i format
  | float bits => renderFloat bits format

-- As a constructor with its argument
def debug (v : Value) : Text :=
  let call (name : String) (t : Text) : Text := name.toList ++ '(' :: t ++ [')']
  match v with
  | text t => call "String" (Quoted.encode .debug t)
  | float bits => call "Float" (Binary64.ofBits bits).literal
  | int i => call "Int" (Numeral.ofInt i.toInt)
  | bool b => call "Bool" (renderBool b)

end Value

end Narrative
