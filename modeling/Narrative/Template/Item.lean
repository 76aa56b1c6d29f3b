import Narrative.Text.Blank
import Narrative.Text.Numeral

namespace Narrative

-- Which argument is shown, in which width and format
structure Placeholder where
  index : Nat
  alignment : Option Int
  format : Option Text
deriving DecidableEq, Repr

namespace Placeholder

-- Widest column that a placeholder may ask for, on either side
def maxAlignment : Nat := 1000

-- An alignment as written after the comma, with blanks around it
def readAlignment? (t : Text) : Option Int :=
  (Numeral.readInt? Numeral.widthBound (Text.trim t)).filter fun a => a.natAbs ≤ maxAlignment

-- What stands between the index and the closing brace: a comma and an alignment
-- or neither, then a colon and a format or neither. The first colon ends the
-- alignment.
def readSuffix? (suffix : Text) : Option (Option Int × Option Text) :=
  let format := match suffix.dropWhile (· ≠ ':') with
    | _ :: f => some f
    | [] => none
  match suffix.takeWhile (· ≠ ':') with
  | [] => some (none, format)
  | ',' :: a => (readAlignment? a).map fun alignment => (some alignment, format)
  | _ => none

end Placeholder

-- A placeholder with the digits and the suffix that it was written with
structure Hole where
  digits : Text
  suffix : Text
  placeholder : Placeholder
deriving DecidableEq, Repr

namespace Hole

-- Reads what stands between the braces.
def ofText? (inner : Text) : Option Hole :=
  let digits := inner.takeWhile Char.isDigit
  let suffix := inner.dropWhile Char.isDigit
  match Numeral.readDigits? Numeral.countBound digits, Placeholder.readSuffix? suffix with
  | some index, some (alignment, format) => some ⟨digits, suffix, ⟨index, alignment, format⟩⟩
  | _, _ => none

def inner (h : Hole) : Text := h.digits ++ h.suffix

-- The same hole for another argument
def withIndex (h : Hole) (index : Nat) : Hole :=
  { digits := Numeral.ofNat index
    suffix := h.suffix
    placeholder := { h.placeholder with index := index } }

theorem inner_of_ofText? {t : Text} {h : Hole} (e : ofText? t = some h) : h.inner = t := by
  simp only [ofText?] at e
  split at e
  · simp only [Option.some.injEq] at e
    subst e
    exact List.takeWhile_append_dropWhile
  · simp at e

end Hole

inductive Brace where
  | opening
  | closing
deriving DecidableEq, Repr

def Brace.char : Brace → Char
  | opening => '{'
  | closing => '}'

-- The smallest units of format text: a character, a brace written twice, and a
-- placeholder between single braces
inductive Item where
  | char (c : Char)
  | brace (b : Brace)
  | hole (h : Hole)
deriving DecidableEq, Repr

namespace Item

def text : Item → Text
  | char c => [c]
  | brace b => [b.char, b.char]
  | hole h => '{' :: h.inner ++ ['}']

def index? : Item → Option Nat
  | hole h => some h.placeholder.index
  | _ => none

-- The format text of a list of items
def print (items : List Item) : Text := items.flatMap text

-- Indices of the placeholders, from left to right
def indices (items : List Item) : List Nat := items.filterMap index?

end Item

end Narrative
