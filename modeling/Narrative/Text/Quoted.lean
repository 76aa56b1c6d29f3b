import Narrative.Text.Numeral
import Narrative.Text.Printable

namespace Narrative

-- Quoted text. A quote mark or a backslash inside gets a backslash, line breaks
-- and their like have letters, and what cannot be printed is written by its
-- code point.
namespace Quoted

-- Whether a single quote is escaped too
structure Style where
  singleQuote : Bool

def Style.debug : Style := ⟨false⟩

def Style.data : Style := ⟨true⟩

def escapeChar (style : Style) (c : Char) : Text :=
  if c = '"' ∨ c = '\\' ∨ (c = '\'' ∧ style.singleQuote) then ['\\', c]
  else if c = '\n' then ['\\', 'n']
  else if c = '\t' then ['\\', 't']
  else if c = '\r' then ['\\', 'r']
  else if c = '\x00' then ['\\', '0']
  else if isPrintable c then [c]
  else ['\\', 'u', '\x7b'] ++ Numeral.hex false c.toNat ++ ['\x7d']

def encode (style : Style) (t : Text) : Text := '"' :: t.flatMap (escapeChar style) ++ ['"']

end Quoted

end Narrative
