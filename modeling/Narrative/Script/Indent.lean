import Narrative.Text.Blank
import Narrative.Script.Issue

namespace Narrative

-- One step of indentation, as the first indented line writes it
structure Indent where
  unit : Text
deriving DecidableEq, Repr

-- How far a line is indented: in whole units, and whether the blanks are of the
-- document's own sort and a whole number of units
structure Measure where
  depth : Nat
  mixed : Bool
  whole : Bool
deriving DecidableEq, Repr

namespace Indent

def usesTabs (i : Indent) : Bool := i.unit.contains '\t'

-- Four spaces count as one tab, from the left.
def foldFours : Text → Text
  | ' ' :: ' ' :: ' ' :: ' ' :: t => '\t' :: foldFours t
  | c :: t => c :: foldFours t
  | [] => []

-- Blanks of the other sort become blanks of the document's: a tab one unit in a
-- document that indents by spaces, and four spaces or a space that is left over one
-- tab in a document that indents by tabs.
def normalize (i : Indent) (blanks : Text) : Text :=
  if i.usesTabs then (foldFours blanks).map fun c => if c = ' ' then '\t' else c
  else blanks.flatMap fun c => if c = '\t' then i.unit else [c]

def measure (i : Indent) (blanks : Text) : Measure :=
  let size := Text.byteSize (i.normalize blanks)
  { depth := size / Text.byteSize i.unit
    mixed := i.normalize blanks ≠ blanks
    whole := size % Text.byteSize i.unit = 0 }

end Indent

namespace Measure

def flush : Measure := ⟨0, false, true⟩

-- Whether the line is already to blame for its indentation when so many levels
-- are open
def blamed (m : Measure) (height : Nat) : Bool := !m.whole || height < m.depth

def faults (m : Measure) (height : Nat) : List Fault :=
  (if m.mixed then [.mixedIndentation] else []) ++
    (if !m.whole then [.partialUnit]
      else if height < m.depth then [.tooDeep m.depth height]
      else [])

end Measure

end Narrative
