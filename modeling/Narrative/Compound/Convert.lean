import Narrative.Compound.Basic

namespace Narrative

variable {α : Type}

namespace Inline

-- An alignment that a placeholder may ask for
def clampAlignment (a : Int) : Int :=
  max (-Placeholder.maxAlignment) (min a Placeholder.maxAlignment)

-- A format cannot hold what ends a placeholder.
def stripFormat (t : Text) : Text := t.filter (!Item.isDelimiter ·)

-- The placeholder for an object, within the limits of format text
def hole (i : Inline α) (index : Nat) : Hole :=
  let alignment := i.alignment.map clampAlignment
  let format := i.format.map stripFormat
  { digits := Numeral.ofNat index
    suffix := (alignment.map fun a => ',' :: Numeral.ofInt a).getD [] ++
      (format.map (':' :: ·)).getD []
    placeholder := ⟨index, alignment, format⟩ }

end Inline

namespace Compound

def itemOfChar (c : Char) : Item :=
  if c = '{' then .brace .opening else if c = '}' then .brace .closing else .char c

-- One placeholder for each marker, numbered from the index on
def itemsOf : Nat → Text → List (Inline α) → List Item
  | _, [], _ => []
  | index, c :: t, contents =>
    if c = marker then
      match contents with
      | i :: others => .hole (i.hole index) :: itemsOf (index + 1) t others
      | [] => itemsOf index t []
    else itemOfChar c :: itemsOf index t contents

-- The template that shows the same, with the objects that markers stand for as its
-- arguments
def toTemplate (c : Compound α) : Template α :=
  let items := itemsOf 0 c.text c.contents
  let marked := c.contents.take (markerCount c.text)
  ⟨Item.print items, marked.map (·.object), Segment.ofItems items⟩

def pushSegment (args : List α) (c : Compound α) : Segment → Compound α
  | .literal t => c.pushText t
  | .placeholder p =>
    match args[p.index]? with
    | some arg => c.pushContent ⟨arg, p.alignment, p.format⟩
    | none => c

def ofTemplate (t : Template α) : Compound α := t.segments.foldl (pushSegment t.args) empty

end Compound

end Narrative
