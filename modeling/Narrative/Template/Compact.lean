import Narrative.Template.Basic

namespace Narrative.Template

variable {α : Type}

-- The place of its index in the order, for a placeholder
def renumber (order : List Nat) : Item → Item
  | .hole h => .hole (h.withIndex (order.idxOf h.placeholder.index))
  | item => item

-- Distinct indices, in the order in which they first occur
def firstOccurrences (items : List Item) : List Nat := (Item.indices items).eraseDups

-- A template for one line of the document, with only the arguments that the line
-- mentions, numbered in the order in which it first does. All else of the
-- line's text stays as it was written.
def compactLine (document : Template α) (line : Text) : Except FormatError (Template α) :=
  (scan line document.args.length).map fun items =>
    let order := firstOccurrences items
    let compacted := items.map (renumber order)
    ⟨Item.print compacted, order.filterMap (document.args[·]?), Segment.ofItems compacted⟩

end Narrative.Template
