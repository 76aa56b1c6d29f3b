import Narrative.Template.Item

namespace Narrative

-- A stretch of text as shown, or a placeholder
inductive Segment where
  | literal (t : Text)
  | placeholder (p : Placeholder)
deriving DecidableEq, Repr

namespace Segment

-- A character in front joins a literal that follows it.
def consChar (c : Char) : List Segment → List Segment
  | literal t :: segments => literal (c :: t) :: segments
  | segments => literal [c] :: segments

-- Braces written twice stand for one; literals are never empty nor adjacent.
def ofItems : List Item → List Segment
  | [] => []
  | .char c :: items => consChar c (ofItems items)
  | .brace b :: items => consChar b.char (ofItems items)
  | .hole h :: items => placeholder h.placeholder :: ofItems items

-- A text without placeholders
def ofText (t : Text) : List Segment := if t = [] then [] else [literal t]

end Segment

end Narrative
