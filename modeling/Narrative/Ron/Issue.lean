import Narrative.Ron.Record
import Narrative.Script.Issue

namespace Narrative

namespace IssueKind

def ronName : IssueKind → Text
  | mixedIndentation => "MixedIndentation".toList
  | unexpectedIndentation => "UnexpectedIndentation".toList
  | tokenEmpty => "TokenEmpty".toList
  | tokenNonEmpty => "TokenNonEmpty".toList
  | unknownScope => "UnknownScope".toList

def ofRonName? (name : Text) : Option IssueKind := all.find? (·.ronName = name)

end IssueKind

namespace Issue

def toRon (i : Issue) : Text :=
  Ron.write
    [("kind".toList, i.kind.ronName), ("line".toList, Numeral.ofNat i.line),
      ("text".toList, Ron.writeOptionalText i.text), ("message".toList, Ron.writeText i.message)]

-- Only the text may be left out.
def ofRon? (t : Text) : Option Issue := do
  let r ← Ron.read? t
  if r.isNamed "Issue".toList &&
      r.hasOnly ["kind".toList, "line".toList, "text".toList, "message".toList] then
    let kind ← IssueKind.ofRonName? (← Ron.name? (← r.value? "kind".toList))
    let line ← Ron.count? (← r.value? "line".toList)
    let text ← Ron.optionalText? r.features ((r.value? "text".toList).getD [.word "None".toList])
    let message ← Ron.text? (← r.value? "message".toList)
    return ⟨kind, line, text, message⟩
  else
    none

end Issue

end Narrative
