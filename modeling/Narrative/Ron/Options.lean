import Narrative.Ron.Record
import Narrative.Script.Parse

namespace Narrative.ParseOptions

-- Options that are left out are off.
def ofRon? (t : Text) : Option ParseOptions := do
  let r ← Ron.read? t
  let flag (name : Text) : Option Bool := match r.value? name with
    | some value => Ron.bool? value
    | none => some false
  if r.isNamed "ParseOptions".toList && r.hasOnly ["strict".toList, "keep_comments".toList] then
    return ⟨← flag "strict".toList, ← flag "keep_comments".toList⟩
  else
    none

end Narrative.ParseOptions
