import Narrative.Script.Parse

namespace Narrative

-- A story in a file has no arguments.
abbrev Story := Tree Empty

namespace Story

def host : Host Empty Unit Unit := ⟨nofun, nofun, nofun⟩

-- The story with what there is to say about it, or why there is none
def ofSource (options : ParseOptions) (source : Text) : Except Text (List Issue × Story) :=
  match Template.ofSource source [] with
  | .error e => .error e.message
  | .ok document =>
    match parse host.isGate document options with
    | (_, .error e) => .error e.message
    | (issues, .ok story) => .ok (issues, story)

end Story

end Narrative
