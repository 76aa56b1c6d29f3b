import Narrative.Text.Basic

namespace Narrative

-- What a reader hands to every gate
inductive Context where
  | unit
  | bool (b : Bool)
  | int (i : Int64)
  | text (t : Text)
deriving DecidableEq

namespace Context

def asBool? : Context → Option Bool
  | bool b => some b
  | _ => none

def asInt? : Context → Option Int64
  | int i => some i
  | _ => none

def asText? : Context → Option Text
  | text t => some t
  | _ => none

def sameKind : Context → Context → Bool
  | unit, unit => true
  | bool _, bool _ => true
  | int _, int _ => true
  | text _, text _ => true
  | _, _ => false

-- A context keeps its kind: a value of another kind does not replace it.
def replace? (now new : Context) : Option Context := if sameKind now new then some new else none

end Context

end Narrative
