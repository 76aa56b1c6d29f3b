import Narrative.Content.Value

namespace Narrative

-- A gate with a label that decides by the context and the node
structure Condition (κ : Type) where
  label : Text
  holds : κ → NodeId → Bool

-- A condition on one view of the context. Without that view it does not hold.
def Condition.on {κ γ : Type} (view : κ → Option γ) (label : Text) (p : γ → Bool) : Condition κ :=
  ⟨label, fun context _ => (view context).any p⟩

-- What can be embedded in text: values, own text, the gate that lets each node
-- pass once, conditions, and objects ω of the host's own
inductive Content (κ ω : Type) where
  | value (v : Value)
  | text (t : Text)
  | once
  | condition (c : Condition κ)
  | custom (object : ω)

-- A content with the identity of its object
structure Object (κ ω : Type) where
  id : Nat
  content : Content κ ω

-- Which nodes each once gate has let pass
abbrev Seen := List (Nat × NodeId)

namespace Seen

def forget (seen : Seen) (id : Nat) : Seen := seen.filter (·.1 ≠ id)

-- A node passes the first time, and is remembered.
def visit (seen : Seen) (id : Nat) (node : NodeId) : Bool × Seen :=
  if (id, node) ∈ seen then (false, seen) else (true, (id, node) :: seen)

end Seen

namespace Object

variable {κ ω σ : Type}

def isOnce (o : Object κ ω) : Bool :=
  match o.content with
  | .once => true
  | _ => false

def render (custom : Host ω κ σ) (o : Object κ ω) (format : Option Text) : Except RenderError Text :=
  match o.content with
  | .value v => v.render format
  | .text t => .ok t
  | .once => .ok []
  | .condition _ => .ok []
  | .custom object => custom.render object format

def isGate (custom : Host ω κ σ) (o : Object κ ω) : Bool :=
  match o.content with
  | .value _ => false
  | .text _ => false
  | .once => true
  | .condition _ => true
  | .custom object => custom.isGate object

def test (custom : Host ω κ σ) (o : Object κ ω) (context : κ) (node : NodeId) (s : Seen × σ) :
    Bool × (Seen × σ) :=
  match o.content with
  | .value _ => (true, s)
  | .text _ => (true, s)
  | .once =>
    let (passed, seen) := Seen.visit s.1 o.id node
    (passed, seen, s.2)
  | .condition c => (c.holds context node, s)
  | .custom object =>
    let (passed, own) := custom.test object context node s.2
    (passed, s.1, own)

-- The objects of this library beside a host's own
def host (custom : Host ω κ σ) : Host (Object κ ω) κ (Seen × σ) where
  render := render custom
  isGate := isGate custom
  test := test custom

-- A once gate forgets what it has let pass. Nothing else can be cleared.
def clear? (o : Object κ ω) (s : Seen × σ) : Option (Seen × σ) :=
  if o.isOnce then some (s.1.forget o.id, s.2) else none

def debugCondition (label : Text) : Text :=
  "Condition \x7b label: ".toList ++ Quoted.encode .debug label ++ ", .. \x7d".toList

def debug (custom : ω → Text) (o : Object κ ω) : Text :=
  match o.content with
  | .value v => v.debug
  | .text t => Quoted.encode .debug t
  | .once => "Once".toList
  | .condition c => debugCondition c.label
  | .custom object => custom object

end Object

end Narrative
