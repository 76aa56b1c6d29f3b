import Narrative.Template.Basic

namespace Narrative

variable {α : Type}

inductive NodeKind (α : Type) where
  -- A block that go-tos lead to. Only what stands before the first header has the
  -- empty name.
  | scope (name : Text)
  | line (shown : Template α)
  -- One option. Its children play when it is chosen.
  | choice (label : Template α)
  | goTo (target : Text) (destination : Option NodeId)
  | ret
  | comment (note : Template α)
  -- Keeps two neighbouring sets of choices apart
  | closeChoice
deriving DecidableEq, Repr

namespace NodeKind

def isScope : NodeKind α → Bool
  | scope _ => true
  | _ => false

def isChoice : NodeKind α → Bool
  | choice _ => true
  | _ => false

def template? : NodeKind α → Option (Template α)
  | line t | choice t | comment t => some t
  | _ => none

-- Only what may stay closed at play can have lines indented below it.
def canOwn (isGate : α → Bool) : NodeKind α → Bool
  | scope _ | choice _ => true
  | line t => t.hasGate isGate
  | _ => false

end NodeKind

-- Lines count from zero.
structure Node (α : Type) where
  id : NodeId
  kind : NodeKind α
  line : Nat
  children : List NodeId
deriving DecidableEq, Repr

-- A parsed story. Each node stands at its own id.
structure Tree (α : Type) where
  nodes : Array (Node α)
  root : NodeId
deriving DecidableEq, Repr

namespace Tree

def get? (t : Tree α) (id : NodeId) : Option (Node α) := t.nodes[id]?

def children (t : Tree α) (id : NodeId) : List NodeId := ((t.get? id).map (·.children)).getD []

def template? (t : Tree α) (id : NodeId) : Option (Template α) :=
  (t.get? id).bind (·.kind.template?)

theorem template?_eq_some {t : Tree α} {id : NodeId} {node : Node α} {shown : Template α}
    (hnode : t.get? id = some node) (hkind : node.kind.template? = some shown) :
    t.template? id = some shown := by
  rw [template?, hnode, Option.bind_some, hkind]

def isScope (t : Tree α) (id : NodeId) : Bool := (t.get? id).any (·.kind.isScope)

def isChoice (t : Tree α) (id : NodeId) : Bool := (t.get? id).any (·.kind.isChoice)

-- A scope with a name, and where it is
def namedScope? (node : Node α) : Option (Text × NodeId) :=
  match node.kind with
  | .scope name => if name = [] then none else some (name, node.id)
  | _ => none

-- The scopes that go-tos can name
def scopes (t : Tree α) : List (Text × NodeId) := t.nodes.toList.filterMap namedScope?

-- In the order of the names
def scopesByName (t : Tree α) : List (Text × NodeId) :=
  t.scopes.mergeSort fun a b => !Text.precedes b.1 a.1

def scope? (t : Tree α) (name : Text) : Option NodeId := t.scopes.lookup name

end Tree

end Narrative
