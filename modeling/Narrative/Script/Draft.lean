import Narrative.Script.Indent
import Narrative.Script.Tree

namespace Narrative

variable {α : Type}

-- A node to be, with the node that it hangs under and its source line
structure Entry (α : Type) where
  kind : NodeKind α
  line : Nat
  raw : Text
  parent : Option NodeId
deriving DecidableEq, Repr

-- The open part of the current scope: the nodes that the last line hangs under,
-- innermost first and without the scope, and that line's node with whether lines
-- may be indented below it
structure Spine where
  scope : NodeId
  nested : List NodeId
  last : Option (NodeId × Bool)
deriving DecidableEq, Repr

namespace Spine

def ofScope (scope : NodeId) : Spine := ⟨scope, [], none⟩

-- Levels that a line may be indented to, if the last node lets it
def height (s : Spine) : Nat := s.nested.length + 1

def parent (s : Spine) : NodeId := s.nested.head?.getD s.scope

-- The spine for a line at that depth: levels further in are closed, and one
-- further out the last node is opened if it can own lines
def openAt (s : Spine) (depth : Nat) : Spine :=
  if depth < s.height then
    { s with nested := s.nested.drop (s.nested.length - depth) }
  else
    match s.last with
    | some (id, true) => { s with nested := id :: s.nested }
    | _ => s

-- Whether a line at that depth finds a node to hang under
def fits (s : Spine) (depth : Nat) : Bool := depth < s.height || s.last.any (·.2)

end Spine

-- A story while its lines are read. Before the first node there is no spine.
structure Draft (α : Type) where
  entries : Array (Entry α)
  indent : Option Indent
  spine : Option Spine
deriving DecidableEq, Repr

namespace Draft

def empty : Draft α := ⟨#[], none, none⟩

def height (d : Draft α) : Nat := (d.spine.map Spine.height).getD 0

-- The first blanks that are measured fix the unit.
def measure (d : Draft α) (blanks : Text) : Measure × Draft α :=
  if blanks = [] then (.flush, d)
  else
    let indent := d.indent.getD ⟨blanks⟩
    (indent.measure blanks, { d with indent := some indent })

def addScope (d : Draft α) (name : Text) (line : Nat) (raw : Text) : Draft α :=
  { d with
    entries := d.entries.push ⟨.scope name, line, raw, none⟩
    spine := some (.ofScope d.entries.size) }

-- Lines before the first header belong to a scope without a name.
def withScope (d : Draft α) (line : Nat) (raw : Text) : Draft α :=
  if d.spine.isNone then d.addScope [] line raw else d

-- Hangs a node under the innermost open one of a spine.
def addNode (d : Draft α) (isGate : α → Bool) (s : Spine) (kind : NodeKind α) (line : Nat)
    (raw : Text) : Draft α :=
  { d with
    entries := d.entries.push ⟨kind, line, raw, some s.parent⟩
    spine := some { s with last := some (d.entries.size, kind.canOwn isGate) } }

def hasScope (d : Draft α) (name : Text) : Bool :=
  d.entries.any fun e => match e.kind with
    | .scope other => other = name
    | _ => false

end Draft

end Narrative
