import Narrative.Script.Parse

namespace Narrative

variable {α : Type}

-- Format text of one line from which nothing is trimmed, with the items that it scans to
structure Phrase (args : List α) where
  text : Text
  items : List Item
  scan_eq : Template.scan text args.length = .ok items
  trim_eq : Text.trim text = text
  single : '\n' ∉ text

namespace Phrase

variable {args : List α}

-- What statements begin with that are no lines
def marks : List Text := ["==".toList, "->".toList, "<".toList, ">".toList, "//".toList]

def IsLine (p : Phrase args) : Prop := p.text ≠ [] ∧ ∀ mark ∈ marks, ¬ mark <+: p.text

def mentions (p : Phrase args) (isGate : α → Bool) : Bool :=
  (Item.indices p.items).any fun index => args[index]?.any isGate

-- The phrase with the arguments that it mentions, in the order in which it first does
def template (p : Phrase args) : Template α :=
  let order := Template.firstOccurrences p.items
  let items := p.items.map (Template.renumber order)
  ⟨Item.print items, order.filterMap (args[·]?), Segment.ofItems items⟩

end Phrase

structure ScopeName where
  text : Text
  ne_nil : text ≠ []
  trim_eq : Text.trim text = text
  single : '\n' ∉ text
  unbraced : '{' ∉ text ∧ '}' ∉ text

-- What a story is written with, below its headers
inductive Beat (args : List α) where
  | line (shown : Phrase args) (h : shown.IsLine)
  | choice (label : Phrase args)
  | goTo (target : ScopeName)
  | ret
  | closeChoice

namespace Beat

variable {args : List α}

-- Whether others may stand below it
def owns (isGate : α → Bool) : Beat args → Bool
  | line shown _ => shown.mentions isGate
  | choice _ => true
  | _ => false

def target? : Beat args → Option Text
  | goTo target => some target.text
  | _ => none

def body : Beat args → Text
  | line shown _ => shown.text
  | choice label => "> ".toList ++ label.text
  | goTo target => "-> ".toList ++ target.text
  | ret => "<-".toList
  | closeChoice => "<".toList

def kind (destination : Text → Option NodeId) : Beat args → NodeKind α
  | line shown _ => .line shown.template
  | choice label => .choice label.template
  | goTo target => .goTo target.text (destination target.text)
  | ret => .ret
  | closeChoice => .closeChoice

end Beat

-- Blanks that every level is indented by
structure Margin where
  tabs : Bool
  width : Nat
  pos : 0 < width

namespace Margin

def blank (m : Margin) : Char := if m.tabs then '\t' else ' '

def blanks (m : Margin) (level : Nat) : Text := List.replicate (level * m.width) m.blank

end Margin

-- A first beat with all that stands below it, and the beats that follow it
inductive Beats (args : List α) where
  | nil
  | cons (beat : Beat args) (below rest : Beats args)

namespace Beats

variable {args : List α}

def size : Beats args → Nat
  | nil => 0
  | cons _ below rest => 1 + below.size + rest.size

-- Only beats that own others have some below them.
def Owned (isGate : α → Bool) : Beats args → Prop
  | nil => True
  | cons beat below rest =>
    (below = nil ∨ beat.owns isGate = true) ∧ below.Owned isGate ∧ rest.Owned isGate

-- The names that go-tos lead to
def targets : Beats args → List Text
  | nil => []
  | cons beat below rest => beat.target?.toList ++ below.targets ++ rest.targets

def lines (m : Margin) (level : Nat) : Beats args → List Text
  | nil => []
  | cons beat below rest =>
    (m.blanks level ++ beat.body) :: (below.lines m (level + 1) ++ rest.lines m level)

-- Where the first one and those beside it stand when nodes are numbered depth first
def ids (id : Nat) : Beats args → List NodeId
  | nil => []
  | cons _ below rest => id :: rest.ids (id + 1 + below.size)

def nodes (destination : Text → Option NodeId) (id line : Nat) : Beats args → List (Node α)
  | nil => []
  | cons beat below rest =>
    ⟨id, beat.kind destination, line, below.ids (id + 1)⟩ ::
      (below.nodes destination (id + 1) (line + 1) ++
        rest.nodes destination (id + 1 + below.size) (line + 1 + below.size))

-- The nodes of what no header stands in front of. They have a scope without a name.
def untitled (destination : Text → Option NodeId) : Beats args → List (Node α)
  | nil => []
  | beats@(cons _ _ _) => ⟨0, .scope [], 0, beats.ids 1⟩ :: beats.nodes destination 1 0

-- How many those are
def leading : Beats args → Nat
  | nil => 0
  | beats@(cons _ _ _) => 1 + beats.size

end Beats

structure Chapter (args : List α) where
  name : ScopeName
  beats : Beats args

namespace Chapter

variable {args : List α}

def header (c : Chapter args) : Text := "== ".toList ++ c.name.text ++ " ==".toList

def lines (m : Margin) (c : Chapter args) : List Text := c.header :: c.beats.lines m 0

-- The scopes of chapters in a row, of which the first has the given place
def scopeIds : Nat → List (Chapter args) → List (Text × NodeId)
  | _, [] => []
  | id, c :: rest => (c.name.text, id) :: scopeIds (id + 1 + c.beats.size) rest

def nodes (destination : Text → Option NodeId) : Nat → Nat → List (Chapter args) → List (Node α)
  | _, _, [] => []
  | id, line, c :: rest =>
    ⟨id, .scope c.name.text, line, c.beats.ids (id + 1)⟩ ::
      (c.beats.nodes destination (id + 1) (line + 1) ++
        nodes destination (id + 1 + c.beats.size) (line + 1 + c.beats.size) rest)

end Chapter

-- A story in the abstract: beats without a header, and chapters. Its go-tos lead to those.
structure Outline (isGate : α → Bool) (args : List α) where
  preamble : Beats args
  chapters : List (Chapter args)
  present : preamble ≠ .nil ∨ chapters ≠ []
  distinct : (chapters.map (·.name.text)).Nodup
  owned : ∀ beats ∈ preamble :: chapters.map (·.beats), beats.Owned isGate
  declared : ∀ beats ∈ preamble :: chapters.map (·.beats), ∀ target ∈ beats.targets,
    target ∈ chapters.map (·.name.text)

namespace Outline

variable {isGate : α → Bool} {args : List α}

def lines (o : Outline isGate args) (m : Margin) : List Text :=
  o.preamble.lines m 0 ++ o.chapters.flatMap (Chapter.lines m)

def print (o : Outline isGate args) (m : Margin) : Text := List.intercalate ['\n'] (o.lines m)

def scopeId? (o : Outline isGate args) (name : Text) : Option NodeId :=
  (Chapter.scopeIds o.preamble.leading o.chapters).lookup name

-- The story as a tree, with nodes depth first and lines in the order of the text
def tree (o : Outline isGate args) : Tree α :=
  ⟨(o.preamble.untitled o.scopeId? ++
    Chapter.nodes o.scopeId? o.preamble.leading o.preamble.size o.chapters).toArray, 0⟩

end Outline

end Narrative
