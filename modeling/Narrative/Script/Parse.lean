import Narrative.Script.Draft
import Narrative.Script.Statement
import Narrative.Template.Compact

namespace Narrative

variable {α : Type}

-- What stops the reading of a script
inductive ParseError where
  | duplicateScope (name : Text) (line : Nat)
  | format (e : FormatError)
deriving DecidableEq, Repr

def ParseError.message : ParseError → Text
  | duplicateScope name line =>
    "scope '".toList ++ name ++ "' on line ".toList ++ Numeral.ofNat (line + 1) ++
      " is already defined".toList
  | format e => "template error: ".toList ++ e.message

-- Strictness is for those who use the story: reading goes on in any case.
structure ParseOptions where
  strict : Bool
  keepComments : Bool
deriving DecidableEq, Repr

def ParseOptions.default : ParseOptions := ⟨false, false⟩

namespace Statement

-- What is wrong with a statement in itself
def faults : Statement → List Fault
  | header name => if name = [] then [.namelessHeader] else []
  | goTo target => if target = [] then [.namelessGoTo] else []
  | ret content => if content = [] then [] else [.returnContent content]
  | closeChoice content => if content = [] then [] else [.closeContent content]
  | _ => []

-- The node that a statement below a header makes, if any
def node? (document : Template α) : Statement → Except FormatError (Option (NodeKind α))
  | header _ => .ok none
  | goTo target => .ok (if target = [] then none else some (.goTo target none))
  | ret _ => .ok (some .ret)
  | choice label => (document.compactLine label).map fun t => some (.choice t)
  | closeChoice _ => .ok (some .closeChoice)
  | comment note => (document.compactLine note).map fun t => some (.comment t)
  | line shown => (document.compactLine shown).map fun t => some (.line t)

end Statement

-- The issues come with the outcome, also with an error.
abbrev Reported (β : Type) := List Issue × Except ParseError β

namespace Draft

-- A header opens its scope, wherever it is indented to. Two of one name are an
-- error.
def readHeader (d : Draft α) (name : Text) (line : Nat) (raw : Text) : Reported (Draft α) :=
  let (m, measured) := d.measure (Text.leadingBlanks raw)
  let indented := if 0 < min m.depth d.height ∧ ¬ m.blamed d.height then [Fault.indentedHeader] else []
  let issues := (m.faults d.height ++ indented ++ (Statement.header name).faults).map (.ofFault line raw)
  if name = [] then (issues, .ok measured)
  else if measured.hasScope name then (issues, .error (.duplicateScope name line))
  else (issues, .ok (measured.addScope name line raw))

-- Any other statement hangs a node below the spine, one level further in than is
-- open at most.
def readStatement (d : Draft α) (isGate : α → Bool) (document : Template α) (s : Statement)
    (line : Nat) (raw : Text) : Reported (Draft α) :=
  let d := d.withScope line raw
  let (m, d) := d.measure (Text.leadingBlanks raw)
  let faults := m.faults d.height
  match s.node? document, d.spine with
  | .error e, _ => (faults.map (.ofFault line raw), .error (.format e))
  | .ok (some kind), some spine =>
    let depth := min m.depth d.height
    let unowned := if spine.fits depth || m.blamed d.height then [] else [Fault.cannotOwn]
    ((faults ++ s.faults ++ unowned).map (.ofFault line raw),
      .ok (d.addNode isGate (spine.openAt depth) kind line raw))
  | .ok _, _ => ((faults ++ s.faults).map (.ofFault line raw), .ok d)

-- Blank lines and comments that are not kept leave no trace.
def readLine (d : Draft α) (isGate : α → Bool) (document : Template α) (options : ParseOptions)
    (line : Nat) (raw : Text) : Reported (Draft α) :=
  if Text.allBlank raw then ([], .ok d)
  else match Statement.ofBody (Text.trimStart raw) with
    | .header name => d.readHeader name line raw
    | .comment note =>
      if options.keepComments then d.readStatement isGate document (.comment note) line raw
      else ([], .ok d)
    | s => d.readStatement isGate document s line raw

-- The lines from the given number on
def readLines (isGate : α → Bool) (document : Template α) (options : ParseOptions) :
    Draft α → Nat → List Text → Reported (Draft α)
  | d, _, [] => ([], .ok d)
  | d, line, raw :: rest =>
    match d.readLine isGate document options line raw with
    | (issues, .error e) => (issues, .error e)
    | (issues, .ok d) =>
      let (more, outcome) := readLines isGate document options d (line + 1) rest
      (issues ++ more, outcome)

def childrenOf (entries : Array (Entry α)) (id : NodeId) : List NodeId :=
  (List.range entries.size).filter fun child => (entries[child]?.bind (·.parent)) = some id

-- A story without a node has a root all the same.
def closed (d : Draft α) : Draft α := d.withScope 0 []

-- The first scope of that name
def findScope? (entries : Array (Entry α)) (name : Text) : Option NodeId :=
  entries.findIdx? fun e => match e.kind with
    | .scope other => other = name
    | _ => false

def resolve (entries : Array (Entry α)) : NodeKind α → NodeKind α
  | .goTo target _ => .goTo target (findScope? entries target)
  | kind => kind

-- A go-to to a scope that is not there is reported after the last line.
def unknownScope? (entries : Array (Entry α)) (e : Entry α) : Option Issue :=
  match e.kind with
  | .goTo target _ =>
    if (findScope? entries target).isNone then some (.ofFault e.line e.raw (.unknownScope target))
    else none
  | _ => none

def tree (d : Draft α) : Tree α :=
  let node (id : Nat) (e : Entry α) : Node α :=
    ⟨id, resolve d.entries e.kind, e.line, childrenOf d.entries id⟩
  ⟨d.entries.mapIdx node, 0⟩

end Draft

-- Reads a script, line by line, and then finds where its go-tos lead.
def parse (isGate : α → Bool) (document : Template α) (options : ParseOptions) : Reported (Tree α) :=
  match Draft.readLines isGate document options .empty 0 (Text.lines document.format) with
  | (issues, .error e) => (issues, .error e)
  | (issues, .ok d) =>
    let d := d.closed
    (issues ++ d.entries.toList.filterMap (Draft.unknownScope? d.entries), .ok d.tree)

end Narrative
