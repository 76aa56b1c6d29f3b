import Narrative.Host
import Narrative.Template.Scan
import Narrative.Template.Segment
import Narrative.Text.Quoted

namespace Narrative

-- Format text, the arguments that its placeholders refer to, and the segments that
-- it is shown by
structure Template (α : Type) where
  format : Text
  args : List α
  segments : List Segment
deriving DecidableEq, Repr

namespace Template

variable {α κ σ : Type}

-- Braces written twice, so that the text reads as itself inside format text
def escape (t : Text) : Text :=
  t.flatMap fun c => if c = '{' ∨ c = '}' then [c, c] else [c]

-- Every placeholder needs an argument. The leftmost one without is the offence.
def checkIndices (count : Nat) (items : List Item) : Except FormatError (List Item) :=
  match (Item.indices items).find? (count ≤ ·) with
  | some index => .error (.indexOutOfRange index count)
  | none => .ok items

def scan (format : Text) (count : Nat) : Except FormatError (List Item) :=
  match Item.scan format with
  | .ok items => checkIndices count items
  | .error e => .error e

def ofFormat (format : Text) (args : List α) : Except FormatError (Template α) :=
  (scan format args.length).map fun items => ⟨format, args, Segment.ofItems items⟩

-- A template without arguments that shows the text as it is
def ofText (t : Text) : Template α := ⟨escape t, [], Segment.ofText t⟩

-- The contents of a file, whose carriage returns do not count
def ofSource (source : Text) (args : List α) : Except FormatError (Template α) :=
  ofFormat (source.filter (· ≠ '\r')) args

def hasGate (isGate : α → Bool) (t : Template α) : Bool := t.args.any isGate

-- Every gate is asked, in the order of the arguments, also after one has refused:
-- a gate may remember that it was asked.
def testGates (host : Host α κ σ) (t : Template α) (context : κ) (node : NodeId) (s : σ) : Bool × σ :=
  (t.args.filter host.isGate).foldl
    (fun (passed, s) arg =>
      let (answer, s) := host.test arg context node s
      (passed && answer, s))
    (true, s)

-- Padded with spaces to the width, on the left for a positive alignment and on
-- the right for a negative one
def align (alignment : Option Int) (t : Text) : Text :=
  let width := (alignment.map fun a => min a.natAbs Placeholder.maxAlignment).getD 0
  let padding := List.replicate (width - t.length) ' '
  if alignment.any (0 < ·) then padding ++ t else t ++ padding

def renderSegments (render : α → Option Text → Except RenderError Text) (args : List α) :
    List Segment → Except RenderError Text
  | [] => .ok []
  | .literal t :: segments => (renderSegments render args segments).map (t ++ ·)
  | .placeholder p :: segments => do
    let arg ← match args[p.index]? with
      | some arg => .ok arg
      | none => .error (.missingArgument p.index)
    let shown ← render arg p.format
    let rest ← renderSegments render args segments
    return align p.alignment shown ++ rest

def render (render : α → Option Text → Except RenderError Text) (t : Template α) :
    Except RenderError Text :=
  renderSegments render t.args t.segments

-- Fields by name, with the arguments as the caller writes them
def debug (debugArg : α → Text) (t : Template α) : Text :=
  "Template \x7b format: ".toList ++ Quoted.encode .debug t.format ++ ", args: [".toList ++
    List.intercalate ", ".toList (t.args.map debugArg) ++ "] \x7d".toList

end Template

end Narrative
