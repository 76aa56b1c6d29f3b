import Narrative.Script.Tree

namespace Narrative

variable {α κ : Type}

inductive ReaderError where
  | choicePending
  | noPendingChoice
  | choiceOutOfRange (index count : Nat)
  | unresolvedGoTo (target : Text) (line : Nat)
deriving DecidableEq, Repr

def ReaderError.message : ReaderError → Text
  | choicePending => "advance called while a choice is pending".toList
  | noPendingChoice => "choose called with no pending choice".toList
  | choiceOutOfRange index count =>
    "choice ".toList ++ Numeral.ofNat index ++ " is out of range for ".toList ++
      Numeral.ofNat count ++ " pending choices".toList
  | unresolvedGoTo target line =>
    "go-to '".toList ++ target ++ "' on line ".toList ++ Numeral.ofNat (line + 1) ++
      " has no destination".toList

-- A node whose children are being played, and the index of the next of them
structure Frame where
  node : NodeId
  next : Nat
deriving DecidableEq, Repr

-- What the reader stopped at. Choices wait for an answer.
inductive Shown where
  | nothing
  | line (id : NodeId)
  | choices (ids : List NodeId)
deriving DecidableEq, Repr

-- A place in a story. The innermost frame comes first.
structure Reader (κ : Type) where
  frames : List Frame
  shown : Shown
  context : κ
deriving DecidableEq, Repr

inductive Output (α : Type) where
  | line (shown : Template α)
  | choices (labels : List (Template α))

namespace Reader

def ofTree (tree : Tree α) (context : κ) : Reader κ := ⟨[⟨tree.root, 0⟩], .nothing, context⟩

def pending (r : Reader κ) : List NodeId :=
  match r.shown with
  | .choices ids => ids
  | _ => []

def isChoice (r : Reader κ) : Bool :=
  match r.shown with
  | .choices _ => true
  | _ => false

def line? (r : Reader κ) : Option NodeId :=
  match r.shown with
  | .line id => some id
  | _ => none

def output (tree : Tree α) (r : Reader κ) : Option (Output α) :=
  match r.shown with
  | .nothing => none
  | .line id => (tree.template? id).map .line
  | .choices ids => some (.choices (ids.filterMap tree.template?))

-- Goes into the option with that index of the pending choices.
def choose (r : Reader κ) (index : Nat) : Except ReaderError (Reader κ) :=
  match r.shown with
  | .choices ids =>
    match ids[index]? with
    | some id => .ok { r with frames := ⟨id, 0⟩ :: r.frames, shown := .nothing }
    | none => .error (.choiceOutOfRange index ids.length)
  | _ => .error .noPendingChoice

-- Back to the start of the outermost frame. What gates remember stays.
def reset (tree : Tree α) (r : Reader κ) : Reader κ :=
  let outermost := match r.frames.getLast? with
    | some frame => { frame with next := 0 }
    | none => ⟨tree.root, 0⟩
  { r with frames := [outermost], shown := .nothing }

def debugId (id : NodeId) : Text := "NodeId(".toList ++ Numeral.ofNat id ++ [')']

def debugFrame (f : Frame) : Text :=
  "Frame \x7b node: ".toList ++ debugId f.node ++ ", next: ".toList ++ Numeral.ofNat f.next ++
    " \x7d".toList

def debugList (ts : List Text) : Text := '[' :: List.intercalate ", ".toList ts ++ [']']

-- Fields by name, the outermost frame first
def debug (r : Reader κ) : Text :=
  "Reader \x7b stack: ".toList ++ debugList (r.frames.reverse.map debugFrame) ++
    ", pending: ".toList ++ debugList (r.pending.map debugId) ++
    ", is_choice: ".toList ++ (if r.isChoice then "true" else "false").toList ++
    ", line: ".toList ++ (r.line?.map fun id => "Some(".toList ++ debugId id ++ [')']).getD "None".toList ++
    ", .. \x7d".toList

end Reader

end Narrative
