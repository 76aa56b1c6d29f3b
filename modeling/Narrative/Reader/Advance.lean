import Narrative.Reader.Basic

namespace Narrative

variable {α κ σ : Type}

-- Why a reader stopped: it shows something, the session is over, or it cannot go on
inductive Pause where
  | shown
  | ended
  | refused (e : ReaderError)
  | unrendered (e : RenderError)
deriving DecidableEq, Repr

namespace Reader

-- The options of a set whose gates let them pass. Every option is asked.
def visible (host : Host α κ σ) (tree : Tree α) (context : κ) : List NodeId → σ → List NodeId × σ
  | [], s => ([], s)
  | id :: ids, s =>
    let (passed, s) := match tree.template? id with
      | some t => t.testGates host context id s
      | none => (false, s)
    let (others, s) := visible host tree context ids s
    (if passed then id :: others else others, s)

-- Leaves everything up to the innermost scope, that scope included.
def unwind (tree : Tree α) : List Frame → List Frame
  | [] => []
  | frame :: below => if tree.isScope frame.node then below else unwind tree below

-- The choices from an index on that are not separated by another node
def choiceRun (tree : Tree α) (children : List NodeId) (start : Nat) : List NodeId :=
  (children.drop start).takeWhile tree.isChoice

-- A line opens its children even when there is nothing of it to show.
def stepLine (host : Host α κ σ) (r : Reader κ) (below : List Frame) (child : Node α)
    (shown : Template α) (s : σ) : Option Pause × Reader κ × σ :=
  let (passed, s) := shown.testGates host r.context child.id s
  if !passed then (none, { r with frames := below }, s)
  else
    let opened := { r with frames := if child.children = [] then below else ⟨child.id, 0⟩ :: below }
    match shown.render host.render with
    | .error e => (some (.unrendered e), opened, s)
    | .ok t =>
      if Text.allBlank t then (none, opened, s)
      else (some .shown, { opened with shown := .line child.id }, s)

def stepChoices (host : Host α κ σ) (tree : Tree α) (r : Reader κ) (below : List Frame)
    (run : List NodeId) (s : σ) : Option Pause × Reader κ × σ :=
  let (ids, s) := visible host tree r.context run s
  let passed := { r with frames := below }
  if ids = [] then (none, passed, s) else (some .shown, { passed with shown := .choices ids }, s)

-- One move to the next child of the innermost frame. None is a move that shows
-- nothing, so that another follows. The end of a scope ends the session; only a
-- return leads back to the caller.
def step (host : Host α κ σ) (tree : Tree α) (r : Reader κ) (s : σ) : Option Pause × Reader κ × σ :=
  match r.frames with
  | [] => (some .ended, r, s)
  | frame :: below =>
    let children := tree.children frame.node
    match children[frame.next]? with
    | none =>
      if tree.isScope frame.node then (some .ended, r, s) else (none, { r with frames := below }, s)
    | some id =>
      let past (count : Nat) : List Frame := { frame with next := frame.next + count } :: below
      match tree.get? id with
      | none => (none, { r with frames := past 1 }, s)
      | some child =>
        match child.kind with
        | .line shown => stepLine host r (past 1) child shown s
        | .choice _ =>
          let run := choiceRun tree children frame.next
          stepChoices host tree r (past run.length) run s
        | .ret => (none, { r with frames := unwind tree (frame :: below) }, s)
        | .goTo _ (some destination) => (none, { r with frames := ⟨destination, 0⟩ :: past 1 }, s)
        | .goTo target none =>
          (some (.refused (.unresolvedGoTo target child.line)), { r with frames := past 1 }, s)
        | .comment _ | .closeChoice | .scope _ => (none, { r with frames := past 1 }, s)

-- Moves until there is a pause. A story that goes in circles without showing
-- anything uses up any number of moves.
def run (host : Host α κ σ) (tree : Tree α) : Nat → Reader κ → σ → Option (Pause × Reader κ × σ)
  | 0, _, _ => none
  | moves + 1, r, s =>
    match step host tree r s with
    | (some pause, r, s) => some (pause, r, s)
    | (none, r, s) => run host tree moves r s

-- On to the next line or set of choices. Pending choices have to be answered
-- first.
def advance (host : Host α κ σ) (tree : Tree α) (moves : Nat) (r : Reader κ) (s : σ) :
    Option (Pause × Reader κ × σ) :=
  match r.shown with
  | .choices _ => some (.refused .choicePending, r, s)
  | _ => run host tree moves { r with shown := .nothing } s

end Reader

end Narrative
