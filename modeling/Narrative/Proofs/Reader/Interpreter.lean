import Narrative.Proofs.Reader.Session

namespace Narrative

variable {α κ σ : Type}

-- How the play of a list of nodes ends: with its last node, at a return, with the session,
-- or at the bound on how deep the plays may be nested
inductive Way where
  | finished
  | returned
  | ended
  | cut

namespace Interpreter

-- Goes on only from what has played to its last node.
def andThen (o : Way × Telling α σ) (next : Telling α σ → Way × Telling α σ) : Way × Telling α σ :=
  match o with
  | (.finished, t) => next t
  | way => way

-- A scope is left by a return. The end of its text is the end of the session.
def called : Way × Telling α σ → Way × Telling α σ
  | (.finished, t) => (.ended, t.pause .ended .nothing)
  | (.returned, t) => (.finished, t)
  | way => way

-- Pauses at a line, unless there is nothing of it to show.
def emit (host : Host α κ σ) (id : NodeId) (shown : Template α) (t : Telling α σ) : Telling α σ :=
  match shown.render host.render with
  | .error e => t.pause (.unrendered e) .nothing
  | .ok text => if Text.allBlank text then t else t.pause .shown (.line id)

section Play

variable (host : Host α κ σ) (tree : Tree α) (picks : Picks) (context : κ)
  (inner : List NodeId → Telling α σ → Way × Telling α σ)

-- Asks the gates of one option after the other, and keeps those that pass.
def passing (ids : List NodeId) (t : Telling α σ) : List NodeId × Telling α σ :=
  ids.foldl
    (fun (kept, t) id =>
      match tree.template? id with
      | some label =>
        let (passed, t) := label.testGates host.told context id t
        (if passed then kept ++ [id] else kept, t)
      | none => (kept, t))
    ([], t)

-- A run of choices next to each other is one set of options.
def playChoices (ids : List NodeId) (t : Telling α σ) : Way × Telling α σ :=
  let (options, t) := passing host tree context ids t
  match picks.option? t.answered options with
  | none => (.finished, t)
  | some id =>
    let index := picks.index t.answered options.length
    inner (tree.children id) ((t.pause .shown (.choices options)).pick index)

def playNode (id : NodeId) (t : Telling α σ) : Way × Telling α σ :=
  match tree.get? id with
  | none => (.finished, t)
  | some node =>
    match node.kind with
    | .line shown =>
      let (passed, t) := shown.testGates host.told context id t
      if passed then inner node.children (emit host id shown t) else (.finished, t)
    | .goTo _ (some destination) => called (inner (tree.children destination) t)
    | .goTo target none =>
      (.finished, t.pause (.refused (.unresolvedGoTo target node.line)) .nothing)
    | .ret => (.returned, t)
    | .choice _ | .comment _ | .closeChoice | .scope _ => (.finished, t)

-- The nodes of a list in their order
def playAll : List NodeId → Telling α σ → Way × Telling α σ
  | [], t => (.finished, t)
  | id :: ids, t =>
    if tree.isChoice id then
      andThen (playChoices host tree picks context inner (id :: ids.takeWhile tree.isChoice) t)
        (playAll (ids.dropWhile tree.isChoice))
    else andThen (playNode host tree context inner id t) (playAll ids)
termination_by ids => ids.length
decreasing_by
  · exact Nat.lt_succ_of_le (List.dropWhile_suffix _).length_le
  · exact Nat.lt_succ_self _

end Play

-- What stands below a node is played one level deeper, and so is what a go-to leads to.
def play (host : Host α κ σ) (tree : Tree α) (picks : Picks) (context : κ) :
    Nat → List NodeId → Telling α σ → Way × Telling α σ
  | 0, _, t => (.cut, t)
  | depth + 1, ids, t =>
    playAll host tree picks context (play host tree picks context depth) ids t

-- A story from the start of its root, with plays nested to that depth at most
def tell (host : Host α κ σ) (tree : Tree α) (picks : Picks) (context : κ) (depth : Nat) (s : σ) :
    Telling α σ :=
  match play host tree picks context depth (tree.children tree.root) (.start s) with
  | (.finished, t) | (.returned, t) => t.pause .ended .nothing
  | (.ended, t) | (.cut, t) => t

section Passing

variable (host : Host α κ σ) (tree : Tree α) (context : κ)

theorem passing_eq_visible (ids : List NodeId) (t : Telling α σ) :
    passing host tree context ids t = Reader.visible host.told tree context ids t := by
  have hfold : ∀ (kept : List NodeId) (t : Telling α σ),
      ids.foldl (fun (kept, t) id =>
        match tree.template? id with
        | some label =>
          let (passed, t) := label.testGates host.told context id t
          (if passed then kept ++ [id] else kept, t)
        | none => (kept, t)) (kept, t) =
      (kept ++ (Reader.visible host.told tree context ids t).1,
        (Reader.visible host.told tree context ids t).2) := by
    induction ids with
    | nil =>
        intro kept t
        simp only [List.foldl_nil, Reader.visible, List.append_nil]
    | cons id ids ih =>
        intro kept t
        rw [List.foldl_cons]
        cases hlabel : tree.template? id with
        | none =>
            simp only [Reader.visible, hlabel, Bool.false_eq_true, if_false]
            exact ih kept t
        | some label =>
            simp only [Reader.visible, hlabel]
            rw [ih]
            split
            · simp only [List.append_assoc, List.singleton_append]
            · rfl
  exact hfold [] t

end Passing

end Interpreter

end Narrative
