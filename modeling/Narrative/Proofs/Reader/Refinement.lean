import Mathlib.Data.List.TakeWhile
import Narrative.Proofs.Reader.Interpreter
import Narrative.Proofs.Reader.Moves
import Narrative.Proofs.Script.WellFormed

namespace Narrative

variable {α κ σ : Type}

-- What a reader relies on: nodes stand at their ids, and it is scopes that are called.
structure Tree.Linked (tree : Tree α) : Prop where
  id_eq : ∀ {id : Nat} {node : Node α}, tree.get? id = some node → node.id = id
  isScope_root : tree.isScope tree.root = true
  isScope_destination : ∀ {id : Nat} {node : Node α} {target : Text} {destination : Nat},
    tree.get? id = some node → node.kind = .goTo target (some destination) →
    tree.isScope destination = true

theorem Draft.isScope_findScope? {d : Draft α} {name : Text} {id : Nat}
    (h : findScope? d.entries name = some id) : d.tree.isScope id = true := by
  obtain ⟨hlt, hname, -⟩ := Array.findIdx?_eq_some_iff_getElem.1 h
  rw [isScope_tree, Array.getElem?_eq_getElem hlt, Option.any_some]
  split at hname
  · next hkind => rw [hkind]; rfl
  · cases hname

theorem Tree.linked_of_parse {isGate : α → Bool} {document : Template α} {options : ParseOptions}
    {issues : List Issue} {tree : Tree α}
    (h : parse isGate document options = (issues, .ok tree)) : tree.Linked := by
  obtain ⟨found, d, hd, -, rfl⟩ := parse_eq_ok_iff.1 h
  obtain ⟨s, hs⟩ := d.exists_spine_withScope 0 []
  have hwell := ((Draft.sound_of_readLines hd).withScope 0 []).wellFormed (by simp [hs])
  refine ⟨hwell.id_eq, hwell.isScope_root, ?_⟩
  intro id node target destination hnode hkind
  obtain ⟨e, -, rfl⟩ := Draft.get?_tree_eq_some_iff.1 hnode
  obtain ⟨-, hfind⟩ := Draft.resolve_eq_goTo_iff.1 hkind
  exact Draft.isScope_findScope? hfind.symm

theorem Tree.exists_choice_of_isChoice {tree : Tree α} {id : NodeId} (h : tree.isChoice id = true) :
    ∃ node label, tree.get? id = some node ∧ node.kind = .choice label := by
  unfold Tree.isChoice at h
  cases hget : tree.get? id with
  | none =>
      rw [hget] at h
      cases h
  | some node =>
      rw [hget, Option.any_some] at h
      cases hkind : node.kind with
      | choice label => exact ⟨node, label, rfl, hkind⟩
      | _ =>
          rw [hkind] at h
          cases h

theorem Tree.isScope_of_isChoice {tree : Tree α} {id : NodeId} (h : tree.isChoice id = true) :
    tree.isScope id = false := by
  obtain ⟨node, label, hget, hkind⟩ := exists_choice_of_isChoice h
  simp [isScope, hget, hkind, NodeKind.isScope]

namespace Session

-- Between two pauses, on those frames
structure At (context : κ) (frames : List Frame) (t : Telling α σ) (x : Session α κ σ) : Prop where
  frames_eq : x.reader.frames = frames
  context_eq : x.reader.context = context
  telling_eq : x.telling = t
  going : x.ended = false
  idle : x.reader.isChoice = false

section At

variable {host : Host α κ σ} {tree : Tree α} {picks : Picks} {context : κ}
  {frames opened : List Frame} {t t' : Telling α σ} {x : Session α κ σ}

theorem At.move_eq (h : At context frames t x) :
    move host tree picks x =
      match Reader.step host.told tree ⟨frames, .nothing, context⟩ t with
      | (none, r, t) => ⟨r, t, false⟩
      | (some p, r, t) => paused p r t := by
  obtain ⟨rfl, rfl, rfl, hgoing, hidle⟩ := h
  unfold move
  refine (if_neg (ne_true_of_eq_false hgoing)).trans ?_
  refine (if_neg (ne_true_of_eq_false hidle)).trans ?_
  rfl

theorem At.move_silent (h : At context frames t x)
    (hstep : Reader.step host.told tree ⟨frames, .nothing, context⟩ t =
      (none, ⟨opened, .nothing, context⟩, t')) :
    At context opened t' (move host tree picks x) := by
  rw [h.move_eq, hstep]
  exact ⟨rfl, rfl, rfl, rfl, rfl⟩

theorem At.move_paused (h : At context frames t x) {p : Pause} {shown : Shown}
    (hstep : Reader.step host.told tree ⟨frames, .nothing, context⟩ t =
      (some p, ⟨opened, shown, context⟩, t'))
    (hp : p ≠ .ended) (hshown : ∀ ids, shown ≠ .choices ids) :
    At context opened (t'.pause p shown) (move host tree picks x) := by
  rw [h.move_eq, hstep]
  refine ⟨rfl, rfl, rfl, decide_eq_false hp, ?_⟩
  cases shown with
  | choices ids => exact absurd rfl (hshown ids)
  | _ => rfl

theorem At.move_ended (h : At context frames t x) {r : Reader κ}
    (hstep : Reader.step host.told tree ⟨frames, .nothing, context⟩ t = (some .ended, r, t))
    (hr : r.shown = .nothing) :
    (move host tree picks x).ended = true ∧
      (move host tree picks x).telling = t.pause .ended .nothing := by
  rw [h.move_eq, hstep]
  exact ⟨rfl, by rw [← hr]; rfl⟩

-- A set of options is shown, and then the option that is picked is opened.
theorem At.move_choices (h : At context frames t x) {options : List NodeId} {id : NodeId}
    (hstep : Reader.step host.told tree ⟨frames, .nothing, context⟩ t =
      (some .shown, ⟨opened, .choices options, context⟩, t'))
    (hid : picks.option? t'.answered options = some id) :
    At context (⟨id, 0⟩ :: opened)
      ((t'.pause .shown (.choices options)).pick (picks.index t'.answered options.length))
      ((move host tree picks)^[2] x) := by
  have hfirst : move host tree picks x = paused .shown ⟨opened, .choices options, context⟩ t' := by
    rw [h.move_eq, hstep]
  have hchoose : Reader.choose (⟨opened, .choices options, context⟩ : Reader κ)
      (picks.index t'.answered options.length) = .ok ⟨⟨id, 0⟩ :: opened, .nothing, context⟩ := by
    simp only [Reader.choose, show options[picks.index t'.answered options.length]? = some id from hid]
  have hsecond : move host tree picks (paused .shown ⟨opened, .choices options, context⟩ t') =
      ⟨⟨⟨id, 0⟩ :: opened, .nothing, context⟩, (t'.pause .shown (.choices options)).pick
        (picks.index t'.answered options.length), false⟩ := by
    have hanswer : move host tree picks (paused .shown ⟨opened, .choices options, context⟩ t') =
        answer picks (paused .shown ⟨opened, .choices options, context⟩ t') := rfl
    rw [hanswer, answer]
    simp only [paused, Reader.pending, Telling.pause]
    rw [hchoose]
    rfl
  rw [Function.iterate_succ_apply, Function.iterate_one, hfirst, hsecond]
  exact ⟨rfl, rfl, rfl, rfl, rfl⟩

end At

-- On the frame of a node, with that rest of its children to come
def Standing (tree : Tree α) (context : κ) (node : NodeId) (below : List Frame)
    (rest : List NodeId) (t : Telling α σ) (x : Session α κ σ) : Prop :=
  ∃ next, (tree.children node).drop next = rest ∧ At context (⟨node, next⟩ :: below) t x

-- What a session has come to when the play of children of a node has ended in a way. A
-- play that was cut short has taken at least so many moves.
def Comes (tree : Tree α) (context : κ) (least moves : Nat) (node : NodeId) (below : List Frame)
    (rest : List NodeId) (x : Session α κ σ) : Way × Telling α σ → Prop
  | (.finished, t) => Standing tree context node below rest t x
  | (.returned, t) => At context (Reader.unwind tree (⟨node, 0⟩ :: below)) t x
  | (.ended, t) => x.ended = true ∧ x.telling = t
  | (.cut, t) => least ≤ moves ∧ x.telling = t

def Reaches (host : Host α κ σ) (tree : Tree α) (picks : Picks) (context : κ) (least : Nat)
    (node : NodeId) (below : List Frame) (rest : List NodeId) (x : Session α κ σ)
    (o : Way × Telling α σ) : Prop :=
  ∃ m, Comes tree context least m node below rest ((move host tree picks)^[m] x) o

section Reaches

variable {host : Host α κ σ} {tree : Tree α} {picks : Picks} {context : κ} {least : Nat}
  {node : NodeId} {below : List Frame} {rest : List NodeId} {t : Telling α σ}
  {x : Session α κ σ} {o : Way × Telling α σ}

theorem At.standing {next : Nat} (h : At context (⟨node, next⟩ :: below) t x)
    (hrest : (tree.children node).drop next = rest) :
    Standing tree context node below rest t x :=
  ⟨next, hrest, h⟩

theorem getElem?_of_drop_eq_cons {l : List NodeId} {next : Nat} {id : NodeId} {ids : List NodeId}
    (h : l.drop next = id :: ids) : l[next]? = some id ∧ l.drop (next + 1) = ids := by
  constructor
  · have hhead := congrArg List.head? h
    rwa [List.head?_drop] at hhead
  · rw [← List.drop_drop, h, List.drop_one, List.tail_cons]

-- The step past the last child of a node that is not a scope
theorem Standing.leave (h : Standing tree context node below [] t x)
    (hscope : tree.isScope node = false) : At context below t (move host tree picks x) := by
  obtain ⟨next, hrest, hat⟩ := h
  apply hat.move_silent
  have hnone : (tree.children node)[next]? = none :=
    List.getElem?_eq_none (List.drop_eq_nil_iff.1 hrest)
  simp only [Reader.step, hnone, hscope, Bool.false_eq_true, if_false]

theorem Standing.end_scope (h : Standing tree context node below [] t x)
    (hscope : tree.isScope node = true) :
    (move host tree picks x).ended = true ∧
      (move host tree picks x).telling = t.pause .ended .nothing := by
  obtain ⟨next, hrest, hat⟩ := h
  have hnone : (tree.children node)[next]? = none :=
    List.getElem?_eq_none (List.drop_eq_nil_iff.1 hrest)
  refine hat.move_ended (r := ⟨⟨node, next⟩ :: below, .nothing, context⟩) ?_ rfl
  simp only [Reader.step, hnone, hscope, if_true]

theorem Standing.reaches (h : Standing tree context node below rest t x) :
    Reaches host tree picks context least node below rest x (.finished, t) :=
  ⟨0, h⟩

-- What is reached after some moves is reached. They count for a play that was cut short.
theorem Reaches.of_moves (k : Nat) {more : Nat} (hle : more ≤ least + k)
    (h : Reaches host tree picks context least node below rest ((move host tree picks)^[k] x) o) :
    Reaches host tree picks context more node below rest x o := by
  obtain ⟨m, hm⟩ := h
  rw [← Function.iterate_add_apply] at hm
  refine ⟨m + k, ?_⟩
  obtain ⟨way, t⟩ := o
  cases way with
  | cut => exact ⟨by have := hm.1; omega, hm.2⟩
  | _ => exact hm

theorem Reaches.andThen {next : Telling α σ → Way × Telling α σ} {ids : List NodeId}
    (h : Reaches host tree picks context least node below ids x o)
    (hnext : ∀ {t y}, Standing tree context node below ids t y →
      Reaches host tree picks context least node below rest y (next t)) :
    Reaches host tree picks context least node below rest x (Interpreter.andThen o next) := by
  obtain ⟨m, hm⟩ := h
  obtain ⟨way, t⟩ := o
  cases way with
  | finished => exact Reaches.of_moves m (Nat.le_add_right least m) (hnext hm)
  | _ => exact ⟨m, hm⟩

-- Back from the children of a node that is no scope
theorem Reaches.leave {parent : NodeId} {next : Nat}
    (h : Reaches host tree picks context least node (⟨parent, next⟩ :: below) [] x o)
    (hscope : tree.isScope node = false) (hrest : (tree.children parent).drop next = rest) :
    Reaches host tree picks context least parent below rest x o := by
  obtain ⟨m, hm⟩ := h
  obtain ⟨way, t⟩ := o
  cases way with
  | finished =>
      refine ⟨m + 1, ?_⟩
      rw [Function.iterate_succ_apply']
      exact (Standing.leave hm hscope).standing hrest
  | returned =>
      refine ⟨m, ?_⟩
      have hat : At context (Reader.unwind tree (⟨node, 0⟩ :: ⟨parent, next⟩ :: below)) t _ := hm
      rwa [Reader.unwind, if_neg (ne_true_of_eq_false hscope)] at hat
  | _ => exact ⟨m, hm⟩

-- Back from a scope, by a return
theorem Reaches.called {caller : NodeId} {next : Nat}
    (h : Reaches host tree picks context least node (⟨caller, next⟩ :: below) [] x o)
    (hscope : tree.isScope node = true) (hrest : (tree.children caller).drop next = rest) :
    Reaches host tree picks context least caller below rest x (Interpreter.called o) := by
  obtain ⟨m, hm⟩ := h
  obtain ⟨way, t⟩ := o
  cases way with
  | finished =>
      refine ⟨m + 1, ?_⟩
      rw [Function.iterate_succ_apply']
      exact Standing.end_scope hm hscope
  | returned =>
      refine ⟨m, ?_⟩
      have hat : At context (Reader.unwind tree (⟨node, 0⟩ :: ⟨caller, next⟩ :: below)) t _ := hm
      rw [Reader.unwind, if_pos hscope] at hat
      exact hat.standing hrest
  | _ => exact ⟨m, hm⟩

end Reaches

-- The play of what stands below is followed by the reader, whatever stands there.
structure Follows (host : Host α κ σ) (tree : Tree α) (picks : Picks) (context : κ) (depth : Nat)
    (inner : List NodeId → Telling α σ → Way × Telling α σ) : Prop where
  nil : ∀ t, inner [] t = (.finished, t) ∨ depth = 0 ∧ inner [] t = (.cut, t)
  reaches : ∀ {node below ids t x}, Standing tree context node below ids t x →
    Reaches host tree picks context depth node below [] x (inner ids t)

section Follows

variable {host : Host α κ σ} {tree : Tree α} {picks : Picks} {context : κ} {depth : Nat}
  {inner : List NodeId → Telling α σ → Way × Telling α σ} {node : NodeId} {below : List Frame}
  {ids : List NodeId} {t : Telling α σ} {x : Session α κ σ}

theorem At.move_line {frames opened : List Frame} {t' : Telling α σ} {id : NodeId}
    {shown : Template α} (h : At context frames t x)
    (hstep : Reader.step host.told tree ⟨frames, .nothing, context⟩ t =
      match shown.render host.render with
      | .error e => (some (.unrendered e), ⟨opened, .nothing, context⟩, t')
      | .ok text =>
        if Text.allBlank text then (none, ⟨opened, .nothing, context⟩, t')
        else (some .shown, ⟨opened, .line id, context⟩, t')) :
    At context opened (Interpreter.emit host id shown t') (move host tree picks x) := by
  unfold Interpreter.emit
  cases hrender : shown.render host.render with
  | error e =>
      simp only [hrender] at hstep
      exact h.move_paused hstep (by simp) (by simp)
  | ok text =>
      simp only [hrender] at hstep
      by_cases hblank : Text.allBlank text = true
      · rw [if_pos hblank] at hstep
        simp only [if_pos hblank]
        exact h.move_silent hstep
      · rw [if_neg hblank] at hstep
        simp only [if_neg hblank]
        exact h.move_paused hstep (by simp) (by simp)

-- A line, and what stands below it
theorem Follows.reaches_line (hinner : Follows host tree picks context depth inner)
    (hlinked : tree.Linked) {id : NodeId} {line : Node α} {shown : Template α}
    (hget : tree.get? id = some line) (hkind : line.kind = .line shown)
    (h : Standing tree context node below (id :: ids) t x) :
    Reaches host tree picks context (depth + 1) node below ids x
      (Interpreter.playNode host tree context inner id t) := by
  obtain ⟨next, hdrop, hat⟩ := h
  obtain ⟨hid, hrest⟩ := getElem?_of_drop_eq_cons hdrop
  have hself := hlinked.id_eq hget
  simp only [Interpreter.playNode, hget, hkind]
  rcases htest : shown.testGates host.told context id t with ⟨_ | _, t'⟩
  · refine ⟨1, At.standing (hat.move_silent ?_) hrest⟩
    simp only [Reader.step, hid, hget, hkind, Reader.stepLine, hself, htest, Bool.not_false, if_true]
  · have hopened : At context
        (if line.children = [] then ⟨node, next + 1⟩ :: below
          else ⟨id, 0⟩ :: ⟨node, next + 1⟩ :: below)
        (Interpreter.emit host id shown t') (move host tree picks x) := by
      apply hat.move_line
      simp only [Reader.step, hid, hget, hkind, Reader.stepLine, hself, htest, Bool.not_true,
        Bool.false_eq_true, if_false]
      rfl
    rw [if_pos rfl]
    by_cases hchildren : line.children = []
    · rw [if_pos hchildren] at hopened
      rw [hchildren]
      rcases hinner.nil (Interpreter.emit host id shown t') with he | ⟨hdepth, he⟩
      · rw [he]
        exact ⟨1, hopened.standing hrest⟩
      · rw [he, hdepth]
        exact ⟨1, Nat.le_refl 1, hopened.telling_eq⟩
    · rw [if_neg hchildren] at hopened
      have hbelow : (tree.children id).drop 0 = line.children := by
        rw [List.drop_zero, Tree.children, hget]
        rfl
      have hscope : tree.isScope id = false := by
        simp [Tree.isScope, hget, hkind, NodeKind.isScope]
      exact ((hinner.reaches (hopened.standing hbelow)).leave hscope hrest).of_moves 1 le_rfl

theorem Follows.reaches_goTo (hinner : Follows host tree picks context depth inner)
    (hlinked : tree.Linked) {id : NodeId} {goTo : Node α} {target : Text}
    {destination : Option NodeId} (hget : tree.get? id = some goTo)
    (hkind : goTo.kind = .goTo target destination)
    (h : Standing tree context node below (id :: ids) t x) :
    Reaches host tree picks context (depth + 1) node below ids x
      (Interpreter.playNode host tree context inner id t) := by
  obtain ⟨next, hdrop, hat⟩ := h
  obtain ⟨hid, hrest⟩ := getElem?_of_drop_eq_cons hdrop
  simp only [Interpreter.playNode, hget, hkind]
  cases destination with
  | none =>
      refine ⟨1, At.standing (hat.move_paused ?_ (by simp) (by simp)) hrest⟩
      simp only [Reader.step, hid, hget, hkind]
  | some destination =>
      have hopened : At context (⟨destination, 0⟩ :: ⟨node, next + 1⟩ :: below) t
          (move host tree picks x) :=
        hat.move_silent (by simp only [Reader.step, hid, hget, hkind])
      have hscope := hlinked.isScope_destination hget hkind
      exact ((hinner.reaches (hopened.standing rfl)).called hscope hrest).of_moves 1 le_rfl

-- One node that is not a choice
theorem Follows.reaches_playNode (hinner : Follows host tree picks context depth inner)
    (hlinked : tree.Linked) {id : NodeId} (hchoice : tree.isChoice id = false)
    (h : Standing tree context node below (id :: ids) t x) :
    Reaches host tree picks context (depth + 1) node below ids x
      (Interpreter.playNode host tree context inner id t) := by
  have hstanding := h
  obtain ⟨next, hdrop, hat⟩ := hstanding
  obtain ⟨hid, hrest⟩ := getElem?_of_drop_eq_cons hdrop
  cases hget : tree.get? id with
  | none =>
      simp only [Interpreter.playNode, hget]
      exact ⟨1, At.standing (hat.move_silent (by simp only [Reader.step, hid, hget])) hrest⟩
  | some child =>
      cases hkind : child.kind with
      | line shown => exact hinner.reaches_line hlinked hget hkind h
      | goTo target destination => exact hinner.reaches_goTo hlinked hget hkind h
      | choice label => simp [Tree.isChoice, hget, hkind, NodeKind.isChoice] at hchoice
      | ret =>
          have hreturned : At context (Reader.unwind tree (⟨node, next⟩ :: below)) t
              (move host tree picks x) :=
            hat.move_silent (by simp only [Reader.step, hid, hget, hkind])
          simp only [Interpreter.playNode, hget, hkind]
          exact ⟨1, hreturned⟩
      | scope _ | comment _ | closeChoice =>
          simp only [Interpreter.playNode, hget, hkind]
          refine ⟨1, At.standing (hat.move_silent ?_) hrest⟩
          simp only [Reader.step, hid, hget, hkind]

-- The choices next to each other, of which the first is at hand
theorem Follows.reaches_playChoices (hinner : Follows host tree picks context depth inner)
    {id : NodeId} (hchoice : tree.isChoice id = true)
    (h : Standing tree context node below (id :: ids) t x) :
    Reaches host tree picks context (depth + 1) node below (ids.dropWhile tree.isChoice) x
      (Interpreter.playChoices host tree picks context inner (id :: ids.takeWhile tree.isChoice) t) := by
  obtain ⟨next, hdrop, hat⟩ := h
  obtain ⟨hid, -⟩ := getElem?_of_drop_eq_cons hdrop
  have hrun : Reader.choiceRun tree (tree.children node) next =
      id :: ids.takeWhile tree.isChoice := by
    rw [Reader.choiceRun, hdrop, List.takeWhile_cons_of_pos hchoice]
  have hrest : (tree.children node).drop (next + (id :: ids.takeWhile tree.isChoice).length) =
      ids.dropWhile tree.isChoice := by
    have hsplit : (id :: ids.takeWhile tree.isChoice) ++ ids.dropWhile tree.isChoice = id :: ids := by
      rw [List.cons_append, List.takeWhile_append_dropWhile]
    rw [← List.drop_drop, hdrop, ← hsplit, List.drop_left]
  obtain ⟨child, label, hget, hkind⟩ := Tree.exists_choice_of_isChoice hchoice
  rw [Interpreter.playChoices, Interpreter.passing_eq_visible]
  rcases hvisible : Reader.visible host.told tree context (id :: ids.takeWhile tree.isChoice) t with
    ⟨options, t'⟩
  dsimp only
  by_cases hnone : options = []
  · rw [hnone, Picks.option?_nil]
    refine ⟨1, At.standing (hat.move_silent ?_) hrest⟩
    simp only [Reader.step, hid, hget, hkind, hrun, Reader.stepChoices, hvisible, hnone, if_true]
  · obtain ⟨picked, hmem, hpicked⟩ := picks.exists_option? t'.answered hnone
    have hstep : Reader.step host.told tree ⟨⟨node, next⟩ :: below, .nothing, context⟩ t =
        (some .shown, ⟨⟨node, next + (id :: ids.takeWhile tree.isChoice).length⟩ :: below,
          .choices options, context⟩, t') := by
      simp only [Reader.step, hid, hget, hkind, hrun, Reader.stepChoices, hvisible, if_neg hnone]
    have hopened := hat.move_choices hstep hpicked
    have hscope : tree.isScope picked = false := by
      have hsub := Reader.visible_sublist host.told tree context (id :: ids.takeWhile tree.isChoice) t
      rw [hvisible] at hsub
      rcases List.mem_cons.1 (hsub.subset hmem) with rfl | hrunning
      · exact Tree.isScope_of_isChoice hchoice
      · exact Tree.isScope_of_isChoice (List.mem_takeWhile_imp hrunning)
    rw [hpicked]
    exact ((hinner.reaches (hopened.standing rfl)).leave hscope hrest).of_moves 2 (Nat.le_succ _)

-- A list of nodes: a run of choices or another node, and then the rest
theorem Follows.reaches_playAll (hinner : Follows host tree picks context depth inner)
    (hlinked : tree.Linked) (h : Standing tree context node below ids t x) :
    Reaches host tree picks context (depth + 1) node below [] x
      (Interpreter.playAll host tree picks context inner ids t) := by
  induction hlength : ids.length using Nat.strongRecOn generalizing ids t x with
  | ind length ih =>
      cases ids with
      | nil =>
          rw [Interpreter.playAll]
          exact h.reaches
      | cons id ids =>
          rw [Interpreter.playAll]
          rw [List.length_cons] at hlength
          by_cases hchoice : tree.isChoice id = true
          · rw [if_pos hchoice]
            refine (hinner.reaches_playChoices hchoice h).andThen fun hrest => ?_
            have hle : (ids.dropWhile tree.isChoice).length ≤ ids.length :=
              (List.dropWhile_suffix _).length_le
            exact ih _ (by omega) hrest rfl
          · rw [if_neg hchoice]
            refine (hinner.reaches_playNode hlinked (eq_false_of_ne_true hchoice) h).andThen ?_
            exact fun hrest => ih _ (by omega) hrest rfl

end Follows

theorem follows_play (host : Host α κ σ) {tree : Tree α} (picks : Picks) (context : κ)
    (hlinked : tree.Linked) (depth : Nat) :
    Follows host tree picks context depth (Interpreter.play host tree picks context depth) := by
  induction depth with
  | zero =>
      refine ⟨fun _ => .inr ⟨rfl, rfl⟩, ?_⟩
      rintro node below ids t x ⟨next, -, hat⟩
      exact ⟨0, Nat.le_refl 0, hat.telling_eq⟩
  | succ depth ih =>
      refine ⟨fun t => .inl ?_, fun h => ih.reaches_playAll hlinked h⟩
      rw [Interpreter.play, Interpreter.playAll]

-- A story that is told to some depth is what the reader comes to. If it was cut short
-- there, the reader has made at least as many moves.
theorem exists_moves_tell (host : Host α κ σ) {tree : Tree α} (picks : Picks) (context : κ)
    (hlinked : tree.Linked) (s : σ) (depth : Nat) :
    ∃ m, ((move host tree picks)^[m] (start tree context s)).telling =
        Interpreter.tell host tree picks context depth s ∧
      (depth ≤ m ∨ ((move host tree picks)^[m] (start tree context s)).ended = true) := by
  have hstart : Standing tree context tree.root [] (tree.children tree.root) (.start s)
      (start tree context s) :=
    ⟨0, rfl, rfl, rfl, rfl, rfl, rfl⟩
  obtain ⟨m, hm⟩ := (follows_play host picks context hlinked depth).reaches hstart
  rw [Interpreter.tell]
  generalize Interpreter.play host tree picks context depth (tree.children tree.root) (.start s) = o
    at hm ⊢
  obtain ⟨way, t⟩ := o
  -- the end of the root and a return from it are seen with one more move
  have hlast : (move host tree picks ((move host tree picks)^[m] (start tree context s))).ended = true ∧
      (move host tree picks ((move host tree picks)^[m] (start tree context s))).telling =
        t.pause .ended .nothing →
      ∃ m, ((move host tree picks)^[m] (start tree context s)).telling = t.pause .ended .nothing ∧
        (depth ≤ m ∨ ((move host tree picks)^[m] (start tree context s)).ended = true) := by
    rw [← Function.iterate_succ_apply' (move host tree picks)]
    exact fun hend => ⟨m + 1, hend.2, .inr hend.1⟩
  cases way with
  | finished => exact hlast (Standing.end_scope hm hlinked.isScope_root)
  | returned =>
      have hat : At context (Reader.unwind tree [⟨tree.root, 0⟩]) t _ := hm
      rw [Reader.unwind, if_pos hlinked.isScope_root] at hat
      exact hlast (hat.move_ended rfl rfl)
  | ended => exact ⟨m, hm.2, .inr hm.1⟩
  | cut => exact ⟨m, hm.2, .inl hm.1⟩

end Session

-- The reader with its stack tells a story as the recursion over its nodes does: the gates
-- are asked, the lines and choices shown and the end reached in the same order. What calls
-- of the reader come to are some of its moves, and they see all pauses.
theorem session_follows_interpreter {isGate : α → Bool} {document : Template α}
    {options : ParseOptions} {issues : List Issue} {tree : Tree α}
    (h : parse isGate document options = (issues, .ok tree)) (host : Host α κ σ) (picks : Picks)
    (context : κ) (s : σ) :
    let moved (m : Nat) : Session α κ σ :=
      (Session.move host tree picks)^[m] (.start tree context s)
    (∀ n, ∃ bound, ∀ moves ≥ bound, ∀ depth ≥ bound,
      (moved moves).telling.events.take n =
        (Interpreter.tell host tree picks context depth s).events.take n) ∧
    (∀ steps count x, Session.calls host tree picks steps count (.start tree context s) = some x →
      ∃ moves, x = moved moves) ∧
    ∀ moves, ∃ steps count x,
      Session.calls host tree picks steps count (.start tree context s) = some x ∧
      x.telling.pauses = (moved moves).telling.pauses := by
  intro moved
  have hlinked := Tree.linked_of_parse h
  refine ⟨fun n => ?_, fun steps count x hx => ?_, fun moves => ?_⟩
  · obtain ⟨bound, hbound⟩ := Session.exists_stable host tree picks (.start tree context s) n
    refine ⟨bound, fun moves hmoves depth hdepth => ?_⟩
    obtain ⟨m, htelling, hm⟩ := Session.exists_moves_tell host picks context hlinked s depth
    rw [← htelling]
    have hmoved : (moved moves).telling.events.take n = (moved bound).telling.events.take n :=
      hbound moves hmoves
    rw [hmoved]
    rcases hm with hle | hended
    · exact (hbound m (hdepth.trans hle)).symm
    · -- nothing is added to a session that has ended
      have hlater := hbound (bound + m) (Nat.le_add_right bound m)
      rw [Function.iterate_add_apply, Session.iterate_move_of_ended host tree picks hended] at hlater
      exact hlater.symm
  · obtain ⟨moves, hmoves⟩ := Session.exists_moves_of_calls host tree picks hx
    exact ⟨moves, hmoves.symm⟩
  · exact Session.exists_calls host tree picks moves (.start tree context s)

-- A gate that refuses every second time, an option that calls a scope, and a return from it
theorem session_follows_interpreter_call :
    let host : Host Nat Unit Bool :=
      ⟨fun _ _ => .ok ['a'], fun _ => true, fun _ _ _ passes => (passes, !passes)⟩
    let picks : Picks := ⟨fun _ _ => 0, fun _ _ hcount => hcount⟩
    ∃ tree : Tree Nat,
      parse (fun _ => true) ⟨"> {0}\n  -> S\n> b\n== S\n<-".toList, [7], []⟩ .default =
        ([], .ok tree) ∧
      tree.nodes.size = 6 ∧
      ∀ n, ∃ bound, ∀ moves ≥ bound, ∀ depth ≥ bound,
        ((Session.move host tree picks)^[moves] (.start tree () true)).telling.events.take n =
          (Interpreter.tell host tree picks () depth true).events.take n := by
  intro host picks
  have h : parse (fun _ => true) ⟨"> {0}\n  -> S\n> b\n== S\n<-".toList, [7], []⟩ .default =
      ([], .ok ⟨#[⟨0, .scope [], 0, [1, 3]⟩,
        ⟨1, .choice ⟨"{0}".toList, [7], [.placeholder ⟨0, none, none⟩]⟩, 0, [2]⟩,
        ⟨2, .goTo ['S'] (some 4), 1, []⟩, ⟨3, .choice ⟨['b'], [], [.literal ['b']]⟩, 2, []⟩,
        ⟨4, .scope ['S'], 3, [5]⟩, ⟨5, .ret, 4, []⟩], 0⟩) := by
    decide +kernel
  exact ⟨_, h, rfl, (session_follows_interpreter h host picks () true).1⟩

end Narrative
