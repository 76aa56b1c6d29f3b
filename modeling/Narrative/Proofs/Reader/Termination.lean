import Narrative.Proofs.Reader.Ranking

namespace Narrative

variable {α κ σ : Type} {tree : Tree α}

-- What is due for the children that a frame has not come to, and for leaving it
def Frame.due (tree : Tree α) (price : NodeId → Nat) (frame : Frame) : Nat :=
  1 + (((tree.children frame.node).drop frame.next).map fun child =>
    1 + price (tree.entrance child)).sum

namespace Reader

-- What is due for all frames
def dueFrames (tree : Tree α) (price : NodeId → Nat) (frames : List Frame) : Nat :=
  (frames.map (Frame.due tree price)).sum

-- and for the options that are pending
def due (tree : Tree α) (price : NodeId → Nat) (r : Reader κ) : Nat :=
  dueFrames tree price r.frames + (r.pending.map price).sum

variable {host : Host α κ σ} (price : NodeId → Nat) {r r' : Reader κ} {s s' : σ} {frame : Frame}
  {below : List Frame} {id : NodeId} {child : Node α}

@[simp] theorem dueFrames_cons (frame : Frame) (below : List Frame) :
    dueFrames tree price (frame :: below) = Frame.due tree price frame + dueFrames tree price below := by
  rw [dueFrames, List.map_cons, List.sum_cons, dueFrames]

theorem due_start_le (hcovers : tree.Covers price) (id : NodeId) :
    Frame.due tree price ⟨id, 0⟩ ≤ price id := by
  rw [Frame.due, List.drop_zero]
  exact hcovers id

theorem dueFrames_unwind_le (frames : List Frame) :
    dueFrames tree price (unwind tree frames) ≤ dueFrames tree price frames := by
  induction frames with
  | nil => exact Nat.le_refl _
  | cons frame below ih =>
      rw [unwind, dueFrames_cons]
      split <;> omega

-- A return gives up what was due for the frame that it stands in.
theorem dueFrames_unwind_lt (frame : Frame) (below : List Frame) :
    dueFrames tree price (unwind tree (frame :: below)) < dueFrames tree price (frame :: below) := by
  have hle : dueFrames tree price (unwind tree below) ≤ dueFrames tree price below :=
    dueFrames_unwind_le price below
  have hpos : 0 < Frame.due tree price frame := by
    rw [Frame.due]
    omega
  rw [unwind, dueFrames_cons]
  split <;> omega

theorem due_eq (hchild : (tree.children frame.node)[frame.next]? = some id) :
    Frame.due tree price frame =
      Frame.due tree price (frame.past 1) + (1 + price (tree.entrance id)) := by
  obtain ⟨hlt, hid⟩ := List.getElem?_eq_some_iff.1 hchild
  simp only [Frame.due, Frame.past, List.drop_eq_getElem_cons hlt, hid, List.map_cons, List.sum_cons]
  omega

theorem dueFrames_past_lt (below : List Frame)
    (hchild : (tree.children frame.node)[frame.next]? = some id) :
    dueFrames tree price (frame.past 1 :: below) < dueFrames tree price (frame :: below) := by
  have hdue := due_eq price hchild
  rw [dueFrames_cons, dueFrames_cons]
  omega

-- Whatever a child leads into is paid for.
theorem dueFrames_entered_lt (below : List Frame) (hcovers : tree.Covers price)
    (hchild : (tree.children frame.node)[frame.next]? = some id) :
    dueFrames tree price (⟨tree.entrance id, 0⟩ :: frame.past 1 :: below) <
      dueFrames tree price (frame :: below) := by
  have hdue := due_eq price hchild
  have hstart := due_start_le price hcovers (tree.entrance id)
  simp only [dueFrames_cons]
  omega

-- A run of choices is due one by one, so that each of those that are offered is paid for.
theorem dueFrames_run_lt (below : List Frame) {run ids : List NodeId}
    (hrun : run = choiceRun tree (tree.children frame.node) frame.next) (hpos : 0 < run.length)
    (hids : ids.Sublist run) :
    dueFrames tree price (frame.past run.length :: below) + (ids.map price).sum <
      dueFrames tree price (frame :: below) := by
  obtain ⟨rest, hrest⟩ : run <+: (tree.children frame.node).drop frame.next := by
    rw [hrun]
    exact List.takeWhile_prefix tree.isChoice
  have hdrop : (tree.children frame.node).drop (frame.next + run.length) = rest := by
    rw [← List.drop_drop, ← hrest, List.drop_left]
  have hentrance : ∀ id ∈ run, 1 + price (tree.entrance id) = 1 + price id := by
    intro id hid
    rw [hrun] at hid
    obtain ⟨node, label, hget, hkind⟩ := Tree.exists_choice_of_isChoice (List.mem_takeWhile_imp hid)
    rw [Tree.entrance_eq_self hget (by rw [hkind]; rfl)]
  have hsum : (run.map fun id => 1 + price id).sum = run.length + (run.map price).sum := by
    rw [List.sum_map_add, List.map_const', List.sum_replicate_nat, Nat.mul_one]
  have hle : (ids.map price).sum ≤ (run.map price).sum :=
    (hids.map price).sum_le_sum fun _ _ => Nat.zero_le _
  simp only [dueFrames_cons, Frame.due, Frame.past]
  rw [hdrop, ← hrest, List.map_append, List.sum_append, List.map_congr_left hentrance, hsum]
  omega

-- What a line shows is never pending.
theorem pending_of_emitted {shown : Template α} {now : Shown} {p : Option Pause}
    (hidle : r.pending = []) (h : emitted host id shown r.shown = (p, now)) (frames : List Frame) :
    pending { r with frames := frames, shown := now } = [] := by
  rcases emitted_cases h with ⟨-, rfl⟩ | ⟨-, rfl⟩
  · exact hidle
  · rfl

-- Every move but the last is paid for.
theorem Steps.due_lt (hlinked : tree.Linked) (hcovers : tree.Covers price) {p : Option Pause}
    (h : Steps host tree r s p r' s') (hidle : r.pending = []) (hp : p ≠ some .ended) :
    r'.due tree price < r.due tree price := by
  have hdue : r.due tree price = dueFrames tree price r.frames := by
    rw [due, hidle]
    exact Nat.add_zero _
  -- it is only a set of options that leaves anything pending
  have hframes : ∀ {frames : List Frame}, dueFrames tree price frames < dueFrames tree price r.frames →
      due tree price { r with frames := frames } < r.due tree price :=
    fun hlt => Nat.add_lt_add_right hlt _
  cases h with
  | idle => exact absurd rfl hp
  | ended => exact absurd rfl hp
  | left hframes' =>
      apply hframes
      rw [hframes', dueFrames_cons, Frame.due]
      omega
  | lost hframes' hchild =>
      apply hframes
      rw [hframes']
      exact dueFrames_past_lt price _ hchild
  | hidden h | unresolved h | silent h =>
      apply hframes
      rw [h.frames_eq]
      exact dueFrames_past_lt price _ h.child_eq
  | @passed frame below id child shown s' p now h hkind htest hemitted =>
      have hpending := pending_of_emitted hidle hemitted
      have hid : child.id = id := hlinked.id_eq h.get?_eq
      have hentrance : tree.entrance id = id :=
        Tree.entrance_eq_self h.get?_eq (by rw [hkind]; rfl)
      rw [hdue, h.frames_eq, due, hpending, List.map_nil, List.sum_nil, Nat.add_zero]
      dsimp only
      split
      · exact dueFrames_past_lt price _ h.child_eq
      · have hlt := dueFrames_entered_lt price below hcovers h.child_eq
        rw [hentrance] at hlt
        rwa [hid]
  | @unoffered frame below id child label run s' h hkind hrun =>
      have hlt := dueFrames_run_lt price below hrun (h.length_run_pos hkind hrun)
        (List.nil_sublist run)
      apply hframes
      rw [h.frames_eq]
      exact hlt
  | @offered frame below id child label run ids s' h hkind hrun hvisible hne =>
      have hids : ids.Sublist run := by
        have hsub := visible_sublist host tree r.context run s
        rwa [hvisible] at hsub
      rw [hdue, h.frames_eq]
      exact dueFrames_run_lt price _ hrun (h.length_run_pos hkind hrun) hids
  | returned h =>
      apply hframes
      rw [h.frames_eq]
      exact dueFrames_unwind_lt price _ _
  | @called frame below id child target destination h hkind =>
      have hlt := dueFrames_entered_lt price below hcovers h.child_eq
      rw [Tree.entrance_goTo h.get?_eq hkind] at hlt
      apply hframes
      rw [h.frames_eq]
      exact hlt

-- A run comes to a pause before more is taken than what is due.
theorem exists_run (host : Host α κ σ) (hlinked : tree.Linked) (hcovers : tree.Covers price)
    (hidle : r.pending = []) (s : σ) :
    ∃ moves p r' s', run host tree moves r s = some (p, r', s') ∧
      (∀ m < moves, run host tree m r s = none) ∧ moves ≤ r.due tree price + 1 ∧
      (p ≠ .ended → moves + r'.due tree price ≤ r.due tree price) := by
  induction hdue : r.due tree price using Nat.strongRecOn generalizing r s with
  | ind n ih =>
      rcases hstep : step host tree r s with ⟨_ | p, r₁, s₁⟩
      · have hsteps := steps_of_step host tree hstep
        have hlt := hsteps.due_lt price hlinked hcovers hidle (by simp)
        have hidle' : r₁.pending = [] := by rwa [pending, hsteps.shown_eq]
        obtain ⟨moves, p, r', s', hrun, hnone, hle, hrest⟩ := ih _ (hdue ▸ hlt) hidle' s₁ rfl
        refine ⟨moves + 1, p, r', s', by rw [run, hstep]; exact hrun, ?_, by omega, ?_⟩
        · intro m hm
          cases m with
          | zero => rfl
          | succ m =>
              rw [run, hstep]
              exact hnone m (by omega)
        · intro hp
          have hle' := hrest hp
          omega
      · refine ⟨1, p, r₁, s₁, by rw [run, hstep], ?_, by omega, ?_⟩
        · intro m hm
          obtain rfl : m = 0 := by omega
          rfl
        · intro hp
          have hlt := (steps_of_step host tree hstep).due_lt price hlinked hcovers hidle (by simpa using hp)
          omega

-- A call comes back, with just so many moves.
def Takes (host : Host α κ σ) (tree : Tree α) (r : Reader κ) (s : σ) (moves : Nat)
    (o : Pause × Reader κ × σ) : Prop :=
  r.advance host tree moves s = some o ∧ ∀ m < moves, r.advance host tree m s = none

theorem Takes.unique {moves moves' : Nat} {o o' : Pause × Reader κ × σ}
    (h : r.Takes host tree s moves o) (h' : r.Takes host tree s moves' o') :
    moves = moves' ∧ o = o' := by
  obtain ⟨hsome, hnone⟩ := h
  obtain ⟨hsome', hnone'⟩ := h'
  have hle : moves' ≤ moves := by
    by_contra hlt
    rw [hnone' moves (by omega)] at hsome
    cases hsome
  have hge : moves ≤ moves' := by
    by_contra hlt
    rw [hnone moves' (by omega)] at hsome'
    cases hsome'
  obtain rfl : moves = moves' := by omega
  exact ⟨rfl, Option.some.inj (hsome.symm.trans hsome')⟩

theorem exists_takes (host : Host α κ σ) (hlinked : tree.Linked) (hcovers : tree.Covers price)
    (r : Reader κ) (s : σ) :
    ∃ moves p r' s', r.Takes host tree s moves (p, r', s') ∧ moves ≤ r.due tree price + 1 ∧
      (p ≠ .ended → moves + r'.due tree price ≤ r.due tree price) := by
  have hidle : pending { r with shown := .nothing } = [] := rfl
  obtain ⟨frames, shown, context⟩ := r
  cases shown with
  | choices ids =>
      refine ⟨0, .refused .choicePending, _, s, ⟨rfl, ?_⟩, Nat.zero_le _, ?_⟩
      · intro m hm
        omega
      · intro _
        omega
  | nothing | line =>
      obtain ⟨moves, p, r', s', hrun, hnone, hle⟩ := exists_run price host hlinked hcovers hidle s
      exact ⟨moves, p, r', s', ⟨hrun, hnone⟩, hle⟩

theorem due_choose_le (hcovers : tree.Covers price) {index : Nat} (h : r.choose index = .ok r') :
    r'.due tree price ≤ r.due tree price := by
  obtain ⟨ids, id, hshown, hid, rfl⟩ := exists_of_choose h
  have hpending : r.pending = ids := by rw [pending, hshown]
  have hstart := due_start_le price hcovers id
  have hle : price id ≤ (ids.map price).sum :=
    List.single_le_sum (fun _ _ => Nat.zero_le _) _ (List.mem_map_of_mem (List.mem_of_getElem? hid))
  rw [due, due, hpending, dueFrames_cons]
  dsimp only [pending]
  rw [List.map_nil, List.sum_nil]
  omega

end Reader

-- Neither a call for more, nor a reset
def Command.isAside : Command κ σ → Bool
  | advance _ => false
  | reset => false
  | _ => true

-- Readers on their way from the root to the end, and how many moves they have made
inductive Reader.Underway (host : Host α κ σ) (tree : Tree α) : Reader κ × σ → Nat → Prop
  | start (context : κ) (s : σ) : Underway host tree (.ofTree tree context, s) 0
  | advance {r r' : Reader κ} {s s' : σ} {made moves : Nat} {p : Pause}
      (h : Underway host tree (r, s) made) (htakes : r.Takes host tree s moves (p, r', s'))
      (hp : p ≠ .ended) : Underway host tree (r', s') (made + moves)
  | aside {x y : Reader κ × σ} {made : Nat} (h : Underway host tree x made) {c : Command κ σ}
      (hc : c.run host tree x = some y) (haside : c.isAside = true) : Underway host tree y made

namespace Reader

variable {host : Host α κ σ} (price : NodeId → Nat) {made : Nat}

theorem due_command_le (hcovers : tree.Covers price) {x y : Reader κ × σ} {c : Command κ σ}
    (hc : c.run host tree x = some y) (haside : c.isAside = true) :
    y.1.due tree price ≤ x.1.due tree price := by
  obtain ⟨r, s⟩ := x
  cases c with
  | advance moves => cases haside
  | reset => cases haside
  | choose index =>
      obtain rfl | ⟨r', hchoose, rfl⟩ := Command.choose_cases hc
      · exact Nat.le_refl _
      · exact due_choose_le price hcovers hchoose
  | context now =>
      cases hc
      exact Nat.le_refl _
  | gates change =>
      cases hc
      exact Nat.le_refl _

-- Whatever was made was due at the root.
theorem Underway.made_add_due_le (hlinked : tree.Linked) (hcovers : tree.Covers price)
    {x : Reader κ × σ} (h : Underway host tree x made) :
    made + x.1.due tree price ≤ Frame.due tree price ⟨tree.root, 0⟩ := by
  induction h with
  | start context s => simp [due, ofTree, pending, dueFrames]
  | @advance r r' s s' made moves p h htakes hp ih =>
      obtain ⟨moves', p', r₁, s₁, htakes', -, hle⟩ := exists_takes price host hlinked hcovers r s
      obtain ⟨rfl, he⟩ := htakes.unique htakes'
      cases he
      have hle' := hle hp
      dsimp only at ih ⊢
      omega
  | aside h hc haside ih =>
      have hle := due_command_le price hcovers hc haside
      omega

end Reader

-- A story whose go-tos lead down comes to its end: every call comes back, and there is a
-- bound on the moves of all calls up to the end, whatever gates answer and whichever
-- options are picked.
theorem Reader.ranked_sessions_end {isGate : α → Bool} {document : Template α}
    {options : ParseOptions} {issues : List Issue} {tree : Tree α} {rank : NodeId → Nat}
    (h : parse isGate document options = (issues, .ok tree)) (hrank : tree.Ranked rank) :
    ∃ bound, ∀ {κ σ : Type} (host : Host α κ σ),
      (∀ (r : Reader κ) (s : σ), ∃ moves o, r.Takes host tree s moves o) ∧
      ∀ {r : Reader κ} {s : σ} {made : Nat}, Underway host tree (r, s) made →
        ∃ moves o, r.Takes host tree s moves o ∧ made + moves ≤ bound := by
  have hlinked := Tree.linked_of_parse h
  obtain ⟨price, hcovers⟩ : ∃ price, tree.Covers price :=
    ⟨_, (hrank.descends (wellFormed_of_parse h) hlinked).covers⟩
  refine ⟨Frame.due tree price ⟨tree.root, 0⟩ + 1, ?_⟩
  intro κ σ host
  constructor
  · intro r s
    obtain ⟨moves, p, r', s', htakes, -⟩ := exists_takes price host hlinked hcovers r s
    exact ⟨moves, _, htakes⟩
  · intro r s made hunderway
    have hdue := hunderway.made_add_due_le price hlinked hcovers
    obtain ⟨moves, p, r', s', htakes, hle, -⟩ := exists_takes price host hlinked hcovers r s
    refine ⟨moves, _, htakes, ?_⟩
    dsimp only at hdue
    omega

-- A scope that is called from the root, and once more from below one of its options
theorem Reader.ranked_sessions_end_twice :
    ∃ (tree : Tree Nat) (rank : NodeId → Nat),
      parse (fun _ => false) ⟨"-> S\n> a\n  -> S\n== S\nb\n<-".toList, [], []⟩ .default =
        ([], .ok tree) ∧
      tree.Ranked rank ∧
      ∃ bound, ∀ {κ σ : Type} (host : Host Nat κ σ),
        (∀ (r : Reader κ) (s : σ), ∃ moves o, r.Takes host tree s moves o) ∧
        ∀ {r : Reader κ} {s : σ} {made : Nat}, Underway host tree (r, s) made →
          ∃ moves o, r.Takes host tree s moves o ∧ made + moves ≤ bound := by
  let tree : Tree Nat := ⟨#[⟨0, .scope [], 0, [1, 2]⟩, ⟨1, .goTo ['S'] (some 4), 0, []⟩,
    ⟨2, .choice ⟨['a'], [], [.literal ['a']]⟩, 1, [3]⟩, ⟨3, .goTo ['S'] (some 4), 2, []⟩,
    ⟨4, .scope ['S'], 3, [5, 6]⟩, ⟨5, .line ⟨['b'], [], [.literal ['b']]⟩, 4, []⟩,
    ⟨6, .ret, 5, []⟩], 0⟩
  have h : parse (fun _ => false) ⟨"-> S\n> a\n  -> S\n== S\nb\n<-".toList, [], []⟩ .default =
      ([], .ok tree) := by
    decide +kernel
  let scopeOf (id : NodeId) : NodeId := if id < 4 then 0 else 4
  let rank (scope : NodeId) : Nat := if scope = 0 then 1 else 0
  have hrank : tree.Ranked rank :=
    Tree.Ranked.of_owners (Tree.linked_of_parse h) scopeOf (by decide) (by decide) (by decide)
  exact ⟨tree, rank, h, hrank, ranked_sessions_end h hrank⟩

end Narrative
