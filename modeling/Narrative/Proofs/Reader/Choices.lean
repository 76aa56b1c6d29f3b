import Narrative.Proofs.Reader.Stack

namespace Narrative

variable {α κ σ : Type} {tree : Tree α}

-- Gates that are asked one by one, each with the answer that it gives
def Host.ask (host : Host α κ σ) (context : κ) (node : NodeId) : List α → σ → List (α × Bool) × σ
  | [], s => ([], s)
  | gate :: gates, s =>
    let (answer, s) := host.test gate context node s
    let (answers, s) := ask host context node gates s
    ((gate, answer) :: answers, s)

theorem Host.ask_append (host : Host α κ σ) (context : κ) (node : NodeId) (gates : List α) (gate : α) (s : σ) :
    host.ask context node (gates ++ [gate]) s =
      let (answers, now) := host.ask context node gates s
      let (answer, now) := host.test gate context node now
      (answers ++ [(gate, answer)], now) := by
  induction gates generalizing s with
  | nil => rfl
  | cons first gates ih => simp only [List.cons_append, ask, ih]

theorem Template.testGates_eq_ask (host : Host α κ σ) (t : Template α) (context : κ) (node : NodeId) (s : σ) :
    t.testGates host context node s =
      ((host.ask context node (t.args.filter host.isGate) s).1.all (·.2),
        (host.ask context node (t.args.filter host.isGate) s).2) := by
  apply t.testGates_induction host context node s
    (P := fun asked x => x = ((host.ask context node asked s).1.all (·.2), (host.ask context node asked s).2)) rfl
  intro asked passed now gate h
  obtain ⟨rfl, rfl⟩ := Prod.mk.inj h
  simp only [Host.ask_append, List.all_append, List.all_cons, List.all_nil, Bool.and_true]

namespace Frame

-- A frame inside a run of choices: one is behind it, and the next is in front of it.
structure Splits (tree : Tree α) (frame : Frame) : Prop where
  next_pos : 0 < frame.next
  behind : ∃ id, (tree.children frame.node)[frame.next - 1]? = some id ∧ tree.isChoice id = true
  ahead : ∃ id, (tree.children frame.node)[frame.next]? = some id ∧ tree.isChoice id = true

variable {frame : Frame}

theorem not_splits_start (tree : Tree α) (node : NodeId) : ¬ Splits tree ⟨node, 0⟩ :=
  fun h => Nat.lt_irrefl 0 h.next_pos

theorem not_splits_past_one {id : NodeId} (hchild : (tree.children frame.node)[frame.next]? = some id)
    (hchoice : tree.isChoice id = false) : ¬ (frame.past 1).Splits tree := by
  intro h
  obtain ⟨other, hother, hbehind⟩ := h.behind
  have hsame : (tree.children frame.node)[frame.next]? = some other := hother
  rw [hchild] at hsame
  rw [← Option.some.inj hsame, hchoice] at hbehind
  cases hbehind

-- What follows a run of choices is none.
theorem not_splits_past_run (tree : Tree α) (frame : Frame) :
    ¬ (frame.past (Reader.choiceRun tree (tree.children frame.node) frame.next).length).Splits tree := by
  intro h
  obtain ⟨id, hid, hahead⟩ := h.ahead
  let rest := (tree.children frame.node).drop frame.next
  have hhead : (rest.dropWhile tree.isChoice).head? = some id :=
    calc (rest.dropWhile tree.isChoice).head?
      _ = (rest.takeWhile tree.isChoice ++ rest.dropWhile tree.isChoice)[
            (rest.takeWhile tree.isChoice).length]? := by
          rw [List.getElem?_append_right le_rfl, Nat.sub_self, List.head?_eq_getElem?]
      _ = rest[(rest.takeWhile tree.isChoice).length]? := by rw [List.takeWhile_append_dropWhile]
      _ = some id := List.getElem?_drop.trans hid
  have hnot := List.head?_dropWhile_not tree.isChoice rest
  rw [hhead] at hnot
  exact ne_true_of_eq_false hnot hahead

end Frame

namespace Reader

variable {host : Host α κ σ} {r r' : Reader κ} {s s' : σ} {frame : Frame} {below : List Frame}
  {id : NodeId} {child : Node α}

-- The options of a set, each with its gates and their answers
def poll (host : Host α κ σ) (tree : Tree α) (context : κ) :
    List NodeId → σ → List (NodeId × List (α × Bool)) × σ
  | [], s => ([], s)
  | id :: ids, s =>
    let gates := ((tree.template? id).map fun label => label.args.filter host.isGate).getD []
    let (answers, s) := host.ask context id gates s
    let (others, s) := poll host tree context ids s
    ((id, answers) :: others, s)

-- What is offered are the options whose gates have all agreed.
theorem visible_eq_poll (context : κ) {ids : List NodeId} (hchoice : ∀ id ∈ ids, tree.isChoice id = true)
    (s : σ) :
    visible host tree context ids s =
      (((poll host tree context ids s).1.filter fun option => option.2.all (·.2)).map (·.1),
        (poll host tree context ids s).2) := by
  induction ids generalizing s with
  | nil => rfl
  | cons id ids ih =>
      obtain ⟨node, label, hget, hkind⟩ := Tree.exists_choice_of_isChoice (hchoice id List.mem_cons_self)
      have htemplate : tree.template? id = some label :=
        Tree.template?_eq_some hget (by rw [hkind]; rfl)
      have hrest := ih fun other hother => hchoice other (List.mem_cons_of_mem id hother)
      simp only [visible, poll, htemplate, Option.map_some, Option.getD_some, Template.testGates_eq_ask,
        hrest, List.filter_cons]
      split <;> rfl

theorem Faces.isChoice_eq (h : Faces tree r frame below id child) :
    tree.isChoice id = child.kind.isChoice := by
  rw [Tree.isChoice, h.get?_eq, Option.any_some]

-- No frame is inside a run of choices.
def Whole (tree : Tree α) (frames : List Frame) : Prop := ∀ frame ∈ frames, ¬ frame.Splits tree

theorem whole_cons_iff : Whole tree (frame :: below) ↔ ¬ frame.Splits tree ∧ Whole tree below :=
  List.forall_mem_cons

theorem whole_unwind {frames : List Frame} (h : Whole tree frames) : Whole tree (unwind tree frames) := by
  induction frames with
  | nil => exact h
  | cons frame below ih =>
      obtain ⟨-, hbelow⟩ := whole_cons_iff.1 h
      rw [unwind]
      split
      · exact hbelow
      · exact ih hbelow

-- Past one child that is no choice
theorem Faces.whole_past (h : Faces tree r frame below id child) (hr : Whole tree r.frames)
    (hkind : child.kind.isChoice = false) : Whole tree (frame.past 1 :: below) := by
  rw [h.frames_eq, whole_cons_iff] at hr
  exact whole_cons_iff.2 ⟨Frame.not_splits_past_one h.child_eq (h.isChoice_eq.trans hkind), hr.2⟩

-- Past all choices that follow
theorem Faces.whole_past_run (h : Faces tree r frame below id child) (hr : Whole tree r.frames)
    {run : List NodeId} (hrun : run = choiceRun tree (tree.children frame.node) frame.next) :
    Whole tree (frame.past run.length :: below) := by
  rw [h.frames_eq, whole_cons_iff] at hr
  rw [hrun]
  exact whole_cons_iff.2 ⟨Frame.not_splits_past_run tree frame, hr.2⟩

-- A step never stops inside a run of choices.
theorem Steps.whole {p : Option Pause} (h : Steps host tree r s p r' s') (hr : Whole tree r.frames) :
    Whole tree r'.frames := by
  cases h with
  | idle => exact hr
  | ended => exact hr
  | left hframes =>
      rw [hframes, whole_cons_iff] at hr
      exact hr.2
  | @lost _ _ id hframes hchild hget =>
      rw [hframes, whole_cons_iff] at hr
      have hchoice : tree.isChoice id = false := by rw [Tree.isChoice, hget, Option.any_none]
      exact whole_cons_iff.2 ⟨Frame.not_splits_past_one hchild hchoice, hr.2⟩
  | hidden h hkind => exact h.whole_past hr (by rw [hkind]; rfl)
  | passed h hkind =>
      have hpast := h.whole_past hr (by rw [hkind]; rfl)
      dsimp only
      split
      · exact hpast
      · exact whole_cons_iff.2 ⟨Frame.not_splits_start tree _, hpast⟩
  | unoffered h _ hrun => exact h.whole_past_run hr hrun
  | offered h _ hrun => exact h.whole_past_run hr hrun
  | returned h =>
      rw [h.frames_eq] at hr
      exact whole_unwind hr
  | called h hkind =>
      have hpast := h.whole_past hr (by rw [hkind]; rfl)
      exact whole_cons_iff.2 ⟨Frame.not_splits_start tree _, hpast⟩
  | unresolved h hkind => exact h.whole_past hr (by rw [hkind]; rfl)
  | silent h hkind =>
      apply h.whole_past hr
      obtain ⟨note, hkind⟩ | hkind | ⟨name, hkind⟩ := hkind <;> rw [hkind] <;> rfl

theorem Unpaused.whole {x y : Reader κ × σ} (h : Unpaused host tree x y) (hx : Whole tree x.1.frames) :
    Whole tree y.1.frames :=
  h.keeps host tree (P := fun r _ => Whole tree r.frames) (fun hr hstep => hstep.whole hr) hx

theorem whole_advance {moves : Nat} {p : Pause} (hr : Whole tree r.frames)
    (h : r.advance host tree moves s = some (p, r', s')) : Whole tree r'.frames := by
  rcases advance_cases h with ⟨-, -, rfl, -⟩ | ⟨-, hrun⟩
  · exact hr
  · obtain ⟨r₁, s₁, hmoved, hlast⟩ := exists_unpaused_of_run host tree hrun
    exact hlast.whole (hmoved.whole hr)

theorem whole_command {x y : Reader κ × σ} (hx : Whole tree x.1.frames) (c : Command κ σ)
    (hc : c.run host tree x = some y) : Whole tree y.1.frames := by
  obtain ⟨r, s⟩ := x
  cases c with
  | advance moves =>
      obtain ⟨⟨p, y⟩, hadvance, rfl⟩ := Option.map_eq_some_iff.1 hc
      exact whole_advance hx hadvance
  | choose index =>
      obtain rfl | ⟨r', hchoose, rfl⟩ := Command.choose_cases hc
      · exact hx
      · obtain ⟨ids, id, -, -, rfl⟩ := exists_of_choose hchoose
        exact whole_cons_iff.2 ⟨Frame.not_splits_start tree id, hx⟩
  | reset =>
      cases hc
      unfold reset
      split
      · exact List.forall_mem_singleton.2 (Frame.not_splits_start tree _)
      · exact List.forall_mem_singleton.2 (Frame.not_splits_start tree _)
  | context now | gates change =>
      cases hc
      exact hx

theorem Reachable.whole {x : Reader κ × σ} (hx : Reachable host tree x) : Whole tree x.1.frames := by
  induction hx with
  | start context s => exact List.forall_mem_singleton.2 (Frame.not_splits_start tree _)
  | command _ c hc ih => exact whole_command ih c hc

-- A frame that is not inside a run has a whole one in front of it.
theorem Faces.exists_whole_run (h : Faces tree r frame below id child) (hwhole : ¬ frame.Splits tree)
    (hkind : child.kind.isChoice = true) :
    ∃ front back, front.length = frame.next ∧
      tree.ChoiceRun (tree.children frame.node) front
        (choiceRun tree (tree.children frame.node) frame.next) back := by
  have hlength : ((tree.children frame.node).take frame.next).length = frame.next :=
    List.length_take_of_le h.next_lt.le
  refine ⟨_, ((tree.children frame.node).drop frame.next).dropWhile tree.isChoice, hlength, ?_, ?_, ?_, ?_⟩
  · rw [List.append_assoc, choiceRun, List.takeWhile_append_dropWhile, List.take_append_drop]
  · intro other hother
    exact List.mem_takeWhile_imp hother
  · intro other hother
    by_contra hchoice
    -- the child behind the frame is the last one in front of the run
    have hpos : 0 < frame.next := by
      rw [← hlength, List.length_pos_iff]
      intro hnil
      rw [hnil] at hother
      cases hother
    rw [Option.mem_def, List.getLast?_eq_getElem?, hlength, List.getElem?_take_of_lt (by omega)] at hother
    exact hwhole ⟨hpos, ⟨other, hother, eq_true_of_ne_false hchoice⟩,
      ⟨id, h.child_eq, h.isChoice_eq.trans hkind⟩⟩
  · intro other hother
    have hnot := List.head?_dropWhile_not tree.isChoice ((tree.children frame.node).drop frame.next)
    rw [Option.mem_def.1 hother] at hnot
    exact hnot

-- Only options that are offered are pending.
theorem Steps.offered_of_isChoice {p : Pause} (h : Steps host tree r s (some p) r' s')
    (hr : r.shown = .nothing) (hchoice : r'.isChoice = true) :
    ∃ frame below id child, Faces tree r frame below id child ∧ child.kind.isChoice = true ∧
      ∃ run, run = choiceRun tree (tree.children frame.node) frame.next ∧
        r'.frames = frame.past run.length :: below ∧
        (r'.pending, s') = visible host tree r.context run s ∧ r'.pending ≠ [] := by
  have hnothing : r'.shown ≠ .nothing := by
    intro hnothing
    rw [isChoice, hnothing] at hchoice
    cases hchoice
  cases h with
  | idle => exact absurd hr hnothing
  | ended => exact absurd hr hnothing
  | passed _ _ _ hemitted =>
      rcases emitted_cases hemitted with ⟨-, hnow⟩ | ⟨-, rfl⟩
      · exact absurd (hnow.trans hr) hnothing
      · cases hchoice
  | @offered frame below id child label run ids _ h hkind hrun hvisible hne =>
      exact ⟨frame, below, id, child, h, by rw [hkind]; rfl, run, hrun, rfl, hvisible.symm, hne⟩
  | unresolved => exact absurd hr hnothing

-- A reader offers whole runs of choices: no frame is ever inside one, and when a call ends
-- at options these are the ones of a run whose gates have all agreed then, with the frame
-- just past the run.
theorem reachable_offers_whole_runs (hr : Reachable host tree (r, s)) :
    (∀ frame ∈ r.frames, ¬ frame.Splits tree) ∧
    ∀ moves r' s', r.advance host tree moves s = some (.shown, r', s') → r'.isChoice = true →
      ∃ (frame : Frame) (below : List Frame) (front run back : List NodeId) (now : σ),
        Unpaused host tree ({ r with shown := .nothing }, s)
          (⟨frame :: below, .nothing, r.context⟩, now) ∧
        frame.next = front.length ∧ tree.ChoiceRun (tree.children frame.node) front run back ∧
        r'.frames = { frame with next := (front ++ run).length } :: below ∧
        (r'.pending, s') =
          (((poll host tree r.context run now).1.filter fun option => option.2.all (·.2)).map (·.1),
            (poll host tree r.context run now).2) ∧
        r'.pending.Sublist run ∧ r'.pending ≠ [] := by
  have hwhole : Whole tree r.frames := hr.whole
  refine ⟨hwhole, fun moves r' s' hadvance hchoice => ?_⟩
  rcases advance_cases hadvance with ⟨-, hp, -⟩ | ⟨-, hrun⟩
  · cases hp
  obtain ⟨r₁, now, hmoved, hlast⟩ := exists_unpaused_of_run host tree hrun
  have hwhole₁ : Whole tree r₁.frames := hmoved.whole hwhole
  have hshown₁ : r₁.shown = .nothing := hmoved.shown_eq
  have hcontext₁ : r₁.context = r.context := hmoved.context_eq
  obtain ⟨frame, below, id, child, hfaces, hkind, run, rfl, hframes, hvisible, hne⟩ :=
    hlast.offered_of_isChoice hshown₁ hchoice
  rw [hfaces.frames_eq, whole_cons_iff] at hwhole₁
  obtain ⟨front, back, hfront, hruns⟩ := hfaces.exists_whole_run hwhole₁.1 hkind
  have hsublist := visible_sublist host tree r₁.context
    (choiceRun tree (tree.children frame.node) frame.next) now
  rw [← hvisible] at hsublist
  rw [hcontext₁, visible_eq_poll _ hruns.isChoice] at hvisible
  have hr₁ : r₁ = ⟨frame :: below, .nothing, r.context⟩ := by
    rw [← hshown₁, ← hcontext₁, ← hfaces.frames_eq]
  rw [hr₁] at hmoved
  refine ⟨frame, below, front, _, back, now, hmoved, hfront.symm, hruns, ?_, hvisible, hsublist, hne⟩
  rw [hframes, List.length_append, hfront]
  rfl

-- Two runs with a node between them, and a gate that hides the second option of the first
theorem reachable_offers_whole_runs_closed :
    let host : Host Nat Unit Nat := ⟨fun _ _ => .ok [], fun _ => true, fun _ _ _ s => (false, s + 1)⟩
    ∃ (tree : Tree Nat) (r : Reader Unit),
      parse (fun _ => true) ⟨"> a\n> \x7b0\x7d\n<\n> b".toList, [7], [.literal "> a\n> ".toList,
        .placeholder ⟨0, none, none⟩, .literal "\n<\n> b".toList]⟩ .default = ([], .ok tree) ∧
      (ofTree tree ()).advance host tree 1 0 = some (.shown, r, 1) ∧ r.pending = [1] ∧
      ∃ front run back, tree.ChoiceRun [1, 2, 3, 4] front run back ∧
        r.frames = [⟨0, (front ++ run).length⟩] ∧ [1].Sublist run := by
  intro host
  let tree : Tree Nat := ⟨#[⟨0, .scope [], 0, [1, 2, 3, 4]⟩,
    ⟨1, .choice ⟨['a'], [], [.literal ['a']]⟩, 0, []⟩,
    ⟨2, .choice ⟨"\x7b0\x7d".toList, [7], [.placeholder ⟨0, none, none⟩]⟩, 1, []⟩,
    ⟨3, .closeChoice, 2, []⟩,
    ⟨4, .choice ⟨['b'], [], [.literal ['b']]⟩, 3, []⟩], 0⟩
  have h : parse (fun _ => true) ⟨"> a\n> \x7b0\x7d\n<\n> b".toList, [7], [.literal "> a\n> ".toList,
      .placeholder ⟨0, none, none⟩, .literal "\n<\n> b".toList]⟩ .default = ([], .ok tree) := by
    decide +kernel
  have hadvance : (ofTree tree ()).advance host tree 1 0 =
      some (.shown, ⟨[⟨0, 2⟩], .choices [1], ()⟩, 1) := rfl
  obtain ⟨-, hoffers⟩ := reachable_offers_whole_runs (.start () 0)
  obtain ⟨frame, below, front, run, back, now, -, -, hruns, hframes, -, hsublist, -⟩ :=
    hoffers 1 _ 1 hadvance rfl
  obtain ⟨hframe, rfl⟩ := List.cons.inj hframes
  obtain ⟨hnode, -⟩ := Frame.mk.inj hframe
  rw [← hnode] at hruns
  exact ⟨tree, _, h, hadvance, rfl, front, run, back, hruns, hnode ▸ hframes, hsublist⟩

end Reader

end Narrative
