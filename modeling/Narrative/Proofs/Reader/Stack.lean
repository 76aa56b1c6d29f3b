import Mathlib.Data.List.Chain
import Mathlib.Data.List.DropRight
import Narrative.Proofs.Reader.Fields
import Narrative.Proofs.Reader.Refinement

namespace Narrative

variable {α κ σ : Type} {tree : Tree α}

namespace Tree

-- Neighbouring choices in a list of nodes, as many as there are
structure ChoiceRun (tree : Tree α) (ids front run back : List NodeId) : Prop where
  ids_eq : ids = front ++ run ++ back
  isChoice : ∀ id ∈ run, tree.isChoice id = true
  front_ends : ∀ id ∈ front.getLast?, tree.isChoice id = false
  back_begins : ∀ id ∈ back.head?, tree.isChoice id = false

-- The choices from a place on are the end of a run, which may begin further in front.
theorem exists_choiceRun (tree : Tree α) (ids : List NodeId) (next : Nat) :
    ∃ front run back, tree.ChoiceRun ids front run back ∧
      (ids.drop next).takeWhile tree.isChoice <:+ run ∧
      (front ++ run).length = (ids.take next).length + ((ids.drop next).takeWhile tree.isChoice).length := by
  refine ⟨(ids.take next).rdropWhile tree.isChoice,
    (ids.take next).rtakeWhile tree.isChoice ++ (ids.drop next).takeWhile tree.isChoice,
    (ids.drop next).dropWhile tree.isChoice, ⟨?_, ?_, ?_, ?_⟩, List.suffix_append _ _, ?_⟩
  · rw [← List.append_assoc, List.rdropWhile_append_rtakeWhile, List.append_assoc,
      List.takeWhile_append_dropWhile, List.take_append_drop]
  · intro id hid
    rcases List.mem_append.1 hid with hfront | hrest
    · exact List.mem_rtakeWhile_imp hfront
    · exact List.mem_takeWhile_imp hrest
  · intro id hid
    obtain ⟨hne, rfl⟩ := List.mem_getLast?_eq_getLast hid
    exact eq_false_of_ne_true (List.rdropWhile_last_not tree.isChoice _ hne)
  · intro id hid
    have hhead := List.head?_dropWhile_not tree.isChoice (ids.drop next)
    rw [Option.mem_def.1 hid] at hhead
    exact hhead
  · rw [← List.append_assoc, List.rdropWhile_append_rtakeWhile, List.length_append]

end Tree

-- How a frame came to stand on another: the one below has just passed a go-to to its node,
-- its node as a line, or a run of choices with its node among them.
inductive Frame.Entered (tree : Tree α) (below : Frame) (above : NodeId) : Prop
  | call {goTo : NodeId} {node : Node α} {target : Text} (hnext : 0 < below.next)
      (hchild : (tree.children below.node)[below.next - 1]? = some goTo)
      (hget : tree.get? goTo = some node) (hkind : node.kind = .goTo target (some above))
  | line {node : Node α} {shown : Template α} (hnext : 0 < below.next)
      (hchild : (tree.children below.node)[below.next - 1]? = some above)
      (hget : tree.get? above = some node) (hkind : node.kind = .line shown)
  | choice {front run back : List NodeId} (hnext : 0 < below.next)
      (hrun : tree.ChoiceRun (tree.children below.node) front run back)
      (hends : (front ++ run).length = below.next) (hmem : above ∈ run)

theorem Frame.Entered.next_pos {below : Frame} {above : NodeId} (h : below.Entered tree above) :
    0 < below.next := by
  cases h with
  | call hnext => exact hnext
  | line hnext => exact hnext
  | choice hnext => exact hnext

-- The node of a frame is there, with all of its children, and the frame is not past them.
def Frame.InTree (tree : Tree α) (frame : Frame) : Prop :=
  ∃ node, tree.get? frame.node = some node ∧ frame.next ≤ node.children.length ∧
    ∀ child ∈ node.children, ∃ other, tree.get? child = some other

-- A stack of frames, innermost first, from the root of the tree
structure Stacked (tree : Tree α) (frames : List Frame) : Prop where
  inTree : ∀ frame ∈ frames, frame.InTree tree
  bottom : ∀ frame ∈ frames.getLast?, frame.node = tree.root
  entered : frames.IsChain fun above below => below.Entered tree above.node

namespace Stacked

variable {frame : Frame} {below : List Frame}

theorem tail (h : Stacked tree (frame :: below)) : Stacked tree below where
  inTree := fun f hf => h.inTree f (List.mem_cons_of_mem _ hf)
  bottom := by
    intro f hf
    cases below with
    | nil => cases hf
    | cons other below => exact h.bottom f (by rwa [List.getLast?_cons_cons])
  entered := h.entered.tail

-- Only the innermost frame moves: those below still stand as they were entered.
theorem move (h : Stacked tree (frame :: below)) {next : Nat}
    (hin : Frame.InTree tree { frame with next := next }) :
    Stacked tree ({ frame with next := next } :: below) where
  inTree := by
    intro f hf
    rcases List.mem_cons.1 hf with rfl | hf
    · exact hin
    · exact h.inTree f (List.mem_cons_of_mem _ hf)
  bottom := by
    intro f hf
    cases below with
    | nil =>
        obtain rfl := Option.some.inj hf
        exact h.bottom frame rfl
    | cons other below =>
        rw [List.getLast?_cons_cons] at hf
        exact h.bottom f (by rwa [List.getLast?_cons_cons])
  entered := by
    cases below with
    | nil => exact .singleton _
    | cons other below =>
        obtain ⟨hentered, hrest⟩ := List.isChain_cons_cons.1 h.entered
        exact List.isChain_cons_cons.2 ⟨hentered, hrest⟩

theorem push (h : Stacked tree (frame :: below)) {id : NodeId}
    (hin : Frame.InTree tree ⟨id, 0⟩) (hentered : frame.Entered tree id) :
    Stacked tree (⟨id, 0⟩ :: frame :: below) where
  inTree := by
    intro f hf
    rcases List.mem_cons.1 hf with rfl | hf
    · exact hin
    · exact h.inTree f hf
  bottom := by
    intro f hf
    exact h.bottom f (by rwa [List.getLast?_cons_cons] at hf)
  entered := List.isChain_cons_cons.2 ⟨hentered, h.entered⟩

theorem unwind {frames : List Frame} (h : Stacked tree frames) :
    Stacked tree (Reader.unwind tree frames) := by
  induction frames with
  | nil => exact h
  | cons frame below ih =>
      rw [Reader.unwind]
      split
      · exact h.tail
      · exact ih h.tail

end Stacked

theorem Tree.exists_get?_of_isScope {id : NodeId} (h : tree.isScope id = true) :
    ∃ node, tree.get? id = some node := by
  unfold isScope at h
  cases hget : tree.get? id with
  | none =>
      rw [hget] at h
      cases h
  | some node => exact ⟨node, rfl⟩

-- The node is an option, and that is its label.
def Tree.Offers (tree : Tree α) (id : NodeId) (label : Template α) : Prop :=
  ∃ node, tree.get? id = some node ∧ node.kind = .choice label

theorem Tree.forall₂_offers {ids : List NodeId} (h : ∀ id ∈ ids, tree.isChoice id = true) :
    List.Forall₂ tree.Offers ids (ids.filterMap tree.template?) := by
  induction ids with
  | nil => exact .nil
  | cons id ids ih =>
      obtain ⟨hid, hids⟩ := List.forall_mem_cons.1 h
      obtain ⟨node, label, hnode, hkind⟩ := Tree.exists_choice_of_isChoice hid
      have hlabel : tree.template? id = some label := template?_eq_some hnode (by rw [hkind]; rfl)
      rw [List.filterMap_cons_some hlabel]
      exact .cons ⟨node, hnode, hkind⟩ (ih hids)

-- Children are there, and in the order of the text.
structure Tree.Traversable (tree : Tree α) : Prop extends Tree.Linked tree where
  child : ∀ {id child : NodeId} {node : Node α}, tree.get? id = some node → child ∈ node.children →
    ∃ other, tree.get? child = some other
  children_sorted : ∀ id, (tree.children id).Pairwise (· < ·)

theorem Tree.traversable_of_parse {isGate : α → Bool} {document : Template α}
    {options : ParseOptions} {issues : List Issue}
    (h : parse isGate document options = (issues, .ok tree)) : tree.Traversable := by
  have hwell := wellFormed_of_parse h
  refine ⟨Tree.linked_of_parse h, ?_, ?_⟩
  · intro id child node hnode hchild
    have hlt := (hwell.child_between hnode hchild).2
    exact ⟨_, Array.getElem?_eq_getElem hlt⟩
  · intro id
    cases hnode : tree.get? id with
    | none => simp [children, hnode]
    | some node =>
        have hsorted := hwell.children_sorted hnode
        simpa [children, hnode] using hsorted

theorem Tree.Traversable.inTree_start (h : tree.Traversable) {id : NodeId} {node : Node α}
    (hnode : tree.get? id = some node) : Frame.InTree tree ⟨id, 0⟩ :=
  ⟨node, hnode, Nat.zero_le _, fun _ => h.child hnode⟩

-- A frame that moves on stays in the tree as long as there are children.
theorem Frame.InTree.move {frame : Frame} (h : frame.InTree tree) {next : Nat}
    (hnext : next ≤ (tree.children frame.node).length) :
    Frame.InTree tree { frame with next := next } := by
  obtain ⟨node, hnode, -, hchildren⟩ := h
  refine ⟨node, hnode, ?_, hchildren⟩
  rwa [Tree.children, hnode] at hnext

namespace Reader

variable {host : Host α κ σ} {r r' : Reader κ} {s s' : σ} {frame : Frame} {below : List Frame}
  {id : NodeId} {child : Node α}

-- Between the pauses of a reader
structure Moving (tree : Tree α) (r : Reader κ) : Prop where
  stacked : Stacked tree r.frames
  shown_eq : r.shown = .nothing

-- At a pause: options are choices that the innermost frame has just passed, and a line is
-- a line.
structure Placed (tree : Tree α) (r : Reader κ) : Prop where
  stacked : Stacked tree r.frames
  line : ∀ {id : NodeId}, r.shown = .line id → ∃ node shown, tree.get? id = some node ∧
    node.kind = .line shown
  choices : ∀ {ids : List NodeId}, r.shown = .choices ids → ids ≠ [] ∧ ids.Pairwise (· < ·) ∧
    ∀ id ∈ ids, tree.isChoice id = true ∧ ∃ frame ∈ r.frames.head?, frame.Entered tree id

theorem Moving.placed (h : Moving tree r) : Placed tree r where
  stacked := h.stacked
  line := by
    intro id hline
    rw [h.shown_eq] at hline
    cases hline
  choices := by
    intro ids hchoices
    rw [h.shown_eq] at hchoices
    cases hchoices

namespace Faces

theorem next_lt (h : Faces tree r frame below id child) :
    frame.next < (tree.children frame.node).length :=
  (List.getElem?_eq_some_iff.1 h.child_eq).1

-- Past one child
theorem stacked_past (h : Faces tree r frame below id child) (hr : Stacked tree r.frames) :
    Stacked tree (frame.past 1 :: below) := by
  rw [h.frames_eq] at hr
  exact hr.move ((hr.inTree frame List.mem_cons_self).move h.next_lt)

theorem drop_eq_cons (h : Faces tree r frame below id child) :
    (tree.children frame.node).drop frame.next =
      id :: (tree.children frame.node).drop (frame.next + 1) := by
  rw [List.drop_eq_getElem_cons h.next_lt, (List.getElem?_eq_some_iff.1 h.child_eq).2]

-- The child that is faced is one of the run.
theorem length_run_pos (h : Faces tree r frame below id child) {label : Template α}
    (hkind : child.kind = .choice label) {run : List NodeId}
    (hrun : run = choiceRun tree (tree.children frame.node) frame.next) : 0 < run.length := by
  have hchoice : tree.isChoice id = true := by
    rw [Tree.isChoice, h.get?_eq, Option.any_some, hkind]
    rfl
  rw [hrun, choiceRun, h.drop_eq_cons, List.takeWhile_cons_of_pos hchoice]
  exact Nat.succ_pos _

-- The run from the child on ends where the frame moves to.
theorem exists_choiceRun (h : Faces tree r frame below id child) (hr : Stacked tree r.frames)
    {run : List NodeId} (hrun : run = choiceRun tree (tree.children frame.node) frame.next)
    {label : Template α} (hkind : child.kind = .choice label) :
    Stacked tree (frame.past run.length :: below) ∧
      (∀ id ∈ run, tree.isChoice id = true ∧ (frame.past run.length).Entered tree id) ∧
      run.Sublist (tree.children frame.node) := by
  obtain ⟨front, whole, back, hwhole, hsuffix, hlength⟩ :=
    tree.exists_choiceRun (tree.children frame.node) frame.next
  have htake : ((tree.children frame.node).take frame.next).length = frame.next :=
    List.length_take_of_le h.next_lt.le
  rw [htake, ← choiceRun, ← hrun] at hlength
  rw [← choiceRun, ← hrun] at hsuffix
  have hpos := h.length_run_pos hkind hrun
  have hle : frame.next + run.length ≤ (tree.children frame.node).length := by
    rw [← hlength, hwhole.ids_eq]
    exact (List.prefix_append _ back).length_le
  refine ⟨?_, ?_, ?_⟩
  · rw [h.frames_eq] at hr
    exact hr.move ((hr.inTree frame List.mem_cons_self).move hle)
  · intro id hid
    have hmem := hsuffix.subset hid
    exact ⟨hwhole.isChoice id hmem, .choice (Nat.add_pos_right _ hpos) hwhole hlength hmem⟩
  · rw [hrun]
    exact (List.takeWhile_sublist _).trans (List.drop_sublist _ _)

end Faces

-- A line opens its children on the frame that has passed it.
theorem stacked_passed (htree : tree.Traversable) (h : Faces tree r frame below id child)
    (hr : Stacked tree r.frames) {shown : Template α} (hkind : child.kind = .line shown) :
    Stacked tree (if child.children = [] then frame.past 1 :: below
      else ⟨child.id, 0⟩ :: frame.past 1 :: below) := by
  have hpast := h.stacked_past hr
  split
  · exact hpast
  · have hid := htree.id_eq h.get?_eq
    rw [hid]
    exact hpast.push (htree.inTree_start h.get?_eq)
      (.line (Nat.succ_pos _) h.child_eq h.get?_eq hkind)

theorem stacked_called (htree : tree.Traversable) (h : Faces tree r frame below id child)
    (hr : Stacked tree r.frames) {target : Text} {destination : NodeId}
    (hkind : child.kind = .goTo target (some destination)) :
    Stacked tree (⟨destination, 0⟩ :: frame.past 1 :: below) := by
  have hscope := htree.isScope_destination h.get?_eq hkind
  obtain ⟨node, hnode⟩ := Tree.exists_get?_of_isScope hscope
  exact (h.stacked_past hr).push (htree.inTree_start hnode)
    (.call (Nat.succ_pos _) h.child_eq h.get?_eq hkind)

-- Every step keeps the stack in the tree.
theorem Steps.stacked (htree : tree.Traversable) {p : Option Pause}
    (h : Steps host tree r s p r' s') (hr : Stacked tree r.frames) : Stacked tree r'.frames := by
  cases h with
  | idle => exact hr
  | ended => exact hr
  | left hframes =>
      rw [hframes] at hr
      exact hr.tail
  | lost hframes hchild hget =>
      -- the children of a frame are there
      rw [hframes] at hr
      obtain ⟨node, hnode, -, hchildren⟩ := hr.inTree _ List.mem_cons_self
      rw [Tree.children, hnode] at hchild
      obtain ⟨other, hother⟩ := hchildren _ (List.mem_of_getElem? hchild)
      rw [hget] at hother
      cases hother
  | hidden h => exact h.stacked_past hr
  | passed h hkind => exact stacked_passed htree h hr hkind
  | unoffered h hkind hrun => exact (h.exists_choiceRun hr hrun hkind).1
  | offered h hkind hrun => exact (h.exists_choiceRun hr hrun hkind).1
  | returned h =>
      rw [h.frames_eq] at hr
      exact hr.unwind
  | called h hkind => exact stacked_called htree h hr hkind
  | unresolved h => exact h.stacked_past hr
  | silent h => exact h.stacked_past hr

theorem Steps.moving (htree : tree.Traversable) (h : Steps host tree r s none r' s')
    (hr : Moving tree r) : Moving tree r' :=
  ⟨h.stacked htree hr.stacked, h.shown_eq.trans hr.shown_eq⟩

theorem Steps.placed (htree : tree.Traversable) {p : Pause} (h : Steps host tree r s (some p) r' s')
    (hr : Moving tree r) : Placed tree r' := by
  have hstacked := h.stacked htree hr.stacked
  cases h with
  | idle => exact hr.placed
  | ended => exact hr.placed
  | @passed _ _ _ child shown _ _ now h hkind _ hemitted =>
      rcases emitted_cases hemitted with ⟨-, hnow⟩ | ⟨-, rfl⟩
      · exact Moving.placed ⟨hstacked, hnow.trans hr.shown_eq⟩
      · refine ⟨hstacked, ?_, fun hchoices => Shown.noConfusion hchoices⟩
        intro id hline
        cases hline
        rw [htree.id_eq h.get?_eq]
        exact ⟨child, shown, h.get?_eq, hkind⟩
  | @offered frame _ _ _ _ run ids _ h hkind hrun hvisible hne =>
      obtain ⟨-, hentered, hsub⟩ := h.exists_choiceRun hr.stacked hrun hkind
      have hoffered : ids.Sublist run := by
        have hvisible' := visible_sublist host tree r.context run s
        rwa [hvisible] at hvisible'
      refine ⟨hstacked, fun hline => Shown.noConfusion hline, ?_⟩
      intro ids hids
      cases hids
      refine ⟨hne, (htree.children_sorted frame.node).sublist (hoffered.trans hsub), ?_⟩
      intro id hid
      obtain ⟨hchoice, hin⟩ := hentered id (hoffered.subset hid)
      exact ⟨hchoice, _, rfl, hin⟩
  | unresolved => exact Moving.placed ⟨hstacked, hr.shown_eq⟩

theorem Unpaused.moving (htree : tree.Traversable) {x y : Reader κ × σ} (h : Unpaused host tree x y)
    (hx : Moving tree x.1) : Moving tree y.1 :=
  h.keeps host tree (P := fun r _ => Moving tree r) (fun hr hstep => hstep.moving htree hr) hx

theorem placed_advance (htree : tree.Traversable) {moves : Nat} {p : Pause} (hr : Placed tree r)
    (h : r.advance host tree moves s = some (p, r', s')) : Placed tree r' := by
  rcases advance_cases h with ⟨-, -, rfl, -⟩ | ⟨-, hrun⟩
  · exact hr
  · obtain ⟨r₁, s₁, hmoved, hlast⟩ := exists_unpaused_of_run host tree hrun
    exact hlast.placed htree (hmoved.moving htree ⟨hr.stacked, rfl⟩)

-- It is a frame at its options that is answered.
theorem Placed.exists_picked (hr : Placed tree r) {index : Nat} (h : r.choose index = .ok r') :
    ∃ id frame below, tree.isChoice id = true ∧ r.frames = frame :: below ∧ frame.Entered tree id ∧
      r' = { r with frames := ⟨id, 0⟩ :: frame :: below, shown := .nothing } := by
  obtain ⟨ids, id, hshown, hid, rfl⟩ := exists_of_choose h
  obtain ⟨-, -, hchoices⟩ := hr.choices hshown
  obtain ⟨hchoice, frame, hframe, hentered⟩ := hchoices id (List.mem_of_getElem? hid)
  obtain ⟨below, hframes⟩ := List.head?_eq_some_iff.1 hframe
  exact ⟨id, frame, below, hchoice, hframes, hentered, by rw [hframes]⟩

theorem placed_choose (htree : tree.Traversable) {index : Nat} (hr : Placed tree r)
    (h : r.choose index = .ok r') : Placed tree r' := by
  obtain ⟨id, frame, below, hchoice, hframes, hentered, rfl⟩ := hr.exists_picked h
  obtain ⟨node, label, hnode, -⟩ := Tree.exists_choice_of_isChoice hchoice
  have hstacked := hr.stacked
  rw [hframes] at hstacked
  exact Moving.placed ⟨hstacked.push (htree.inTree_start hnode) hentered, rfl⟩

-- Pending options are choices with their labels.
theorem Placed.forall₂_offers (hr : Placed tree r) {ids : List NodeId} (hshown : r.shown = .choices ids) :
    List.Forall₂ tree.Offers ids (ids.filterMap tree.template?) := by
  obtain ⟨-, -, hchoices⟩ := hr.choices hshown
  exact Tree.forall₂_offers fun id hid => (hchoices id hid).1

-- As many options are offered as are pending.
theorem Placed.exists_choices_of_output (hr : Placed tree r) {labels : List (Template α)}
    (h : r.output tree = some (.choices labels)) :
    ∃ ids, r.shown = .choices ids ∧ ids ≠ [] ∧ ids.length = labels.length := by
  unfold output at h
  split at h
  · cases h
  · obtain ⟨_, -, he⟩ := Option.map_eq_some_iff.1 h
    cases he
  · next ids hshown =>
    cases h
    exact ⟨ids, hshown, (hr.choices hshown).1, (hr.forall₂_offers hshown).length_eq⟩

theorem placed_start (htree : tree.Traversable) (context : κ) : Placed tree (ofTree tree context) := by
  obtain ⟨root, hroot⟩ := Tree.exists_get?_of_isScope htree.isScope_root
  exact Moving.placed ⟨⟨by simpa [ofTree] using htree.inTree_start hroot, by simp [ofTree], .singleton _⟩, rfl⟩

-- The outermost frame is that of the root, and so a reset leads back to the start.
theorem Placed.reset_eq (hr : Placed tree r) : r.reset tree = .ofTree tree r.context := by
  unfold reset
  cases hlast : r.frames.getLast? with
  | none => rfl
  | some frame =>
      have hbottom := hr.stacked.bottom frame hlast
      obtain ⟨node, next⟩ := frame
      obtain rfl : node = tree.root := hbottom
      rfl

theorem placed_command (htree : tree.Traversable) {x y : Reader κ × σ} (hx : Placed tree x.1)
    (c : Command κ σ) (hc : c.run host tree x = some y) : Placed tree y.1 := by
  obtain ⟨r, s⟩ := x
  cases c with
  | advance moves =>
      obtain ⟨⟨p, y⟩, hadvance, rfl⟩ := Option.map_eq_some_iff.1 hc
      exact placed_advance htree hx hadvance
  | choose index =>
      obtain rfl | ⟨r', hchoose, rfl⟩ := Command.choose_cases hc
      · exact hx
      · exact placed_choose htree hx hchoose
  | reset =>
      cases hc
      rw [hx.reset_eq]
      exact placed_start htree r.context
  | context now =>
      cases hc
      exact ⟨hx.stacked, hx.line, hx.choices⟩
  | gates change =>
      cases hc
      exact hx

theorem Reachable.placed (htree : tree.Traversable) {x : Reader κ × σ}
    (hx : Reachable host tree x) : Placed tree x.1 := by
  induction hx with
  | start context s => exact placed_start htree context
  | command _ c hc ih => exact placed_command htree ih c hc

-- What a placed reader shows, told of each part of it
theorem Placed.keeps_to_tree (hr : Placed tree r) :
    (∀ frame ∈ r.frames, frame.InTree tree) ∧
    (∀ frame ∈ r.frames.getLast?, frame.node = tree.root) ∧
    (r.frames.IsChain fun above below => 0 < below.next ∧ below.Entered tree above.node) ∧
    (r.isChoice = true ↔ r.pending ≠ []) ∧
    (r.pending.Nodup ∧ r.pending.Pairwise (· < ·) ∧ ∀ id ∈ r.pending, tree.isChoice id = true) ∧
    (r.isChoice = true → r.line? = none) ∧
    ∀ id, r.line? = some id →
      ∃ node shown, tree.get? id = some node ∧ node.kind = .line shown := by
  refine ⟨hr.stacked.inTree, hr.stacked.bottom,
    hr.stacked.entered.imp fun _ _ hentered => ⟨hentered.next_pos, hentered⟩, ?_⟩
  obtain ⟨frames, shown, context⟩ := r
  cases shown with
  | nothing => simp [isChoice, pending, line?]
  | line id =>
      refine ⟨by simp [isChoice, pending], by simp [pending], by simp [isChoice], ?_⟩
      intro other hother
      cases hother
      exact hr.line rfl
  | choices ids =>
      obtain ⟨hne, hsorted, hchoices⟩ := hr.choices rfl
      refine ⟨iff_of_true rfl hne, ⟨hsorted.imp Nat.ne_of_lt, hsorted, fun id hid => (hchoices id hid).1⟩,
        fun _ => rfl, ?_⟩
      intro other hother
      cases hother

-- A reader keeps to its tree, whatever is asked of it: its frames lead from the root to
-- where it is, each entered from the one below, and what it shows is a line or a set of
-- choices in the order of the text. It is so with three fields that are written one by one.
theorem reachable_keeps_to_tree {isGate : α → Bool} {document : Template α} {options : ParseOptions}
    {issues : List Issue} {tree : Tree α} (h : parse isGate document options = (issues, .ok tree))
    (host : Host α κ σ) {x : Fields κ} {s : σ} (hx : Fields.Reachable host tree (x, s)) :
    (∀ frame ∈ x.frames, frame.InTree tree) ∧
    (∀ frame ∈ x.frames.getLast?, frame.node = tree.root) ∧
    (x.frames.IsChain fun above below => 0 < below.next ∧ below.Entered tree above.node) ∧
    (x.isChoice = true ↔ x.pending ≠ []) ∧
    (x.pending.Nodup ∧ x.pending.Pairwise (· < ·) ∧ ∀ id ∈ x.pending, tree.isChoice id = true) ∧
    (x.isChoice = true → x.line? = none) ∧
    ∀ id, x.line? = some id →
      ∃ node shown, tree.get? id = some node ∧ node.kind = .line shown := by
  obtain ⟨r, rfl, hr⟩ := hx.exists_reader
  exact (hr.placed (Tree.traversable_of_parse h)).keeps_to_tree

-- A line in a scope that an option calls: three frames, with a run of choices and a go-to
-- between them
theorem reachable_keeps_to_tree_called :
    let host : Host Nat Unit Unit := ⟨fun _ _ => .ok [], fun _ => false, fun _ _ _ s => (true, s)⟩
    ∃ (tree : Tree Nat) (x : Fields Unit),
      parse (fun _ => false) ⟨"> a\n  -> S\n> b\n== S\nc".toList, [], []⟩ .default =
        ([], .ok tree) ∧
      Fields.Reachable host tree (x, ()) ∧ x.frames = [⟨4, 1⟩, ⟨1, 1⟩, ⟨0, 2⟩] ∧ x.line? = some 5 ∧
      x.frames.IsChain fun above below => 0 < below.next ∧ below.Entered tree above.node := by
  intro host
  let tree : Tree Nat := ⟨#[⟨0, .scope [], 0, [1, 3]⟩,
    ⟨1, .choice ⟨['a'], [], [.literal ['a']]⟩, 0, [2]⟩, ⟨2, .goTo ['S'] (some 4), 1, []⟩,
    ⟨3, .choice ⟨['b'], [], [.literal ['b']]⟩, 2, []⟩, ⟨4, .scope ['S'], 3, [5]⟩,
    ⟨5, .line ⟨['c'], [], [.literal ['c']]⟩, 4, []⟩], 0⟩
  have h : parse (fun _ => false) ⟨"> a\n  -> S\n> b\n== S\nc".toList, [], []⟩ .default =
      ([], .ok tree) := by
    decide +kernel
  have hx : Fields.Reachable host tree (⟨[⟨4, 1⟩, ⟨1, 1⟩, ⟨0, 2⟩], [], false, some 5, ()⟩, ()) :=
    .command (.command (.command (.start () ()) (.advance 2) rfl) (.choose 0) rfl) (.advance 9) rfl
  exact ⟨tree, _, h, hx, rfl, rfl, (reachable_keeps_to_tree h host hx).2.2.1⟩

end Reader

end Narrative
