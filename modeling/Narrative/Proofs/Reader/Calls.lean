import Narrative.Proofs.Reader.Stack

namespace Narrative

variable {α κ σ : Type} {tree : Tree α}

-- A go-to that leads nowhere is refused, and calls nothing.
def NodeKind.isCall : NodeKind α → Bool
  | goTo _ (some _) => true
  | _ => false

def NodeKind.isReturn : NodeKind α → Bool
  | ret => true
  | _ => false

-- What the innermost frame has come to
def Reader.facing (tree : Tree α) (r : Reader κ) : Option (NodeKind α) :=
  match r.frames with
  | [] => none
  | frame :: _ => ((tree.children frame.node)[frame.next]?.bind tree.get?).map (·.kind)

-- What is done with a reader, and the calls for more taken apart into their moves
inductive Turn (κ σ : Type) where
  | step
  | choose (index : Nat)
  | context (now : κ)
  | gates (change : σ → σ)

namespace Turn

-- Nothing moves while choices are pending.
def run (host : Host α κ σ) (tree : Tree α) : Turn κ σ → Reader κ × σ → Reader κ × σ
  | step, (r, s) =>
    if r.isChoice then (r, s) else (Reader.step host tree { r with shown := .nothing } s).2
  | choose index, (r, s) =>
    match r.choose index with
    | .ok r => (r, s)
    | .error _ => (r, s)
  | context now, (r, s) => ({ r with context := now }, s)
  | gates change, (r, s) => (r, change s)

def runAll (host : Host α κ σ) (tree : Tree α) (turns : List (Turn κ σ)) (x : Reader κ × σ) :
    Reader κ × σ :=
  turns.foldl (fun x t => t.run host tree x) x

def calls (tree : Tree α) : Turn κ σ → Reader κ × σ → Bool
  | step, (r, _) => !r.isChoice && (r.facing tree).any NodeKind.isCall
  | _, _ => false

def returns (tree : Tree α) : Turn κ σ → Reader κ × σ → Bool
  | step, (r, _) => !r.isChoice && (r.facing tree).any NodeKind.isReturn
  | _, _ => false

-- How many of the turns are of a kind
def times (host : Host α κ σ) (tree : Tree α) (kind : Turn κ σ → Reader κ × σ → Bool) :
    List (Turn κ σ) → Reader κ × σ → Nat
  | [], _ => 0
  | t :: turns, x => (kind t x).toNat + times host tree kind turns (t.run host tree x)

end Turn

namespace Reader

-- The scopes that are open
def scopes (tree : Tree α) (frames : List Frame) : Nat :=
  frames.countP fun frame => tree.isScope frame.node

-- Above a caller: the scope that was called, and what was opened from there
def Above (tree : Tree α) (caller frames : List Frame) : Prop :=
  ∃ opened scope, frames = opened ++ scope :: caller ∧ tree.isScope scope.node = true

-- All that a turn does to frames, and whether it is a call or a return
inductive Shifts (tree : Tree α) : List Frame → Bool → Bool → List Frame → Prop
  | stay (frames : List Frame) : Shifts tree frames false false frames
  | move (frame : Frame) (count : Nat) (below : List Frame) :
      Shifts tree (frame :: below) false false (frame.past count :: below)
  | enter (frame : Frame) (count : Nat) (below : List Frame) {id : NodeId}
      (h : tree.isScope id = false) :
      Shifts tree (frame :: below) false false (⟨id, 0⟩ :: frame.past count :: below)
  | leave (frame : Frame) (below : List Frame) (h : tree.isScope frame.node = false) :
      Shifts tree (frame :: below) false false below
  | call (frame : Frame) (below : List Frame) {destination : NodeId}
      (h : tree.isScope destination = true) :
      Shifts tree (frame :: below) true false (⟨destination, 0⟩ :: frame.past 1 :: below)
  | ret (frame : Frame) (below : List Frame) :
      Shifts tree (frame :: below) false true (unwind tree (frame :: below))

section Steps

variable {host : Host α κ σ} {r r' : Reader κ} {s s' : σ} {frame : Frame} {below : List Frame}
  {id : NodeId} {child : Node α}

theorem Faces.facing_eq (h : Faces tree r frame below id child) : r.facing tree = some child.kind := by
  rw [facing, h.frames_eq]
  dsimp only
  rw [h.child_eq, Option.bind_some, h.get?_eq, Option.map_some]

theorem facing_eq_none (hframes : r.frames = frame :: below)
    (hdone : (tree.children frame.node)[frame.next]? = none) : r.facing tree = none := by
  rw [facing, hframes]
  dsimp only
  rw [hdone, Option.bind_none, Option.map_none]

theorem Steps.shifts (hlinked : tree.Linked) {p : Option Pause} (h : Steps host tree r s p r' s') :
    Shifts tree r.frames ((r.facing tree).any NodeKind.isCall)
      ((r.facing tree).any NodeKind.isReturn) r'.frames := by
  cases h with
  | idle hframes =>
      rw [facing, hframes]
      exact .stay _
  | ended hframes hdone =>
      rw [facing_eq_none hframes hdone]
      exact .stay _
  | left hframes hdone hscope =>
      rw [facing_eq_none hframes hdone, hframes]
      exact .leave _ _ hscope
  | lost hframes hchild hget =>
      have hfacing : r.facing tree = none := by
        rw [facing, hframes]
        dsimp only
        rw [hchild, Option.bind_some, hget, Option.map_none]
      rw [hfacing, hframes]
      exact .move _ 1 _
  | hidden h hkind | unresolved h hkind =>
      rw [h.facing_eq, hkind, h.frames_eq]
      exact .move _ 1 _
  | passed h hkind =>
      rw [h.facing_eq, hkind, h.frames_eq]
      dsimp only
      split
      · exact .move _ 1 _
      · refine .enter _ 1 _ ?_
        rw [hlinked.id_eq h.get?_eq, Tree.isScope, h.get?_eq, Option.any_some, hkind]
        rfl
  | unoffered h hkind | offered h hkind =>
      rw [h.facing_eq, hkind, h.frames_eq]
      exact .move _ _ _
  | returned h hkind =>
      rw [h.facing_eq, hkind, h.frames_eq]
      exact .ret _ _
  | called h hkind =>
      rw [h.facing_eq, hkind, h.frames_eq]
      exact .call _ _ (hlinked.isScope_destination h.get?_eq hkind)
  | silent h hkind =>
      rw [h.facing_eq, h.frames_eq]
      obtain ⟨note, hkind⟩ | hkind | ⟨name, hkind⟩ := hkind
      all_goals
        rw [hkind]
        exact .move _ 1 _

end Steps

theorem shifts_choose {r r' : Reader κ} {index : Nat} (hr : Placed tree r)
    (h : r.choose index = .ok r') : Shifts tree r.frames false false r'.frames := by
  obtain ⟨id, frame, below, hchoice, hframes, -, rfl⟩ := hr.exists_picked h
  rw [hframes]
  exact .enter frame 0 below (Tree.isScope_of_isChoice hchoice)

section Shifts

variable {frames frames' caller : List Frame} {called returned : Bool}

theorem scopes_cons (frame : Frame) (below : List Frame) :
    scopes tree (frame :: below) = scopes tree below + (tree.isScope frame.node).toNat := by
  rw [scopes, List.countP_cons, scopes]
  cases tree.isScope frame.node <;> rfl

-- A return closes a single scope, when there is one.
theorem scopes_unwind (hscope : 0 < scopes tree frames) :
    scopes tree (unwind tree frames) + 1 = scopes tree frames := by
  induction frames with
  | nil => cases hscope
  | cons frame below ih =>
      rw [scopes_cons] at hscope ⊢
      rw [unwind]
      cases hframe : tree.isScope frame.node with
      | true => rfl
      | false =>
          rw [hframe, Bool.toNat_false, Nat.add_zero] at hscope
          exact ih hscope

theorem Shifts.scopes_add (h : Shifts tree frames called returned frames')
    (hscope : frames ≠ [] → 0 < scopes tree frames) :
    scopes tree frames' + returned.toNat = scopes tree frames + called.toNat := by
  cases h with
  | stay => rfl
  | move frame count below =>
      rw [scopes_cons, scopes_cons, Frame.past]
  | enter frame count below h =>
      rw [scopes_cons, scopes_cons, scopes_cons, Frame.past, h]
      rfl
  | leave frame below h =>
      rw [scopes_cons, h]
      rfl
  | call frame below h =>
      rw [scopes_cons, scopes_cons, scopes_cons, Frame.past, h]
      rfl
  | ret frame below => exact scopes_unwind (hscope (List.cons_ne_nil _ _))

theorem scopes_pos (htree : tree.Traversable) (h : Stacked tree frames) (hne : frames ≠ []) :
    0 < scopes tree frames := by
  have hlast := List.getLast?_eq_some_getLast hne
  have hroot : (frames.getLast hne).node = tree.root := h.bottom _ hlast
  apply List.countP_pos_iff.2
  exact ⟨frames.getLast hne, List.getLast_mem hne, by rw [hroot]; exact htree.isScope_root⟩

theorem Shifts.of_called (h : Shifts tree frames called returned frames') (hcalled : called = true) :
    ∃ frame below destination, frames = frame :: below ∧
      frames' = ⟨destination, 0⟩ :: frame.past 1 :: below ∧ tree.isScope destination = true := by
  cases h with
  | call frame below h => exact ⟨frame, below, _, rfl, rfl, h⟩
  | _ => cases hcalled

theorem Above.length_lt (h : Above tree caller frames) : caller.length < frames.length := by
  obtain ⟨opened, scope, rfl, -⟩ := h
  rw [List.length_append, List.length_cons]
  omega

theorem Above.suffix (h : Above tree caller frames) : caller <:+ frames := by
  obtain ⟨opened, scope, rfl, -⟩ := h
  exact (List.suffix_cons scope caller).trans (List.suffix_append opened _)

theorem Above.cons (h : Above tree caller frames) (frame : Frame) :
    Above tree caller (frame :: frames) := by
  obtain ⟨opened, scope, rfl, hscope⟩ := h
  exact ⟨frame :: opened, scope, rfl, hscope⟩

-- Below the innermost frame nothing moves, and that one stays at its node.
theorem Above.past {frame : Frame} {below : List Frame} (h : Above tree caller (frame :: below))
    (count : Nat) : Above tree caller (frame.past count :: below) := by
  obtain ⟨opened, scope, he, hscope⟩ := h
  cases opened with
  | nil =>
      obtain ⟨rfl, rfl⟩ := List.cons.inj he
      exact ⟨[], frame.past count, rfl, hscope⟩
  | cons first opened =>
      obtain ⟨rfl, rfl⟩ := List.cons.inj he
      exact ⟨frame.past count :: opened, scope, rfl, hscope⟩

theorem Above.leave {frame : Frame} {below : List Frame} (h : Above tree caller (frame :: below))
    (hframe : tree.isScope frame.node = false) : Above tree caller below := by
  obtain ⟨opened, scope, he, hscope⟩ := h
  cases opened with
  | nil =>
      obtain ⟨rfl, rfl⟩ := List.cons.inj he
      rw [hframe] at hscope
      cases hscope
  | cons first opened =>
      obtain ⟨rfl, rfl⟩ := List.cons.inj he
      exact ⟨opened, scope, rfl, hscope⟩

-- A return comes from a scope further in, or it is the one to the caller.
theorem Above.unwind (h : Above tree caller frames) :
    Above tree caller (unwind tree frames) ∨ Reader.unwind tree frames = caller := by
  obtain ⟨opened, scope, rfl, hscope⟩ := h
  induction opened with
  | nil =>
      right
      rw [List.nil_append, Reader.unwind, if_pos hscope]
  | cons frame opened ih =>
      rw [List.cons_append, Reader.unwind]
      split
      · exact .inl ⟨opened, scope, rfl, hscope⟩
      · exact ih

theorem Shifts.above (h : Shifts tree frames called returned frames')
    (habove : Above tree caller frames) :
    Above tree caller frames' ∨ returned = true ∧ frames' = caller := by
  cases h with
  | stay => exact .inl habove
  | move frame count below => exact .inl (habove.past count)
  | enter frame count below => exact .inl ((habove.past count).cons _)
  | leave frame below h => exact .inl (habove.leave h)
  | call frame below => exact .inl ((habove.past 1).cons _)
  | ret frame below => exact habove.unwind.imp_right fun he => ⟨rfl, he⟩

end Shifts

end Reader

namespace Turn

open Reader

variable (host : Host α κ σ) {x : Reader κ × σ} {caller : List Frame}

theorem run_step_of_choice {r : Reader κ} (s : σ) (h : r.isChoice = true) :
    step.run host tree (r, s) = (r, s) := if_pos h

theorem run_step_of_idle {r : Reader κ} (s : σ) (h : r.isChoice = false) :
    step.run host tree (r, s) = (Reader.step host tree { r with shown := .nothing } s).2 :=
  if_neg (ne_true_of_eq_false h)

theorem shifts (htree : tree.Traversable) (hx : Placed tree x.1) (t : Turn κ σ) :
    Shifts tree x.1.frames (t.calls tree x) (t.returns tree x) (t.run host tree x).1.frames := by
  obtain ⟨r, s⟩ := x
  cases t with
  | step =>
      dsimp only [calls, returns]
      cases hidle : r.isChoice with
      | true =>
          rw [run_step_of_choice host s hidle]
          exact .stay _
      | false =>
          rw [run_step_of_idle host s hidle]
          rcases hstep : Reader.step host tree { r with shown := .nothing } s with ⟨p, r', s'⟩
          have hshifts := (steps_of_step host tree hstep).shifts htree.toLinked
          exact hshifts
  | choose index =>
      dsimp only [run, calls, returns]
      split
      · next hchoose => exact shifts_choose hx hchoose
      · exact .stay _
  | context now => exact .stay _
  | gates change => exact .stay _

theorem placed (htree : tree.Traversable) (hx : Placed tree x.1) (t : Turn κ σ) :
    Placed tree (t.run host tree x).1 := by
  obtain ⟨r, s⟩ := x
  cases t with
  | step =>
      cases hidle : r.isChoice with
      | true => rwa [run_step_of_choice host s hidle]
      | false =>
          rw [run_step_of_idle host s hidle]
          have hmoving : Moving tree { r with shown := .nothing } := ⟨hx.stacked, rfl⟩
          rcases hstep : Reader.step host tree { r with shown := .nothing } s with ⟨_ | p, r', s'⟩
          · exact ((steps_of_step host tree hstep).moving htree hmoving).placed
          · exact (steps_of_step host tree hstep).placed htree hmoving
  | choose index =>
      dsimp only [run]
      split
      · next hchoose => exact placed_choose htree hx hchoose
      · exact hx
  | context now => exact ⟨hx.stacked, hx.line, hx.choices⟩
  | gates change => exact hx

theorem placed_runAll (htree : tree.Traversable) (hx : Placed tree x.1) (turns : List (Turn κ σ)) :
    Placed tree (runAll host tree turns x).1 := by
  induction turns generalizing x with
  | nil => exact hx
  | cons t turns ih => exact ih (placed host htree hx t)

theorem scopes_runAll (htree : tree.Traversable) (hx : Placed tree x.1) (turns : List (Turn κ σ)) :
    scopes tree (runAll host tree turns x).1.frames + times host tree (returns tree) turns x =
      scopes tree x.1.frames + times host tree (calls tree) turns x := by
  induction turns generalizing x with
  | nil => rfl
  | cons t turns ih =>
      have hshifts := shifts host htree hx t
      have hstep := hshifts.scopes_add fun hne => scopes_pos htree hx.stacked hne
      have hrest := ih (placed host htree hx t)
      simp only [times, runAll, List.foldl_cons] at hrest ⊢
      omega

-- So long as there are more frames than that, over all of the turns
def Inside (host : Host α κ σ) (tree : Tree α) (height : Nat) (turns : List (Turn κ σ))
    (x : Reader κ × σ) : Prop :=
  ∀ k ≤ turns.length, height < (runAll host tree (turns.take k) x).1.frames.length

-- What becomes of a call from where it was made: the caller is kept, until a return comes
-- back to it.
structure Resumes (host : Host α κ σ) (tree : Tree α) (caller : List Frame) (x : Reader κ × σ) :
    Prop where
  kept : ∀ {turns : List (Turn κ σ)}, Inside host tree caller.length turns x →
    caller <:+ (runAll host tree turns x).1.frames
  returned : ∀ {turns : List (Turn κ σ)} {t : Turn κ σ}, Inside host tree caller.length turns x →
    (t.run host tree (runAll host tree turns x)).1.frames.length ≤ caller.length →
    t.returns tree (runAll host tree turns x) = true ∧
      (t.run host tree (runAll host tree turns x)).1.frames = caller

theorem above_runAll (htree : tree.Traversable) (hx : Placed tree x.1)
    (habove : Above tree caller x.1.frames) (turns : List (Turn κ σ))
    (hinside : Inside host tree caller.length turns x) :
    Above tree caller (runAll host tree turns x).1.frames := by
  induction turns generalizing x with
  | nil => exact habove
  | cons t turns ih =>
      have hlt : caller.length < (t.run host tree x).1.frames.length :=
        hinside 1 (Nat.succ_le_succ (Nat.zero_le _))
      have hnext : Above tree caller (t.run host tree x).1.frames := by
        rcases (shifts host htree hx t).above habove with hnext | ⟨-, he⟩
        · exact hnext
        · rw [he] at hlt
          omega
      apply ih (placed host htree hx t) hnext
      intro k hk
      exact hinside (k + 1) (Nat.succ_le_succ hk)

theorem resumes (htree : tree.Traversable) (hx : Placed tree x.1)
    (habove : Above tree caller x.1.frames) : Resumes host tree caller x where
  kept := fun hinside => (above_runAll host htree hx habove _ hinside).suffix
  returned := by
    intro turns t hinside hle
    have hlast := above_runAll host htree hx habove turns hinside
    rcases (shifts host htree (placed_runAll host htree hx turns) t).above hlast with hmore | hback
    · have hlt := hmore.length_lt
      omega
    · exact hback

end Turn

namespace Reader

variable {host : Host α κ σ}

-- The moves of a run, with the one that pauses
def movesOf (host : Host α κ σ) (tree : Tree α) : Nat → Reader κ → σ → Nat
  | 0, _, _ => 0
  | moves + 1, r, s =>
    match step host tree r s with
    | (some _, _, _) => 1
    | (none, r, s) => movesOf host tree moves r s + 1

theorem runAll_movesOf {moves : Nat} {r r' : Reader κ} {s s' : σ} {p : Pause}
    (hidle : r.isChoice = false)
    (h : run host tree moves { r with shown := .nothing } s = some (p, r', s')) :
    Turn.runAll host tree
      (.replicate (movesOf host tree moves { r with shown := .nothing } s) .step) (r, s) = (r', s') := by
  induction moves generalizing r s with
  | zero => cases h
  | succ moves ih =>
      have hturn : Turn.run host tree .step (r, s) = (step host tree { r with shown := .nothing } s).2 :=
        Turn.run_step_of_idle host s hidle
      rw [run] at h
      rw [movesOf]
      rcases hstep : step host tree { r with shown := .nothing } s with ⟨_ | q, ⟨frames, shown, context⟩, s₁⟩
      · rw [hstep] at h hturn
        obtain rfl : shown = .nothing := (steps_of_step host tree hstep).shown_eq
        have hrest := ih (r := ⟨frames, .nothing, context⟩) rfl h
        rw [← hrest]
        dsimp only
        rw [List.replicate_succ, Turn.runAll, List.foldl_cons, hturn, Turn.runAll]
      · rw [hstep] at h hturn
        cases h
        exact hturn

end Reader

-- The turns that a command takes
def Command.turns (host : Host α κ σ) (tree : Tree α) :
    Command κ σ → Reader κ × σ → List (Turn κ σ)
  | advance moves, (r, s) =>
    if r.isChoice then []
    else .replicate (Reader.movesOf host tree moves { r with shown := .nothing } s) .step
  | choose index, _ => [.choose index]
  | reset, _ => []
  | context now, _ => [.context now]
  | gates change, _ => [.gates change]

theorem Command.runAll_turns {host : Host α κ σ} {x y : Reader κ × σ} {c : Command κ σ}
    (hreset : c ≠ .reset) (h : c.run host tree x = some y) :
    Turn.runAll host tree (c.turns host tree x) x = y := by
  obtain ⟨r, s⟩ := x
  cases c with
  | advance moves =>
      obtain ⟨⟨p, r', s'⟩, hadvance, rfl⟩ := Option.map_eq_some_iff.1 h
      dsimp only [turns]
      rcases Reader.advance_cases hadvance with ⟨hchoice, -, rfl, rfl⟩ | ⟨hidle, hrun⟩
      · rw [if_pos hchoice]
        rfl
      · rw [if_neg (ne_true_of_eq_false hidle)]
        exact Reader.runAll_movesOf hidle hrun
  | reset => exact absurd rfl hreset
  | choose index =>
      dsimp only [turns, Turn.runAll, List.foldl_cons, List.foldl_nil, Turn.run]
      dsimp only [run] at h
      cases hchoose : r.choose index with
      | ok r' | error e =>
          rw [hchoose] at h
          exact Option.some.inj h
  | context now => exact Option.some.inj h
  | gates change => exact Option.some.inj h

-- Whatever a session does short of a reset, a go-to that is followed keeps the frames of its
-- caller, which stands past it, until they are all that is left. It is a return that leaves
-- them. So the scopes that are open are one more than the calls without a return.
theorem Turn.calls_return_to_caller {isGate : α → Bool} {document : Template α}
    {options : ParseOptions} {issues : List Issue} {tree : Tree α}
    (h : parse isGate document options = (issues, .ok tree)) (host : Host α κ σ) (context : κ)
    (s : σ) :
    (∀ turns : List (Turn κ σ), ∀ x, runAll host tree turns (.ofTree tree context, s) = x →
      step.calls tree x = true → ∃ frame below destination, x.1.frames = frame :: below ∧
        (step.run host tree x).1.frames = ⟨destination, 0⟩ :: frame.past 1 :: below ∧
        Resumes host tree (frame.past 1 :: below) (step.run host tree x)) ∧
    (∀ turns : List (Turn κ σ), ∀ x, x = (Reader.ofTree tree context, s) →
      Reader.scopes tree (runAll host tree turns x).1.frames + times host tree (returns tree) turns x =
        1 + times host tree (calls tree) turns x) ∧
    ∀ {c : Command κ σ} {x y : Reader κ × σ}, c ≠ .reset → c.run host tree x = some y →
      runAll host tree (c.turns host tree x) x = y := by
  have htree := Tree.traversable_of_parse h
  have hstart := Reader.placed_start htree context
  refine ⟨?_, ?_, Command.runAll_turns⟩
  · rintro turns x rfl hcalls
    have hx := placed_runAll host (x := (Reader.ofTree tree context, s)) htree hstart turns
    obtain ⟨frame, below, destination, hframes, hcalled, hscope⟩ :=
      (shifts host htree hx step).of_called hcalls
    refine ⟨frame, below, destination, hframes, hcalled, resumes host htree (placed host htree hx step) ?_⟩
    rw [hcalled]
    exact ⟨[], _, rfl, hscope⟩
  · rintro turns x rfl
    have hscopes := scopes_runAll host (x := (Reader.ofTree tree context, s)) htree hstart turns
    have hone : Reader.scopes tree (Reader.ofTree tree context).frames = 1 := by
      rw [Reader.ofTree, Reader.scopes_cons, htree.isScope_root]
      rfl
    rwa [hone] at hscopes

-- A call from the root into a scope, where a call from below an option is made and comes
-- back. The return from below that option then leaves what the root has left.
theorem Turn.calls_return_to_caller_nested :
    let host : Host Nat Unit Unit := ⟨fun _ _ => .ok [], fun _ => false, fun _ _ _ s => (true, s)⟩
    let turns : List (Turn Unit Unit) := [.step, .choose 0, .step, .step, .step]
    ∃ tree : Tree Nat,
      parse (fun _ => false) ⟨"-> A\nend\n== A\n> go\n  -> B\n  <-\n== B\nb\n<-".toList, [], []⟩
        .default = ([], .ok tree) ∧
      Resumes host tree [⟨0, 1⟩] (step.run host tree (.ofTree tree (), ())) ∧
      Inside host tree 1 turns (step.run host tree (.ofTree tree (), ())) ∧
      (step.run host tree (runAll host tree turns (step.run host tree (.ofTree tree (), ())))).1.frames =
        [⟨0, 1⟩] ∧
      Reader.scopes tree (runAll host tree (step :: turns) (.ofTree tree (), ())).1.frames + 1 = 1 + 2 := by
  intro host turns
  let tree : Tree Nat := ⟨#[⟨0, .scope [], 0, [1, 2]⟩, ⟨1, .goTo ['A'] (some 3), 0, []⟩,
    ⟨2, .line ⟨['e', 'n', 'd'], [], [.literal ['e', 'n', 'd']]⟩, 1, []⟩, ⟨3, .scope ['A'], 2, [4]⟩,
    ⟨4, .choice ⟨['g', 'o'], [], [.literal ['g', 'o']]⟩, 3, [5, 6]⟩,
    ⟨5, .goTo ['B'] (some 7), 4, []⟩, ⟨6, .ret, 5, []⟩, ⟨7, .scope ['B'], 6, [8, 9]⟩,
    ⟨8, .line ⟨['b'], [], [.literal ['b']]⟩, 7, []⟩, ⟨9, .ret, 8, []⟩], 0⟩
  have h : parse (fun _ => false)
      ⟨"-> A\nend\n== A\n> go\n  -> B\n  <-\n== B\nb\n<-".toList, [], []⟩ .default =
        ([], .ok tree) := by
    decide +kernel
  obtain ⟨hcalls, hscopes, -⟩ := calls_return_to_caller h host () ()
  obtain ⟨frame, below, destination, hframes, -, hresumes⟩ := hcalls [] _ rfl (by decide)
  obtain ⟨rfl, rfl⟩ : (⟨0, 0⟩ : Frame) = frame ∧ [] = below := List.cons.inj hframes
  have hinside : Inside host tree 1 turns (step.run host tree (.ofTree tree (), ())) := by
    unfold Inside
    decide
  have hback := hresumes.returned hinside (t := .step) (by decide)
  have hopen := hscopes (step :: turns) _ rfl
  have hcalled : times host tree (calls tree) (step :: turns) (.ofTree tree (), ()) = 2 := by decide
  have hreturned : times host tree (returns tree) (step :: turns) (.ofTree tree (), ()) = 1 := by decide
  rw [hcalled, hreturned] at hopen
  exact ⟨tree, h, hresumes, hinside, hback.2, hopen⟩

end Narrative
