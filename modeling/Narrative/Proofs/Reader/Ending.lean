import Narrative.Proofs.Reader.Sharing
import Narrative.Proofs.Reader.Stack

namespace Narrative

variable {α κ σ : Type} {host : Host α κ σ} {tree : Tree α}

namespace Reader

-- There is nothing left to play: the last frame has been left, or the innermost one has come to
-- the end of a scope.
inductive Over (tree : Tree α) : List Frame → Prop
  | left : Over tree []
  | played {frame : Frame} {below : List Frame} (hscope : tree.isScope frame.node = true)
      (hnext : frame.next = (tree.children frame.node).length) : Over tree (frame :: below)

variable {r r' : Reader κ} {s s' : σ}

-- A session ends where it is over, and stays there.
theorem Steps.over (hr : Stacked tree r.frames) (h : Steps host tree r s (some .ended) r' s') :
    Over tree r.frames ∧ r' = r := by
  cases h with
  | idle hframes =>
      rw [hframes]
      exact ⟨.left, rfl⟩
  | @ended frame below hframes hdone hscope =>
      rw [hframes] at hr ⊢
      obtain ⟨node, hnode, hle, -⟩ := hr.inTree frame List.mem_cons_self
      have hlength : (tree.children frame.node).length ≤ frame.next := List.getElem?_eq_none_iff.1 hdone
      refine ⟨.played hscope (Nat.le_antisymm ?_ hlength), rfl⟩
      rwa [Tree.children, hnode]
  | passed _ _ _ hemitted =>
      rcases cases_of_emitted hemitted with ⟨_, hp, -⟩ | ⟨hp, -⟩ | ⟨-, -, -, hp, -⟩ <;> cases hp

theorem over_of_advance (htree : tree.Traversable) (hr : Placed tree r) {moves : Nat}
    (h : r.advance host tree moves s = some (.ended, r', s')) :
    Over tree r'.frames ∧ r'.shown = .nothing := by
  obtain ⟨r₁, s₁, hmoved, hlast⟩ := exists_unpaused_of_advance h (by simp)
  have hmoving : Moving tree r₁ := hmoved.moving htree ⟨hr.stacked, rfl⟩
  obtain ⟨hover, rfl⟩ := hlast.over hmoving.stacked
  exact ⟨hover, hmoving.shown_eq⟩

theorem Over.step_eq (h : Over tree r.frames) (s : σ) : step host tree r s = (some .ended, r, s) := by
  obtain ⟨frames, shown, context⟩ := r
  cases h with
  | left => exact Steps.step_eq host tree (.idle rfl)
  | played hscope hnext =>
      exact Steps.step_eq host tree (.ended rfl (List.getElem?_eq_none hnext.ge) hscope)

theorem Over.advance_eq (h : Over tree r.frames) (hshown : r.shown = .nothing) {moves : Nat}
    (hmoves : 0 < moves) (s : σ) : r.advance host tree moves s = some (.ended, r, s) := by
  obtain ⟨moves, rfl⟩ := Nat.exists_eq_succ_of_ne_zero hmoves.ne'
  obtain ⟨frames, shown, context⟩ := r
  obtain rfl : shown = .nothing := hshown
  rw [advance, run, h.step_eq]

end Reader

namespace Command

-- A command other than a reset. An advance has a move to make, and so comes back.
def continues : Command κ σ → Bool
  | advance moves => 0 < moves
  | reset => false
  | _ => true

-- What a command is answered when the session is over
def replyAtEnd : Command κ σ → Reply
  | advance _ => .paused .ended
  | choose _ => .picked (some .noPendingChoice)
  | _ => .done

variable {r : Reader κ}

-- Whatever is asked of it, a session that is over stays over, and no gate is asked.
theorem exists_call_of_over (host : Host α κ σ) (hover : Reader.Over tree r.frames)
    (hshown : r.shown = .nothing) {c : Command κ σ} (hc : c.continues = true) (s : σ) :
    ∃ r' s', c.call host tree (r, s) = some (⟨c.replyAtEnd, r', []⟩, s') ∧ r'.frames = r.frames ∧
      r'.shown = .nothing := by
  cases c with
  | advance moves =>
      refine ⟨r, s, ?_, rfl, hshown⟩
      rw [call, hover.advance_eq hshown (of_decide_eq_true hc)]
      rfl
  | choose index =>
      refine ⟨r, s, ?_, rfl, hshown⟩
      simp only [call, Reader.choose, hshown]
      rfl
  | reset => cases hc
  | context now => exact ⟨{ r with context := now }, s, rfl, rfl, hshown⟩
  | gates change => exact ⟨r, change s, rfl, rfl, hshown⟩

theorem exists_alone_of_over {commands : List (Command κ σ)} (hcommands : ∀ c ∈ commands, c.continues = true)
    (hover : Reader.Over tree r.frames) (hshown : r.shown = .nothing) (s : σ) :
    ∃ upshots, alone host tree commands r s = some upshots ∧
      List.Forall₂ (fun c upshot => upshot.reply = c.replyAtEnd ∧ upshot.events = [] ∧
        upshot.reader.frames = r.frames) commands upshots := by
  induction commands generalizing r s with
  | nil => exact ⟨[], rfl, .nil⟩
  | cons c commands ih =>
      obtain ⟨hc, hrest⟩ := List.forall_mem_cons.1 hcommands
      obtain ⟨r', s', hcall, hframes, hshown'⟩ := exists_call_of_over host hover hshown hc s
      obtain ⟨upshots, halone, hupshots⟩ := ih hrest (hframes ▸ hover) hshown' s'
      rw [hframes] at hupshots
      refine ⟨⟨c.replyAtEnd, r', []⟩ :: upshots, ?_, .cons ⟨rfl, rfl, hframes⟩ hupshots⟩
      simp only [alone, hcall, Option.bind_some, halone, Option.map_some]

end Command

namespace Reader

-- The end of a session is final. It is there that nothing is left to play, and whatever follows
-- except for a reset, with whatever becomes of the context and of what gates remember, comes to
-- the end again or has no choice to answer, asks no gate and leaves all frames as they are.
theorem ended_session_stays_ended {isGate : α → Bool} {document : Template α} {options : ParseOptions}
    {issues : List Issue} {tree : Tree α} (h : parse isGate document options = (issues, .ok tree))
    (host : Host α κ σ) {r r' : Reader κ} {s s' : σ} (hr : Reachable host tree (r, s)) {moves : Nat}
    (hended : r.advance host tree moves s = some (.ended, r', s')) :
    Over tree r'.frames ∧
    ∀ commands : List (Command κ σ), (∀ c ∈ commands, c.continues = true) →
      ∃ upshots, Command.alone host tree commands r' s' = some upshots ∧
        List.Forall₂ (fun c upshot => upshot.reply = c.replyAtEnd ∧ upshot.events = [] ∧
          upshot.reader.frames = r'.frames) commands upshots := by
  have htree := Tree.traversable_of_parse h
  obtain ⟨hover, hshown⟩ := over_of_advance htree (hr.placed htree) hended
  exact ⟨hover, fun commands hcommands => Command.exists_alone_of_over hcommands hover hshown s'⟩

-- The end of a scope that was called, with a line left in the scope that has called it
theorem ended_session_stays_ended_called :
    let host : Host Nat Unit Nat := ⟨fun _ _ => .ok ['x'], fun _ => true, fun _ _ _ s => (true, s + 1)⟩
    let commands : List (Command Unit Nat) :=
      [.advance 1, .choose 0, .context (), .gates fun _ => 0, .advance 9]
    ∃ (tree : Tree Nat) (r : Reader Unit),
      parse (fun _ => true) ⟨"-> S\na\n== S\n\x7b0\x7d".toList, [7],
        [.literal "-> S\na\n== S\n".toList, .placeholder ⟨0, none, none⟩]⟩ .default = ([], .ok tree) ∧
      Reachable host tree (r, 1) ∧ r.advance host tree 9 1 = some (.ended, { r with shown := .nothing }, 1) ∧
      r.frames = [⟨3, 1⟩, ⟨0, 1⟩] ∧ Over tree [⟨3, 1⟩, ⟨0, 1⟩] ∧ (∀ c ∈ commands, c.continues = true) ∧
      ∃ upshots, Command.alone host tree commands { r with shown := .nothing } 1 = some upshots ∧
        List.Forall₂ (fun c upshot => upshot.reply = c.replyAtEnd ∧ upshot.events = [] ∧
          upshot.reader.frames = [⟨3, 1⟩, ⟨0, 1⟩]) commands upshots := by
  intro host commands
  let tree : Tree Nat := ⟨#[⟨0, .scope [], 0, [1, 2]⟩, ⟨1, .goTo ['S'] (some 3), 0, []⟩,
    ⟨2, .line ⟨['a'], [], [.literal ['a']]⟩, 1, []⟩, ⟨3, .scope ['S'], 2, [4]⟩,
    ⟨4, .line ⟨"\x7b0\x7d".toList, [7], [.placeholder ⟨0, none, none⟩]⟩, 3, []⟩], 0⟩
  have h : parse (fun _ => true) ⟨"-> S\na\n== S\n\x7b0\x7d".toList, [7],
      [.literal "-> S\na\n== S\n".toList, .placeholder ⟨0, none, none⟩]⟩ .default = ([], .ok tree) := by
    decide +kernel
  have hr : Reachable host tree (⟨[⟨3, 1⟩, ⟨0, 1⟩], .line 4, ()⟩, 1) :=
    .command (.start () 0) (.advance 9) rfl
  have hcommands : ∀ c ∈ commands, c.continues = true := by decide
  have hended : advance host tree 9 ⟨[⟨3, 1⟩, ⟨0, 1⟩], .line 4, ()⟩ 1 =
      some (.ended, ⟨[⟨3, 1⟩, ⟨0, 1⟩], .nothing, ()⟩, 1) := rfl
  obtain ⟨hover, hlater⟩ := ended_session_stays_ended h host hr hended
  exact ⟨tree, _, h, hr, hended, rfl, hover, hcommands, hlater commands hcommands⟩

-- A reset leads back to the start from wherever a reader has come to, each of its fields. What
-- gates remember stays, and all that follows is what a new reader with that context comes to.
theorem reset_restores_start {isGate : α → Bool} {document : Template α} {options : ParseOptions}
    {issues : List Issue} {tree : Tree α} (h : parse isGate document options = (issues, .ok tree))
    (host : Host α κ σ) {x : Fields κ} {s : σ} (hx : Fields.Reachable host tree (x, s)) :
    (x.reset tree).frames = [⟨tree.root, 0⟩] ∧ (x.reset tree).pending = [] ∧
    (x.reset tree).isChoice = false ∧ (x.reset tree).line? = none ∧
    x.reset tree = .ofTree tree x.context ∧
    Command.reset.runFields host tree (x, s) = some (.ofTree tree x.context, s) ∧
    ∃ r : Reader κ, x = .ofReader r ∧ Reachable host tree (r, s) ∧
      r.reset tree = .ofTree tree r.context ∧
      Command.reset.run host tree (r, s) = some (.ofTree tree r.context, s) ∧
      ∀ commands : List (Command κ σ), Command.alone host tree (.reset :: commands) r s =
        (Command.alone host tree commands (.ofTree tree r.context) s).map
          (⟨.done, .ofTree tree r.context, []⟩ :: ·) := by
  obtain ⟨r, rfl, hr⟩ := hx.exists_reader
  have hreset : r.reset tree = .ofTree tree r.context := (hr.placed (Tree.traversable_of_parse h)).reset_eq
  have hfields : (Fields.ofReader r).reset tree = .ofTree tree r.context := by
    rw [Fields.reset_ofReader, hreset]
    rfl
  rw [hfields]
  refine ⟨rfl, rfl, rfl, rfl, rfl, ?_, r, rfl, hr, hreset, ?_, fun commands => ?_⟩
  · rw [Command.runFields, hfields]
    rfl
  · rw [Command.run, hreset]
  · rw [Command.alone, Command.call, hreset]
    rfl

-- Options are pending in a scope that an option has called, and the context is another one.
theorem reset_restores_start_called :
    let host : Host Nat Bool Nat := ⟨fun _ _ => .ok [], fun _ => false, fun _ _ _ s => (true, s)⟩
    ∃ (tree : Tree Nat) (r : Reader Bool),
      parse (fun _ => false) ⟨"> a\n  -> S\n> b\n== S\n> c".toList, [], []⟩ .default = ([], .ok tree) ∧
      Fields.Reachable host tree (.ofReader r, 5) ∧ r.frames = [⟨4, 1⟩, ⟨1, 1⟩, ⟨0, 2⟩] ∧ r.pending = [5] ∧
      ((Fields.ofReader r).reset tree).frames = [⟨0, 0⟩] ∧ (Fields.ofReader r).reset tree = .ofTree tree true ∧
      Command.reset.runFields host tree (.ofReader r, 5) = some (.ofTree tree true, 5) ∧
      Command.alone host tree [.reset, .advance 9] r 5 =
        (Command.alone host tree [.advance 9] (.ofTree tree true) 5).map
          (⟨.done, .ofTree tree true, []⟩ :: ·) := by
  intro host
  let tree : Tree Nat := ⟨#[⟨0, .scope [], 0, [1, 3]⟩,
    ⟨1, .choice ⟨['a'], [], [.literal ['a']]⟩, 0, [2]⟩, ⟨2, .goTo ['S'] (some 4), 1, []⟩,
    ⟨3, .choice ⟨['b'], [], [.literal ['b']]⟩, 2, []⟩, ⟨4, .scope ['S'], 3, [5]⟩,
    ⟨5, .choice ⟨['c'], [], [.literal ['c']]⟩, 4, []⟩], 0⟩
  have h : parse (fun _ => false) ⟨"> a\n  -> S\n> b\n== S\n> c".toList, [], []⟩ .default =
      ([], .ok tree) := by
    decide +kernel
  have hr : Reachable host tree (⟨[⟨4, 1⟩, ⟨1, 1⟩, ⟨0, 2⟩], .choices [5], true⟩, 5) :=
    .command (.command (.command (.command (.start false 5) (.advance 2) rfl) (.choose 0) rfl)
      (.context true) rfl) (.advance 9) rfl
  have hx := Fields.reachable_ofReader hr
  obtain ⟨hframes, -, -, -, hreset, hrun, r, hr', -, -, -, hlater⟩ := reset_restores_start h host hx
  obtain rfl := Fields.ofReader_inj hr'
  exact ⟨tree, _, h, hx, rfl, rfl, hframes, hreset, hrun, hlater [.advance 9]⟩

end Reader

end Narrative
