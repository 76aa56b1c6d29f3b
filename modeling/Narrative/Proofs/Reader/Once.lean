import Narrative.Content.Basic
import Narrative.Proofs.Reader.Stack

namespace Narrative

variable {κ ω σ : Type}

-- What is shown between two states, with an eye on a gate and a node: as long as nothing is
-- forgotten, the node is shown once and only to where the gate remembers it.
structure Seen.Spends (gate : Nat) (node : NodeId) (before after : Seen) (shown : List NodeId) :
    Prop where
  kept : before ⊆ after
  count_le : shown.count node ≤ 1
  fresh : node ∈ shown → (gate, node) ∉ before
  spent : node ∈ shown → (gate, node) ∈ after

namespace Seen.Spends

variable {gate : Nat} {node : NodeId} {before between after : Seen} {shown more : List NodeId}

theorem of_not_mem (h : before ⊆ after) (hmem : node ∉ shown) :
    Spends gate node before after shown where
  kept := h
  count_le := by
    rw [List.count_eq_zero.2 hmem]
    exact Nat.zero_le 1
  fresh := fun hshown => absurd hshown hmem
  spent := fun hshown => absurd hshown hmem

-- Whatever was shown is not shown once more.
theorem append (h : Spends gate node before between shown) (h' : Spends gate node between after more) :
    Spends gate node before after (shown ++ more) where
  kept := fun _ hmem => h'.kept (h.kept hmem)
  count_le := by
    rw [List.count_append]
    by_cases hmem : node ∈ shown
    · have hspent := h.spent hmem
      have hzero : more.count node = 0 := List.count_eq_zero.2 fun hmore => h'.fresh hmore hspent
      have hle := h.count_le
      omega
    · have hzero : shown.count node = 0 := List.count_eq_zero.2 hmem
      have hle := h'.count_le
      omega
  fresh := by
    intro hmem hseen
    rcases List.mem_append.1 hmem with hshown | hmore
    · exact h.fresh hshown hseen
    · exact h'.fresh hmore (h.kept hseen)
  spent := by
    intro hmem
    rcases List.mem_append.1 hmem with hshown | hmore
    · exact h'.kept (h.spent hshown)
    · exact h'.spent hmore

end Seen.Spends

namespace Object

variable (custom : Host ω κ σ) (o : Object κ ω) (context : κ) (node : NodeId) (s : Seen × σ)

theorem isGate_of_isOnce (h : o.isOnce = true) : o.isGate custom = true := by
  unfold isOnce at h
  split at h
  · next hcontent => rw [isGate, hcontent]
  · cases h

-- A test forgets nothing.
theorem subset_test : s.1 ⊆ (o.test custom context node s).2.1 := by
  unfold test
  split
  · exact List.Subset.refl _
  · exact List.Subset.refl _
  · dsimp only [Seen.visit]
    split
    · exact List.Subset.refl _
    · exact List.subset_cons_self _ _
  · exact List.Subset.refl _
  · exact List.Subset.refl _

theorem test_once (h : o.isOnce = true) (hpassed : (o.test custom context node s).1 = true) :
    (o.id, node) ∉ s.1 ∧ (o.id, node) ∈ (o.test custom context node s).2.1 := by
  unfold isOnce at h
  split at h
  · next hcontent =>
    rw [test, hcontent] at hpassed ⊢
    dsimp only [Seen.visit] at hpassed ⊢
    split at hpassed
    · cases hpassed
    · next hnew =>
      rw [if_neg hnew]
      exact ⟨hnew, List.mem_cons_self⟩
  · cases h

end Object

-- Once gates that let a node pass had not seen it before.
theorem Template.testGates_once (custom : Host ω κ σ) {t : Template (Object κ ω)} {context : κ}
    {node : NodeId} {s s' : Seen × σ} {passed : Bool}
    (h : t.testGates (Object.host custom) context node s = (passed, s')) :
    s.1 ⊆ s'.1 ∧ (passed = true → ∀ o ∈ t.args, o.isOnce = true →
      (o.id, node) ∉ s.1 ∧ (o.id, node) ∈ s'.1) := by
  have hgates := t.testGates_induction (Object.host custom) context node s
    (P := fun asked o => s.1 ⊆ o.2.1 ∧ (o.1 = true → ∀ gate ∈ asked, gate.isOnce = true →
      (gate.id, node) ∉ s.1 ∧ (gate.id, node) ∈ o.2.1))
    ⟨List.Subset.refl _, by simp⟩ ?_
  · rw [h] at hgates
    refine ⟨hgates.1, ?_⟩
    intro hpassed o ho honce
    have hgate := o.isGate_of_isOnce custom honce
    exact hgates.2 hpassed o (List.mem_filter.2 ⟨ho, hgate⟩) honce
  · intro asked passed now gate hasked
    obtain ⟨hkept, hall⟩ := hasked
    have hnow : now.1 ⊆ (gate.test custom context node now).2.1 :=
      gate.subset_test custom context node now
    refine ⟨fun _ hmem => hnow (hkept hmem), ?_⟩
    intro hanswers other hother honce
    obtain ⟨hbefore, hanswer⟩ := Bool.and_eq_true_iff.1 hanswers
    rcases List.mem_append.1 hother with hother | hlast
    · obtain ⟨hnew, hseen⟩ := hall hbefore other hother honce
      exact ⟨hnew, hnow hseen⟩
    · obtain rfl := List.mem_singleton.1 hlast
      obtain ⟨hnew, hseen⟩ := other.test_once custom context node now honce hanswer
      exact ⟨fun hmem => hnew (hkept hmem), hseen⟩

-- The gate is a once gate of whatever that node shows.
def Tree.Guards (tree : Tree (Object κ ω)) (gate : Nat) (node : NodeId) : Prop :=
  ∀ shown, tree.template? node = some shown → ∃ o ∈ shown.args, o.isOnce = true ∧ o.id = gate

def Shown.ids : Shown → List NodeId
  | nothing => []
  | line id => [id]
  | choices ids => ids

namespace Reader

-- What a pause shows
def newly (p : Option Pause) (r : Reader κ) : List NodeId :=
  if p = some .shown then r.shown.ids else []

section Steps

variable {custom : Host ω κ σ} {tree : Tree (Object κ ω)} {gate : Nat} {node : NodeId}
  {r r' : Reader κ} {s s' : Seen × σ}

theorem spends_testGates (hguards : tree.Guards gate node) {id : NodeId}
    {shown : Template (Object κ ω)} (hshown : tree.template? id = some shown) {context : κ}
    {passed : Bool} (h : shown.testGates (Object.host custom) context id s = (passed, s')) :
    Seen.Spends gate node s.1 s'.1 (if passed then [id] else []) := by
  obtain ⟨hkept, hall⟩ := Template.testGates_once custom h
  by_cases hid : passed = true ∧ id = node
  · obtain ⟨hpassed, rfl⟩ := hid
    obtain ⟨o, ho, honce, rfl⟩ := hguards shown hshown
    obtain ⟨hnew, hseen⟩ := hall hpassed o ho honce
    rw [if_pos hpassed]
    exact ⟨hkept, by simp, fun _ => hnew, fun _ => hseen⟩
  · apply Seen.Spends.of_not_mem hkept
    split
    · next hpassed =>
      rw [List.mem_singleton]
      exact fun he => hid ⟨hpassed, he.symm⟩
    · exact List.not_mem_nil

theorem spends_visible (hguards : tree.Guards gate node) {context : κ} {ids options : List NodeId}
    (h : visible (Object.host custom) tree context ids s = (options, s')) :
    Seen.Spends gate node s.1 s'.1 options := by
  induction ids generalizing s s' options with
  | nil =>
      cases h
      exact .of_not_mem (List.Subset.refl _) List.not_mem_nil
  | cons id ids ih =>
      cases hlabel : tree.template? id with
      | none =>
          simp only [visible, hlabel, Bool.false_eq_true, if_false] at h
          exact ih h
      | some label =>
          rcases htest : label.testGates (Object.host custom) context id s with ⟨passed, s₁⟩
          rcases hrest : visible (Object.host custom) tree context ids s₁ with ⟨others, s₂⟩
          have hall := (spends_testGates hguards hlabel htest).append (ih hrest)
          simp only [visible, hlabel, htest, hrest] at h
          cases passed with
          | true =>
              cases h
              exact hall
          | false =>
              cases h
              exact hall

-- Whatever a step shows, it asked the gates for.
theorem Steps.spends (hlinked : tree.Linked) (hguards : tree.Guards gate node) {p : Option Pause}
    (h : Steps (Object.host custom) tree r s p r' s') :
    Seen.Spends gate node s.1 s'.1 (newly p r') := by
  have hsame : Seen.Spends gate node s.1 s.1 [] :=
    .of_not_mem (List.Subset.refl _) List.not_mem_nil
  have hshown : ∀ {id : NodeId} {child : Node (Object κ ω)} {shown : Template (Object κ ω)},
      tree.get? id = some child → child.kind = .line shown →
      tree.template? child.id = some shown := by
    intro id child shown hget hkind
    rw [hlinked.id_eq hget]
    exact Tree.template?_eq_some hget (by rw [hkind]; rfl)
  cases h with
  | hidden h hkind htest => exact spends_testGates hguards (hshown h.get?_eq hkind) htest
  | passed h hkind htest hemitted =>
      have hline := spends_testGates hguards (hshown h.get?_eq hkind) htest
      unfold newly
      rcases emitted_cases hemitted with ⟨hp, -⟩ | ⟨rfl, rfl⟩
      · -- the gates let it pass, and there was nothing of it to show
        rw [if_neg hp]
        exact .of_not_mem hline.kept List.not_mem_nil
      · exact hline
  | unoffered h hkind hrun hvisible => exact spends_visible hguards hvisible
  | offered h hkind hrun hvisible => exact spends_visible hguards hvisible
  | _ => exact hsame

theorem spends_advance (hlinked : tree.Linked) (hguards : tree.Guards gate node) {moves : Nat}
    {p : Pause} (h : r.advance (Object.host custom) tree moves s = some (p, r', s')) :
    Seen.Spends gate node s.1 s'.1 (newly (some p) r') := by
  rcases advance_cases h with ⟨-, rfl, rfl, rfl⟩ | ⟨-, hrun⟩
  · -- what is pending was shown before
    exact .of_not_mem (List.Subset.refl _) List.not_mem_nil
  · refine run_induction (Object.host custom) tree (P := fun _ between => s.1 ⊆ between.1)
      (Q := fun p r after => Seen.Spends gate node s.1 after.1 (newly (some p) r)) ?_ ?_
      (List.Subset.refl _) hrun
    · intro r r' between after hkept hstep
      have hspends := hstep.spends hlinked hguards
      exact fun _ hmem => hspends.kept (hkept hmem)
    · intro r r' between after p hkept hstep
      have hbefore : Seen.Spends gate node s.1 between.1 [] :=
        .of_not_mem hkept List.not_mem_nil
      exact hbefore.append (hstep.spends hlinked hguards)

end Steps

end Reader

-- The line or the options that a command comes to
def Command.shows {α : Type} (host : Host α κ σ) (tree : Tree α) :
    Command κ σ → Reader κ × σ → List NodeId
  | advance moves, (r, s) =>
    match r.advance host tree moves s with
    | some (p, r, _) => Reader.newly (some p) r
    | none => []
  | _, _ => []

-- No once gate is cleared, whatever else becomes of what gates remember.
def Command.Keeps : Command κ (Seen × σ) → Prop
  | gates change => ∀ s, s.1 ⊆ (change s).1
  | _ => True

theorem Command.spends {custom : Host ω κ σ} {tree : Tree (Object κ ω)} {gate : Nat} {node : NodeId}
    (hlinked : tree.Linked) (hguards : tree.Guards gate node) {c : Command κ (Seen × σ)}
    {r r' : Reader κ} {s s' : Seen × σ} (h : c.run (Object.host custom) tree (r, s) = some (r', s'))
    (hkeeps : c.Keeps) :
    Seen.Spends gate node s.1 s'.1 (c.shows (Object.host custom) tree (r, s)) := by
  have hsame : Seen.Spends gate node s.1 s.1 [] :=
    .of_not_mem (List.Subset.refl _) List.not_mem_nil
  cases c with
  | advance moves =>
      obtain ⟨⟨p, y⟩, hadvance, rfl⟩ := Option.map_eq_some_iff.1 h
      rw [shows, hadvance]
      exact Reader.spends_advance hlinked hguards hadvance
  | choose index =>
      obtain he | ⟨r', -, he⟩ := Command.choose_cases h
      all_goals
        cases he
        exact hsame
  | reset =>
      cases h
      exact hsame
  | context now =>
      cases h
      exact hsame
  | gates change =>
      cases h
      exact .of_not_mem (hkeeps s) List.not_mem_nil

-- Readers of one tree that are used in turns, with what their gates remember in common and
-- with all that was shown
inductive Reader.Interleaved (custom : Host ω κ σ) (tree : Tree (Object κ ω)) :
    List (Reader κ) → Seen × σ → List NodeId → Prop
  | start (contexts : List κ) (s : Seen × σ) :
      Interleaved custom tree (contexts.map (.ofTree tree)) s []
  | command {readers : List (Reader κ)} {s s' : Seen × σ} {shown : List NodeId} {i : Nat}
      {r r' : Reader κ} (h : Interleaved custom tree readers s shown) (hr : readers[i]? = some r)
      {c : Command κ (Seen × σ)} (hc : c.run (Object.host custom) tree (r, s) = some (r', s'))
      (hkeeps : c.Keeps) :
      Interleaved custom tree (readers.set i r') s'
        (shown ++ c.shows (Object.host custom) tree (r, s))

theorem Reader.Interleaved.exists_spends {custom : Host ω κ σ} {tree : Tree (Object κ ω)}
    {gate : Nat} {node : NodeId} (hlinked : tree.Linked) (hguards : tree.Guards gate node)
    {readers : List (Reader κ)} {s : Seen × σ} {shown : List NodeId}
    (h : Interleaved custom tree readers s shown) :
    ∃ before, Seen.Spends gate node before s.1 shown := by
  induction h with
  | start contexts s => exact ⟨s.1, .of_not_mem (List.Subset.refl _) List.not_mem_nil⟩
  | command _ _ hc hkeeps ih =>
      obtain ⟨before, hbefore⟩ := ih
      exact ⟨before, hbefore.append (Command.spends hlinked hguards hc hkeeps)⟩

-- Whatever has a once gate is shown once at most, as a line or among options, by all of the
-- readers of a story together.
theorem Reader.once_gated_shown_once {isGate : Object κ ω → Bool}
    {document : Template (Object κ ω)} {options : ParseOptions} {issues : List Issue}
    {tree : Tree (Object κ ω)} (h : parse isGate document options = (issues, .ok tree))
    {custom : Host ω κ σ} {readers : List (Reader κ)} {s : Seen × σ} {shown : List NodeId}
    (hreaders : Interleaved custom tree readers s shown) {node : NodeId}
    {t : Template (Object κ ω)} (ht : tree.template? node = some t) {o : Object κ ω}
    (ho : o ∈ t.args) (honce : o.isOnce = true) : shown.count node ≤ 1 := by
  have hguards : tree.Guards o.id node := by
    intro other hother
    obtain rfl : t = other := Option.some.inj (ht.symm.trans hother)
    exact ⟨o, ho, honce, rfl⟩
  obtain ⟨before, hspends⟩ := hreaders.exists_spends (Tree.linked_of_parse h) hguards
  exact hspends.count_le

-- A line and an option under one once gate, and an option without. The first reader has the
-- line and the second one the gated option, so that the first is left with the other option,
-- before it starts again and after.
theorem Reader.once_gated_shown_once_shared :
    let custom : Host Unit Unit Unit := ⟨fun _ _ => .ok [], fun _ => false, fun _ _ _ s => (true, s)⟩
    let once : Object Unit Unit := ⟨0, .once⟩
    ∃ (tree : Tree (Object Unit Unit)) (readers : List (Reader Unit)) (s : Seen × Unit)
      (t : Template (Object Unit Unit)),
      parse (Object.isGate custom) ⟨"\x7b0\x7da\n> \x7b0\x7db\n> c".toList, [once], []⟩ .default =
        ([], .ok tree) ∧
      Interleaved custom tree readers s [1, 2, 3, 3, 3] ∧
      tree.template? 2 = some t ∧ once ∈ t.args ∧ once.isOnce = true ∧
      [1, 2, 3, 3, 3].count 2 ≤ 1 := by
  intro custom once
  let tree : Tree (Object Unit Unit) := ⟨#[⟨0, .scope [], 0, [1, 2, 3]⟩,
    ⟨1, .line ⟨"\x7b0\x7da".toList, [once], [.placeholder ⟨0, none, none⟩, .literal ['a']]⟩, 0, []⟩,
    ⟨2, .choice ⟨"\x7b0\x7db".toList, [once], [.placeholder ⟨0, none, none⟩, .literal ['b']]⟩, 1, []⟩,
    ⟨3, .choice ⟨['c'], [], [.literal ['c']]⟩, 2, []⟩], 0⟩
  have h : parse (Object.isGate custom) ⟨"\x7b0\x7da\n> \x7b0\x7db\n> c".toList, [once], []⟩ .default =
      ([], .ok tree) := by
    with_unfolding_all rfl
  have hline : Interleaved custom tree [⟨[⟨0, 1⟩], .line 1, ()⟩, .ofTree tree ()] ([(0, 1)], ()) [1] :=
    .command (.start [(), ()] ([], ())) (i := 0) rfl (c := .advance 9) rfl trivial
  have hoptions : Interleaved custom tree
      [⟨[⟨0, 1⟩], .line 1, ()⟩, ⟨[⟨0, 3⟩], .choices [2, 3], ()⟩] ([(0, 2), (0, 1)], ()) [1, 2, 3] :=
    .command hline (i := 1) rfl (c := .advance 9) rfl trivial
  have hleft : Interleaved custom tree
      [⟨[⟨0, 3⟩], .choices [3], ()⟩, ⟨[⟨0, 3⟩], .choices [2, 3], ()⟩] ([(0, 2), (0, 1)], ())
      [1, 2, 3, 3] :=
    .command hoptions (i := 0) rfl (c := .advance 9) rfl trivial
  have hreset : Interleaved custom tree
      [.ofTree tree (), ⟨[⟨0, 3⟩], .choices [2, 3], ()⟩] ([(0, 2), (0, 1)], ()) [1, 2, 3, 3] :=
    .command hleft (i := 0) rfl (c := .reset) rfl trivial
  have hagain : Interleaved custom tree
      [⟨[⟨0, 3⟩], .choices [3], ()⟩, ⟨[⟨0, 3⟩], .choices [2, 3], ()⟩] ([(0, 2), (0, 1)], ())
      [1, 2, 3, 3, 3] :=
    .command hreset (i := 0) rfl (c := .advance 9) rfl trivial
  have honce : once ∈ [once] := List.mem_singleton_self once
  exact ⟨tree, _, _, _, h, hagain, rfl, honce, rfl, once_gated_shown_once h hagain rfl honce rfl⟩

end Narrative
