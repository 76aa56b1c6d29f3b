import Narrative.Proofs.Reader.Session

namespace Narrative

variable {α κ σ τ : Type} {host : Host α κ σ} {other : Host α κ τ} {tree : Tree α}
  {A : Telling α σ → Prop} {R : Telling α σ → τ → Prop}

-- The gate is an argument of something that the story shows.
def Tree.Uses (tree : Tree α) (gate : α) : Prop :=
  ∃ id shown, tree.template? id = some shown ∧ gate ∈ shown.args

-- A host that answers as another one does, as long as what is asked is allowed. What the two
-- remember is related, and what is allowed was allowed before.
structure Host.Mirrors (host : Host α κ σ) (other : Host α κ τ) (tree : Tree α) (A : Telling α σ → Prop)
    (R : Telling α σ → τ → Prop) : Prop where
  render_eq : other.render = host.render
  isGate_eq : other.isGate = host.isGate
  allowed : ∀ {t t' : Telling α σ}, t.Asks t' → A t' → A t
  test : ∀ {gate : α} (context : κ) (node : NodeId) {t : Telling α σ} {u : τ},
    tree.Uses gate → host.isGate gate = true → A (host.told.test gate context node t).2 → R t u →
      (other.test gate context node u).1 = (host.told.test gate context node t).1 ∧
        R (host.told.test gate context node t).2 (other.test gate context node u).2

namespace Host.Mirrors

variable (h : host.Mirrors other tree A R) {r r' : Reader κ} {t t' : Telling α σ} {u : τ}

include h

theorem testGates {shown : Template α} (huses : ∀ gate ∈ shown.args, tree.Uses gate) {context : κ}
    {node : NodeId} {passed : Bool} (htest : shown.testGates host.told context node t = (passed, t'))
    (hallowed : A t') (hrelated : R t u) :
    ∃ u', shown.testGates other context node u = (passed, u') ∧ R t' u' := by
  have hrow := shown.testGates_induction host.told context node t
    (P := fun asked o => (∀ gate ∈ asked, tree.Uses gate ∧ host.isGate gate = true) → A o.2 →
      ∃ u', asked.foldl (fun p gate => (p.1 && (other.test gate context node p.2).1,
        (other.test gate context node p.2).2)) (true, u) = (o.1, u') ∧ R o.2 u')
    (fun _ _ => ⟨u, rfl, hrelated⟩) ?_
  · rw [htest] at hrow
    obtain ⟨u', hfold, hrelated'⟩ := hrow (fun gate hmem => ⟨huses gate (List.mem_of_mem_filter hmem),
      (List.mem_filter.1 hmem).2⟩) hallowed
    refine ⟨u', ?_, hrelated'⟩
    rw [Template.testGates, h.isGate_eq]
    exact hfold
  · intro asked passed now gate hasked hgates hnext
    have hbefore := h.allowed (Session.asks_test host gate context node (.refl now)) hnext
    obtain ⟨u', hfold, hnow⟩ := hasked (fun o hmem => hgates o (List.mem_append_left _ hmem)) hbefore
    obtain ⟨huse, hgate⟩ := hgates gate (by simp)
    obtain ⟨hanswer, hlast⟩ := h.test context node huse hgate hnext hnow
    refine ⟨_, ?_, hlast⟩
    rw [List.foldl_append, hfold, List.foldl_cons, List.foldl_nil, hanswer]

theorem visible {context : κ} {ids options : List NodeId}
    (hvisible : Reader.visible host.told tree context ids t = (options, t')) (hallowed : A t')
    (hrelated : R t u) :
    ∃ u', Reader.visible other tree context ids u = (options, u') ∧ R t' u' := by
  induction ids generalizing t u options with
  | nil =>
      cases hvisible
      exact ⟨u, rfl, hrelated⟩
  | cons id ids ih =>
      cases hlabel : tree.template? id with
      | none =>
          simp only [Reader.visible, hlabel, Bool.false_eq_true, if_false] at hvisible ⊢
          exact ih hvisible hrelated
      | some label =>
          rcases htest : label.testGates host.told context id t with ⟨passed, t₁⟩
          rcases hrest : Reader.visible host.told tree context ids t₁ with ⟨others, t₂⟩
          simp only [Reader.visible, hlabel, htest, hrest, Prod.mk.injEq] at hvisible
          obtain ⟨hoptions, rfl⟩ := hvisible
          have hasks := Reader.keeps_visible (Session.asks_test host) tree context ids (Telling.Asks.refl t₁)
          rw [hrest] at hasks
          obtain ⟨u₁, hpassed, hbetween⟩ := h.testGates (fun gate hmem => ⟨id, label, hlabel, hmem⟩) htest
            (h.allowed hasks hallowed) hrelated
          obtain ⟨u₂, hothers, hafter⟩ := ih hrest hbetween
          refine ⟨u₂, ?_, hafter⟩
          simp only [Reader.visible, hlabel, hpassed, hothers, hoptions]

theorem steps {p : Option Pause} (hsteps : Reader.Steps host.told tree r t p r' t') (hallowed : A t')
    (hrelated : R t u) : ∃ u', Reader.Steps other tree r u p r' u' ∧ R t' u' := by
  have huses : ∀ {frame : Frame} {below : List Frame} {id : NodeId} {child : Node α} {shown : Template α},
      Reader.Faces tree r frame below id child → child.kind = .line shown →
      ∀ gate ∈ shown.args, tree.Uses gate := by
    intro frame below id child shown hfaces hkind gate hmem
    exact ⟨id, shown, Tree.template?_eq_some hfaces.get?_eq (by rw [hkind]; rfl), hmem⟩
  cases hsteps with
  | idle hframes => exact ⟨u, .idle hframes, hrelated⟩
  | ended hframes hdone hscope => exact ⟨u, .ended hframes hdone hscope, hrelated⟩
  | left hframes hdone hscope => exact ⟨u, .left hframes hdone hscope, hrelated⟩
  | lost hframes hchild hget => exact ⟨u, .lost hframes hchild hget, hrelated⟩
  | hidden hfaces hkind htest =>
      obtain ⟨u', hanswer, hafter⟩ := h.testGates (huses hfaces hkind) htest hallowed hrelated
      exact ⟨u', .hidden hfaces hkind hanswer, hafter⟩
  | passed hfaces hkind htest hemitted =>
      obtain ⟨u', hanswer, hafter⟩ := h.testGates (huses hfaces hkind) htest hallowed hrelated
      refine ⟨u', .passed hfaces hkind hanswer ?_, hafter⟩
      rw [Reader.emitted, h.render_eq]
      exact hemitted
  | unoffered hfaces hkind hrun hvisible =>
      obtain ⟨u', hoptions, hafter⟩ := h.visible hvisible hallowed hrelated
      exact ⟨u', .unoffered hfaces hkind hrun hoptions, hafter⟩
  | offered hfaces hkind hrun hvisible hne =>
      obtain ⟨u', hoptions, hafter⟩ := h.visible hvisible hallowed hrelated
      exact ⟨u', .offered hfaces hkind hrun hoptions hne, hafter⟩
  | returned hfaces hkind => exact ⟨u, .returned hfaces hkind, hrelated⟩
  | called hfaces hkind => exact ⟨u, .called hfaces hkind, hrelated⟩
  | unresolved hfaces hkind => exact ⟨u, .unresolved hfaces hkind, hrelated⟩
  | silent hfaces hkind => exact ⟨u, .silent hfaces hkind, hrelated⟩

theorem run {moves : Nat} {p : Pause} (hrun : Reader.run host.told tree moves r t = some (p, r', t'))
    (hallowed : A t') (hrelated : R t u) :
    ∃ u', Reader.run other tree moves r u = some (p, r', u') ∧ R t' u' := by
  induction moves generalizing r t u with
  | zero => cases hrun
  | succ moves ih =>
      rw [Reader.run] at hrun
      rcases hstep : Reader.step host.told tree r t with ⟨_ | q, r₁, t₁⟩
      · rw [hstep] at hrun
        have hasks := Reader.keeps_run (Session.asks_test host) hrun (Telling.Asks.refl t₁)
        obtain ⟨u₁, hstep₁, hbetween⟩ :=
          h.steps (Reader.steps_of_step _ _ hstep) (h.allowed hasks hallowed) hrelated
        obtain ⟨u₂, hrest, hafter⟩ := ih hrun hbetween
        refine ⟨u₂, ?_, hafter⟩
        rw [Reader.run, hstep₁.step_eq]
        exact hrest
      · rw [hstep] at hrun
        cases hrun
        obtain ⟨u₁, hstep₁, hafter⟩ := h.steps (Reader.steps_of_step _ _ hstep) hallowed hrelated
        refine ⟨u₁, ?_, hafter⟩
        rw [Reader.run, hstep₁.step_eq]

theorem advance {moves : Nat} {p : Pause}
    (hadvance : r.advance host.told tree moves t = some (p, r', t')) (hallowed : A t') (hrelated : R t u) :
    ∃ u', r.advance other tree moves u = some (p, r', u') ∧ R t' u' := by
  obtain ⟨frames, shown, context⟩ := r
  cases shown with
  | choices ids =>
      cases hadvance
      exact ⟨u, rfl, hrelated⟩
  | nothing | line => exact h.run hadvance hallowed hrelated

end Host.Mirrors

-- Writing down what is asked changes nothing.
theorem Host.mirrors_told (host : Host α κ σ) (tree : Tree α) :
    host.Mirrors host tree (fun _ => True) fun t s => t.state = s where
  render_eq := rfl
  isGate_eq := rfl
  allowed := fun _ _ => trivial
  test := by
    rintro gate context node t _ - - - rfl
    exact ⟨rfl, rfl⟩

theorem Reader.run_told (host : Host α κ σ) (tree : Tree α) (moves : Nat) (r : Reader κ) (t : Telling α σ) :
    run host tree moves r t.state =
      (run host.told tree moves r t).map fun (p, r', t') => (p, r', t'.state) := by
  induction moves generalizing r t with
  | zero => rfl
  | succ moves ih =>
      rcases hstep : step host.told tree r t with ⟨p, r₁, t₁⟩
      obtain ⟨_, hstep₁, rfl⟩ := (host.mirrors_told tree).steps (steps_of_step _ _ hstep) trivial rfl
      rw [run, run, hstep₁.step_eq, hstep]
      cases p with
      | none => exact ih r₁ t₁
      | some p => rfl

theorem Reader.advance_told (host : Host α κ σ) (tree : Tree α) (moves : Nat) (r : Reader κ)
    (t : Telling α σ) :
    r.advance host tree moves t.state =
      (r.advance host.told tree moves t).map fun (p, r', t') => (p, r', t'.state) := by
  obtain ⟨frames, shown, context⟩ := r
  cases shown with
  | choices ids => rfl
  | nothing | line => exact run_told host tree moves _ t

end Narrative
