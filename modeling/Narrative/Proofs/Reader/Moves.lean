import Mathlib.Logic.Relation
import Narrative.Reader.Advance

namespace Narrative

variable {α κ σ : Type}

-- What holds before any gate is asked, and as gates are asked one by one
theorem Template.testGates_induction (host : Host α κ σ) (t : Template α) (context : κ)
    (node : NodeId) (s : σ) {P : List α → Bool × σ → Prop} (hstart : P [] (true, s))
    (hgate : ∀ {asked : List α} {passed : Bool} {now : σ} (gate : α), P asked (passed, now) →
      P (asked ++ [gate]) (passed && (host.test gate context node now).1,
        (host.test gate context node now).2)) :
    P (t.args.filter host.isGate) (t.testGates host context node s) := by
  have hrow : ∀ (gates asked : List α) (passed : Bool) (now : σ), P asked (passed, now) →
      P (asked ++ gates) (gates.foldl (fun p gate =>
        (p.1 && (host.test gate context node p.2).1, (host.test gate context node p.2).2))
        (passed, now)) := by
    intro gates
    induction gates with
    | nil =>
        intro asked passed now h
        rwa [List.append_nil]
    | cons gate gates ih =>
        intro asked passed now h
        have hrest := ih (asked ++ [gate]) _ _ (hgate gate h)
        rwa [List.append_assoc, List.singleton_append] at hrest
  exact hrow _ [] true s hstart

-- What each test keeps of what gates remember, all gates of a template keep.
theorem Template.keeps_testGates {host : Host α κ σ} {P : σ → Prop}
    (htest : ∀ {s : σ} (gate : α) (context : κ) (node : NodeId), P s → P (host.test gate context node s).2)
    (t : Template α) (context : κ) (node : NodeId) {s : σ} (h : P s) :
    P (t.testGates host context node s).2 :=
  t.testGates_induction host context node s (P := fun _ o => P o.2) h fun gate hnow => htest gate context node hnow

-- The frame with so many more of its children behind it
def Frame.past (frame : Frame) (count : Nat) : Frame := { frame with next := frame.next + count }

namespace Reader

-- The innermost frame of a reader, and the child that it has come to
structure Faces (tree : Tree α) (r : Reader κ) (frame : Frame) (below : List Frame) (id : NodeId)
    (child : Node α) : Prop where
  frames_eq : r.frames = frame :: below
  child_eq : (tree.children frame.node)[frame.next]? = some id
  get?_eq : tree.get? id = some child

-- What a line leads to that its gates let pass
def emitted (host : Host α κ σ) (id : NodeId) (shown : Template α) (now : Shown) :
    Option Pause × Shown :=
  match shown.render host.render with
  | .error e => (some (.unrendered e), now)
  | .ok t => if Text.allBlank t then (none, now) else (some .shown, .line id)

-- All that a step of a reader can do
inductive Steps (host : Host α κ σ) (tree : Tree α) (r : Reader κ) (s : σ) :
    Option Pause → Reader κ → σ → Prop
  | idle (hframes : r.frames = []) : Steps host tree r s (some .ended) r s
  | ended {frame : Frame} {below : List Frame} (hframes : r.frames = frame :: below)
      (hdone : (tree.children frame.node)[frame.next]? = none)
      (hscope : tree.isScope frame.node = true) : Steps host tree r s (some .ended) r s
  | left {frame : Frame} {below : List Frame} (hframes : r.frames = frame :: below)
      (hdone : (tree.children frame.node)[frame.next]? = none)
      (hscope : tree.isScope frame.node = false) :
      Steps host tree r s none { r with frames := below } s
  | lost {frame : Frame} {below : List Frame} {id : NodeId} (hframes : r.frames = frame :: below)
      (hchild : (tree.children frame.node)[frame.next]? = some id) (hget : tree.get? id = none) :
      Steps host tree r s none { r with frames := frame.past 1 :: below } s
  | hidden {frame : Frame} {below : List Frame} {id : NodeId} {child : Node α} {shown : Template α}
      {s' : σ} (h : Faces tree r frame below id child) (hkind : child.kind = .line shown)
      (htest : shown.testGates host r.context child.id s = (false, s')) :
      Steps host tree r s none { r with frames := frame.past 1 :: below } s'
  | passed {frame : Frame} {below : List Frame} {id : NodeId} {child : Node α} {shown : Template α}
      {s' : σ} {p : Option Pause} {now : Shown} (h : Faces tree r frame below id child)
      (hkind : child.kind = .line shown)
      (htest : shown.testGates host r.context child.id s = (true, s'))
      (hemitted : emitted host child.id shown r.shown = (p, now)) :
      Steps host tree r s p
        { r with
          frames := if child.children = [] then frame.past 1 :: below
            else ⟨child.id, 0⟩ :: frame.past 1 :: below
          shown := now } s'
  | unoffered {frame : Frame} {below : List Frame} {id : NodeId} {child : Node α}
      {label : Template α} {run : List NodeId} {s' : σ} (h : Faces tree r frame below id child)
      (hkind : child.kind = .choice label)
      (hrun : run = choiceRun tree (tree.children frame.node) frame.next)
      (hvisible : visible host tree r.context run s = ([], s')) :
      Steps host tree r s none { r with frames := frame.past run.length :: below } s'
  | offered {frame : Frame} {below : List Frame} {id : NodeId} {child : Node α}
      {label : Template α} {run ids : List NodeId} {s' : σ} (h : Faces tree r frame below id child)
      (hkind : child.kind = .choice label)
      (hrun : run = choiceRun tree (tree.children frame.node) frame.next)
      (hvisible : visible host tree r.context run s = (ids, s')) (hne : ids ≠ []) :
      Steps host tree r s (some .shown)
        { r with frames := frame.past run.length :: below, shown := .choices ids } s'
  | returned {frame : Frame} {below : List Frame} {id : NodeId} {child : Node α}
      (h : Faces tree r frame below id child) (hkind : child.kind = .ret) :
      Steps host tree r s none { r with frames := unwind tree (frame :: below) } s
  | called {frame : Frame} {below : List Frame} {id : NodeId} {child : Node α} {target : Text}
      {destination : NodeId} (h : Faces tree r frame below id child)
      (hkind : child.kind = .goTo target (some destination)) :
      Steps host tree r s none { r with frames := ⟨destination, 0⟩ :: frame.past 1 :: below } s
  | unresolved {frame : Frame} {below : List Frame} {id : NodeId} {child : Node α} {target : Text}
      (h : Faces tree r frame below id child) (hkind : child.kind = .goTo target none) :
      Steps host tree r s (some (.refused (.unresolvedGoTo target child.line)))
        { r with frames := frame.past 1 :: below } s
  | silent {frame : Frame} {below : List Frame} {id : NodeId} {child : Node α}
      (h : Faces tree r frame below id child)
      (hkind : (∃ note, child.kind = .comment note) ∨ child.kind = .closeChoice ∨
        ∃ name, child.kind = .scope name) :
      Steps host tree r s none { r with frames := frame.past 1 :: below } s

variable (host : Host α κ σ) (tree : Tree α)

-- Options are left out, and none moves.
theorem visible_sublist (context : κ) (ids : List NodeId) (s : σ) :
    (visible host tree context ids s).1.Sublist ids := by
  induction ids generalizing s with
  | nil => exact List.Sublist.refl []
  | cons id ids ih =>
      cases hlabel : tree.template? id with
      | none =>
          simp only [visible, hlabel, Bool.false_eq_true, if_false]
          exact (ih s).cons id
      | some label =>
          simp only [visible, hlabel]
          split
          · exact (ih _).cons_cons id
          · exact (ih _).cons id

theorem steps_line {r : Reader κ} {frame : Frame} {below : List Frame} {id : NodeId} {child : Node α}
    {shown : Template α} (h : Faces tree r frame below id child) (hkind : child.kind = .line shown)
    (s : σ) {p : Option Pause} {r' : Reader κ} {s' : σ}
    (hstep : stepLine host r (frame.past 1 :: below) child shown s = (p, r', s')) :
    Steps host tree r s p r' s' := by
  unfold stepLine at hstep
  rcases htest : shown.testGates host r.context child.id s with ⟨passed, s₁⟩
  rw [htest] at hstep
  dsimp only at hstep
  cases passed with
  | false =>
      cases hstep
      exact .hidden h hkind htest
  | true =>
      rw [if_neg (by decide)] at hstep
      cases hrender : shown.render host.render with
      | error e =>
          rw [hrender] at hstep
          cases hstep
          exact .passed h hkind htest (by rw [emitted, hrender])
      | ok t =>
          rw [hrender] at hstep
          dsimp only at hstep
          by_cases hblank : Text.allBlank t = true
          · rw [if_pos hblank] at hstep
            cases hstep
            exact .passed h hkind htest (by simp only [emitted, hrender, if_pos hblank])
          · rw [if_neg hblank] at hstep
            cases hstep
            exact .passed h hkind htest (by simp only [emitted, hrender, if_neg hblank])

theorem steps_choices {r : Reader κ} {frame : Frame} {below : List Frame} {id : NodeId}
    {child : Node α} {label : Template α} (h : Faces tree r frame below id child)
    (hkind : child.kind = .choice label) (s : σ) {run : List NodeId}
    (hrun : run = choiceRun tree (tree.children frame.node) frame.next)
    {p : Option Pause} {r' : Reader κ} {s' : σ}
    (hstep : stepChoices host tree r (frame.past run.length :: below) run s = (p, r', s')) :
    Steps host tree r s p r' s' := by
  unfold stepChoices at hstep
  rcases hvisible : visible host tree r.context run s with ⟨ids, s₁⟩
  rw [hvisible] at hstep
  dsimp only at hstep
  by_cases hne : ids = []
  · rw [if_pos hne] at hstep
    cases hstep
    subst hne
    exact .unoffered h hkind hrun hvisible
  · rw [if_neg hne] at hstep
    cases hstep
    exact .offered h hkind hrun hvisible hne

variable {tree} in
-- What a step does with the child that the reader has come to
theorem Faces.step_eq {r : Reader κ} {frame : Frame} {below : List Frame} {id : NodeId} {child : Node α}
    (h : Faces tree r frame below id child) (s : σ) :
    step host tree r s =
      match child.kind with
      | .line shown => stepLine host r (frame.past 1 :: below) child shown s
      | .choice _ =>
        let run := choiceRun tree (tree.children frame.node) frame.next
        stepChoices host tree r (frame.past run.length :: below) run s
      | .ret => (none, { r with frames := unwind tree (frame :: below) }, s)
      | .goTo _ (some destination) => (none, { r with frames := ⟨destination, 0⟩ :: frame.past 1 :: below }, s)
      | .goTo target none =>
        (some (.refused (.unresolvedGoTo target child.line)), { r with frames := frame.past 1 :: below }, s)
      | .comment _ | .closeChoice | .scope _ => (none, { r with frames := frame.past 1 :: below }, s) := by
  simp only [step, h.frames_eq, h.child_eq, h.get?_eq]
  rfl

-- A step does one of these things.
theorem steps_of_step {r r' : Reader κ} {s s' : σ} {p : Option Pause}
    (h : step host tree r s = (p, r', s')) : Steps host tree r s p r' s' := by
  cases hframes : r.frames with
  | nil =>
      simp only [step, hframes] at h
      cases h
      exact .idle hframes
  | cons frame below =>
      cases hchild : (tree.children frame.node)[frame.next]? with
      | none =>
          simp only [step, hframes, hchild] at h
          by_cases hscope : tree.isScope frame.node = true
          · rw [if_pos hscope] at h
            cases h
            exact .ended hframes hchild hscope
          · rw [if_neg hscope] at h
            cases h
            exact .left hframes hchild (eq_false_of_ne_true hscope)
      | some id =>
          cases hget : tree.get? id with
          | none =>
              simp only [step, hframes, hchild, hget] at h
              cases h
              exact .lost hframes hchild hget
          | some child =>
              have hfaces : Faces tree r frame below id child := ⟨hframes, hchild, hget⟩
              rw [hfaces.step_eq] at h
              cases hkind : child.kind with
              | line shown =>
                  rw [hkind] at h
                  exact steps_line host tree hfaces hkind s h
              | choice label =>
                  rw [hkind] at h
                  exact steps_choices host tree hfaces hkind s rfl h
              | ret =>
                  rw [hkind] at h
                  cases h
                  exact .returned hfaces hkind
              | goTo target destination =>
                  rw [hkind] at h
                  cases destination with
                  | none =>
                      cases h
                      exact .unresolved hfaces hkind
                  | some destination =>
                      cases h
                      exact .called hfaces hkind
              | comment note =>
                  rw [hkind] at h
                  cases h
                  exact .silent hfaces (.inl ⟨note, hkind⟩)
              | closeChoice =>
                  rw [hkind] at h
                  cases h
                  exact .silent hfaces (.inr (.inl hkind))
              | scope name =>
                  rw [hkind] at h
                  cases h
                  exact .silent hfaces (.inr (.inr ⟨name, hkind⟩))

-- Each of the things that a step can do happens.
theorem Steps.step_eq {r r' : Reader κ} {s s' : σ} {p : Option Pause} (h : Steps host tree r s p r' s') :
    step host tree r s = (p, r', s') := by
  cases h with
  | idle hframes => simp only [step, hframes]
  | ended hframes hdone hscope => simp only [step, hframes, hdone, hscope, if_true]
  | left hframes hdone hscope =>
      simp only [step, hframes, hdone, hscope, Bool.false_eq_true, if_false]
  | lost hframes hchild hget =>
      simp only [step, hframes, hchild, hget]
      rfl
  | hidden hfaces hkind htest =>
      rw [hfaces.step_eq, hkind]
      simp only [stepLine, htest, Bool.not_false, if_true]
  | @passed _ _ _ _ shown _ _ _ hfaces hkind htest hemitted =>
      rw [hfaces.step_eq, hkind]
      cases hshown : shown.render host.render with
      | error e =>
          simp only [emitted, hshown] at hemitted
          cases hemitted
          simp only [stepLine, htest, hshown, Bool.not_true, Bool.false_eq_true, if_false]
      | ok t =>
          simp only [emitted, hshown] at hemitted
          by_cases hblank : t.allBlank = true
          · rw [if_pos hblank] at hemitted
            cases hemitted
            simp only [stepLine, htest, hshown, hblank, Bool.not_true, Bool.false_eq_true, if_false, if_true]
          · rw [if_neg hblank] at hemitted
            cases hemitted
            simp only [stepLine, htest, hshown, hblank, Bool.not_true, Bool.false_eq_true, if_false]
  | unoffered hfaces hkind hrun hvisible =>
      subst hrun
      rw [hfaces.step_eq, hkind]
      simp only [stepChoices, hvisible, if_true]
  | offered hfaces hkind hrun hvisible hne =>
      subst hrun
      rw [hfaces.step_eq, hkind]
      simp only [stepChoices, hvisible, if_neg hne]
  | returned hfaces hkind => rw [hfaces.step_eq, hkind]
  | called hfaces hkind => rw [hfaces.step_eq, hkind]
  | unresolved hfaces hkind => rw [hfaces.step_eq, hkind]
  | silent hfaces hkind =>
      rw [hfaces.step_eq]
      obtain ⟨note, hkind⟩ | hkind | ⟨name, hkind⟩ := hkind <;> rw [hkind]

-- From one state to another by steps that do not pause
def Unpaused : Reader κ × σ → Reader κ × σ → Prop :=
  Relation.ReflTransGen fun x y => step host tree x.1 x.2 = (none, y)

-- What a step keeps holds as long as there is no pause.
theorem Unpaused.keeps {P : Reader κ → σ → Prop}
    (hmove : ∀ {r r' : Reader κ} {s s' : σ}, P r s → Steps host tree r s none r' s' → P r' s')
    {x y : Reader κ × σ} (h : Unpaused host tree x y) (hx : P x.1 x.2) : P y.1 y.2 := by
  induction h with
  | refl => exact hx
  | tail _ hstep ih => exact hmove ih (steps_of_step host tree hstep)

-- A run is steps that do not pause, and then one that does.
theorem exists_unpaused_of_run {moves : Nat} {r r' : Reader κ} {s s' : σ} {p : Pause}
    (h : run host tree moves r s = some (p, r', s')) :
    ∃ r₁ s₁, Unpaused host tree (r, s) (r₁, s₁) ∧ Steps host tree r₁ s₁ (some p) r' s' := by
  induction moves generalizing r s with
  | zero => cases h
  | succ moves ih =>
      rw [run] at h
      rcases hstep : step host tree r s with ⟨_ | q, r₁, s₁⟩
      · rw [hstep] at h
        obtain ⟨r₂, s₂, hrest, hlast⟩ := ih h
        exact ⟨r₂, s₂, .head hstep hrest, hlast⟩
      · rw [hstep] at h
        cases h
        exact ⟨r, s, .refl, steps_of_step host tree hstep⟩

-- What holds between steps, and what the last of them comes to
theorem run_induction {P : Reader κ → σ → Prop} {Q : Pause → Reader κ → σ → Prop}
    (hmove : ∀ {r r' : Reader κ} {s s' : σ}, P r s → Steps host tree r s none r' s' → P r' s')
    (hpause : ∀ {r r' : Reader κ} {s s' : σ} {p : Pause}, P r s →
      Steps host tree r s (some p) r' s' → Q p r' s')
    {moves : Nat} {r r' : Reader κ} {s s' : σ} {p : Pause} (hstart : P r s)
    (h : run host tree moves r s = some (p, r', s')) : Q p r' s' := by
  obtain ⟨r₁, s₁, hmoved, hlast⟩ := exists_unpaused_of_run host tree h
  exact hpause (hmoved.keeps host tree hmove hstart) hlast

variable {host tree}

-- A line that cannot be rendered, one that there is nothing to see of, and one that is shown
theorem cases_of_emitted {id : NodeId} {shown : Template α} {now now' : Shown} {p : Option Pause}
    (h : emitted host id shown now = (p, now')) :
    (∃ e, p = some (.unrendered e) ∧ now' = now) ∨ p = none ∧ now' = now ∨
      ∃ t, shown.render host.render = .ok t ∧ t.allBlank = false ∧ p = some .shown ∧ now' = .line id := by
  unfold emitted at h
  split at h
  · cases h
    exact .inl ⟨_, rfl, rfl⟩
  · next t hrender =>
    split at h
    · cases h
      exact .inr (.inl ⟨rfl, rfl⟩)
    · next hvisible =>
      cases h
      exact .inr (.inr ⟨t, hrender, eq_false_of_ne_true hvisible, rfl, rfl⟩)

-- A line is shown as it pauses, or it leaves what is shown.
theorem emitted_cases {id : NodeId} {shown : Template α} {now now' : Shown} {p : Option Pause}
    (h : emitted host id shown now = (p, now')) :
    p ≠ some .shown ∧ now' = now ∨ p = some .shown ∧ now' = .line id := by
  rcases cases_of_emitted h with ⟨e, rfl, rfl⟩ | ⟨rfl, rfl⟩ | ⟨-, -, -, rfl, rfl⟩
  · exact .inl ⟨by simp, rfl⟩
  · exact .inl ⟨by simp, rfl⟩
  · exact .inr ⟨rfl, rfl⟩

-- Only a step that pauses to show something changes what is shown.
theorem Steps.shown_eq_of_ne {p : Option Pause} {r r' : Reader κ} {s s' : σ} (h : Steps host tree r s p r' s')
    (hp : p ≠ some .shown) : r'.shown = r.shown := by
  cases h with
  | passed _ _ _ hemitted =>
      rcases emitted_cases hemitted with ⟨-, hnow⟩ | ⟨hshown, -⟩
      · exact hnow
      · exact absurd hshown hp
  | offered => exact absurd rfl hp
  | _ => rfl

theorem Steps.shown_eq {r r' : Reader κ} {s s' : σ} (h : Steps host tree r s none r' s') : r'.shown = r.shown :=
  h.shown_eq_of_ne (by simp)

theorem Steps.context_eq {p : Option Pause} {r r' : Reader κ} {s s' : σ} (h : Steps host tree r s p r' s') :
    r'.context = r.context := by
  cases h <;> rfl

theorem Unpaused.shown_eq {x y : Reader κ × σ} (h : Unpaused host tree x y) : y.1.shown = x.1.shown :=
  h.keeps host tree (P := fun r _ => r.shown = x.1.shown) (fun hr hstep => hstep.shown_eq.trans hr) rfl

theorem Unpaused.context_eq {x y : Reader κ × σ} (h : Unpaused host tree x y) : y.1.context = x.1.context :=
  h.keeps host tree (P := fun r _ => r.context = x.1.context) (fun hr hstep => hstep.context_eq.trans hr) rfl

-- Pending choices are in the way of a run.
theorem advance_cases {moves : Nat} {r r' : Reader κ} {s s' : σ} {p : Pause}
    (h : r.advance host tree moves s = some (p, r', s')) :
    r.isChoice = true ∧ p = .refused .choicePending ∧ r' = r ∧ s' = s ∨
      r.isChoice = false ∧
        run host tree moves { r with shown := .nothing } s = some (p, r', s') := by
  obtain ⟨frames, shown, context⟩ := r
  cases shown with
  | choices ids =>
      cases h
      exact .inl ⟨rfl, rfl, rfl, rfl⟩
  | nothing | line => exact .inr ⟨rfl, h⟩

-- A call that was not refused is steps that do not pause, and then one that does.
theorem exists_unpaused_of_advance {moves : Nat} {r r' : Reader κ} {s s' : σ} {p : Pause}
    (h : r.advance host tree moves s = some (p, r', s')) (hp : p ≠ .refused .choicePending) :
    ∃ r₁ s₁, Unpaused host tree ({ r with shown := .nothing }, s) (r₁, s₁) ∧
      Steps host tree r₁ s₁ (some p) r' s' := by
  rcases advance_cases h with ⟨-, hrefused, -⟩ | ⟨-, hrun⟩
  · exact absurd hrefused hp
  · exact exists_unpaused_of_run host tree hrun

section Keeps

variable {P : σ → Prop}
  (htest : ∀ {s : σ} (gate : α) (context : κ) (node : NodeId), P s → P (host.test gate context node s).2)
  {r r' : Reader κ} {s s' : σ}

include htest

theorem keeps_visible (tree : Tree α) (context : κ) (ids : List NodeId) (h : P s) :
    P (visible host tree context ids s).2 := by
  induction ids generalizing s with
  | nil => exact h
  | cons id ids ih =>
      simp only [visible]
      cases tree.template? id with
      | none => exact ih h
      | some label => exact ih (label.keeps_testGates htest context id h)

theorem Steps.keeps_state {p : Option Pause} (h : Steps host tree r s p r' s') (hs : P s) : P s' := by
  cases h with
  | @hidden _ _ _ child shown _ _ _ hanswer | @passed _ _ _ child shown _ _ _ _ _ hanswer =>
      have hall := shown.keeps_testGates htest r.context child.id hs
      rwa [hanswer] at hall
  | @unoffered _ _ _ _ _ run _ _ _ _ hvisible | @offered _ _ _ _ _ run _ _ _ _ _ hvisible =>
      have hall := keeps_visible htest tree r.context run hs
      rwa [hvisible] at hall
  | _ => exact hs

theorem keeps_run {moves : Nat} {p : Pause} (h : run host tree moves r s = some (p, r', s')) (hs : P s) : P s' :=
  run_induction host tree (P := fun _ s => P s) (Q := fun _ _ s => P s)
    (fun hbefore hstep => hstep.keeps_state htest hbefore)
    (fun hbefore hstep => hstep.keeps_state htest hbefore) hs h

theorem keeps_advance {moves : Nat} {p : Pause} (h : r.advance host tree moves s = some (p, r', s')) (hs : P s) :
    P s' := by
  rcases advance_cases h with ⟨-, -, -, rfl⟩ | ⟨-, hrun⟩
  · exact hs
  · exact keeps_run htest hrun hs

end Keeps

-- The option that is picked is entered.
theorem exists_of_choose {index : Nat} {r r' : Reader κ} (h : r.choose index = .ok r') :
    ∃ ids id, r.shown = .choices ids ∧ ids[index]? = some id ∧
      r' = { r with frames := ⟨id, 0⟩ :: r.frames, shown := .nothing } := by
  unfold choose at h
  split at h
  · next ids hshown =>
    split at h
    · next id hid =>
      cases h
      exact ⟨ids, id, hshown, hid, rfl⟩
    · cases h
  · cases h

theorem isChoice_iff_output (tree : Tree α) {r : Reader κ} :
    r.isChoice = true ↔ ∃ labels, r.output tree = some (.choices labels) := by
  obtain ⟨frames, shown, context⟩ := r
  cases shown <;> simp [isChoice, output]

theorem isChoice_of_choose {index : Nat} {r r' : Reader κ} (h : r.choose index = .ok r') :
    r'.isChoice = false := by
  obtain ⟨_, _, -, -, rfl⟩ := exists_of_choose h
  rfl

theorem exists_choose {r : Reader κ} {ids : List NodeId} (hshown : r.shown = .choices ids) {index : Nat}
    (hlt : index < ids.length) : ∃ r', r.choose index = .ok r' := by
  refine ⟨{ r with frames := ⟨ids[index], 0⟩ :: r.frames, shown := .nothing }, ?_⟩
  simp only [choose, hshown, List.getElem?_eq_getElem hlt]

end Reader

-- What a program does with a reader. Between calls it may change what gates remember, and
-- so clear them.
inductive Command (κ σ : Type) where
  | advance (moves : Nat)
  | choose (index : Nat)
  | reset
  | context (now : κ)
  | gates (change : σ → σ)

-- A call that is refused leaves the reader as it was. One that does not come back within
-- its moves leaves none.
def Command.run (host : Host α κ σ) (tree : Tree α) :
    Command κ σ → Reader κ × σ → Option (Reader κ × σ)
  | advance moves, (r, s) => (r.advance host tree moves s).map (·.2)
  | choose index, (r, s) =>
    match r.choose index with
    | .ok r => some (r, s)
    | .error _ => some (r, s)
  | reset, (r, s) => some (r.reset tree, s)
  | context now, (r, s) => some ({ r with context := now }, s)
  | gates change, (r, s) => some (r, change s)

theorem Command.choose_cases {host : Host α κ σ} {tree : Tree α} {index : Nat} {r : Reader κ} {s : σ}
    {y : Reader κ × σ} (h : (choose index).run host tree (r, s) = some y) :
    y = (r, s) ∨ ∃ r', r.choose index = .ok r' ∧ y = (r', s) := by
  dsimp only [run] at h
  split at h
  · next r' hchoose => exact .inr ⟨r', hchoose, (Option.some.inj h).symm⟩
  · exact .inl (Option.some.inj h).symm

-- Readers of a tree, from its root on
inductive Reader.Reachable (host : Host α κ σ) (tree : Tree α) : Reader κ × σ → Prop
  | start (context : κ) (s : σ) : Reachable host tree (.ofTree tree context, s)
  | command {x y : Reader κ × σ} (h : Reachable host tree x) (c : Command κ σ)
      (hc : c.run host tree x = some y) : Reachable host tree y

end Narrative
