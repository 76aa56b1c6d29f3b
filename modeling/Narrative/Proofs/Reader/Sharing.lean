import Mathlib.Data.Set.Defs
import Narrative.Proofs.Reader.Mirroring
import Narrative.Proofs.Reader.Once

namespace Narrative

section Calls

variable {α κ σ ι : Type}

-- What a call gives back
inductive Reply where
  | paused (p : Pause)
  | picked (refusal : Option ReaderError)
  | done
deriving DecidableEq, Repr

-- What comes of a call: its reply, the reader as it is then, and what was asked on the way
structure Upshot (α κ : Type) where
  reply : Reply
  reader : Reader κ
  events : List (Event α)

-- Whether a command is a call of the reader, and leaves the gates to it
def Command.isCall : Command κ σ → Bool
  | gates _ => false
  | _ => true

-- A command that is run, and all that comes of it
def Command.call (host : Host α κ σ) (tree : Tree α) :
    Command κ σ → Reader κ × σ → Option (Upshot α κ × σ)
  | advance moves, (r, s) =>
    (r.advance host.told tree moves (.start s)).map fun (p, r, t) => (⟨.paused p, r, t.events⟩, t.state)
  | choose index, (r, s) =>
    match r.choose index with
    | .ok r => some (⟨.picked none, r, []⟩, s)
    | .error e => some (⟨.picked (some e), r, []⟩, s)
  | reset, (r, s) => some (⟨.done, r.reset tree, []⟩, s)
  | context now, (r, s) => some (⟨.done, { r with context := now }, []⟩, s)
  | gates change, (r, s) => some (⟨.done, r, []⟩, change s)

theorem Command.run_eq_call (host : Host α κ σ) (tree : Tree α) (c : Command κ σ) (r : Reader κ) (s : σ) :
    c.run host tree (r, s) = (c.call host tree (r, s)).map fun (upshot, s) => (upshot.reader, s) := by
  cases c with
  | advance moves =>
      have htold := r.advance_told host tree moves (.start s)
      rw [run, call, Option.map_map]
      rw [show (Telling.start s : Telling α σ).state = s from rfl] at htold
      rw [htold, Option.map_map]
      rfl
  | choose index =>
      rw [run, call]
      cases r.choose index <;> rfl
  | reset | context | gates => rfl

-- Readers of one tree that take turns, with what their gates remember in common: what comes
-- of each call, in the order of the calls. There is nothing if one of them does not come back.
def Command.takeTurns [DecidableEq ι] (host : Host α κ σ) (tree : Tree α) :
    List (ι × Command κ σ) → (ι → Reader κ) → σ → Option (List (ι × Upshot α κ))
  | [], _, _ => some []
  | (i, c) :: calls, readers, s =>
    (c.call host tree (readers i, s)).bind fun (upshot, s) =>
      (takeTurns host tree calls (Function.update readers i upshot.reader) s).map ((i, upshot) :: ·)

-- The part of a row that is one reader's
def ofReader [DecidableEq ι] {β : Type} (i : ι) (row : List (ι × β)) : List β :=
  (row.filter (·.1 = i)).map (·.2)

@[simp] theorem ofReader_cons_self [DecidableEq ι] {β : Type} (i : ι) (x : β) (row : List (ι × β)) :
    ofReader i ((i, x) :: row) = x :: ofReader i row := by
  simp [ofReader]

theorem ofReader_cons_of_ne [DecidableEq ι] {β : Type} {i j : ι} (h : i ≠ j) (x : β) (row : List (ι × β)) :
    ofReader i ((j, x) :: row) = ofReader i row := by
  simp [ofReader, Ne.symm h]

-- The same for the calls of a single reader
def Command.alone (host : Host α κ σ) (tree : Tree α) :
    List (Command κ σ) → Reader κ → σ → Option (List (Upshot α κ))
  | [], _, _ => some []
  | c :: calls, r, s =>
    (c.call host tree (r, s)).bind fun (upshot, s) =>
      (alone host tree calls upshot.reader s).map (upshot :: ·)

end Calls

variable {κ ω σ ι : Type}

-- The once gate and the node of a test, if it is one
def Event.onceTest? : Event (Object κ ω) → Option (Nat × NodeId)
  | asked gate node _ => if gate.isOnce then some (gate.id, node) else none
  | _ => none

def onceTests (events : List (Event (Object κ ω))) : List (Nat × NodeId) := events.filterMap Event.onceTest?

-- What a host's own gates of a story answer is decided by the context and the node.
def Tree.Decided (tree : Tree (Object κ ω)) (custom : Host ω κ σ) : Prop :=
  ∀ o object, tree.Uses o → o.content = .custom object → custom.isGate object = true →
    ∀ context node s s', (custom.test object context node s).1 = (custom.test object context node s').1

-- Once gates remember the same, but for some tests.
def Seen.Alike (apart : Set (Nat × NodeId)) (s t : Seen) : Prop := ∀ pair ∉ apart, pair ∈ s ↔ pair ∈ t

namespace Seen.Alike

variable {apart : Set (Nat × NodeId)} {s t u : Seen} {id : Nat} {node : NodeId}

theorem refl (s : Seen) : Alike apart s s := fun _ _ => Iff.rfl

theorem symm (h : Alike apart s t) : Alike apart t s := fun pair hpair => (h pair hpair).symm

theorem trans (h : Alike apart s t) (h' : Alike apart t u) : Alike apart s u :=
  fun pair hpair => (h pair hpair).trans (h' pair hpair)

-- A visit is remembered where it belongs.
theorem visit_of_mem (s : Seen) (hmem : (id, node) ∈ apart) : Alike apart s (s.visit id node).2 := by
  unfold visit
  split
  · exact refl s
  · intro pair hpair
    have hne : pair ≠ (id, node) := fun he => hpair (he ▸ hmem)
    simp [hne]

theorem visit (h : Alike apart s t) (hmem : (id, node) ∉ apart) :
    (t.visit id node).1 = (s.visit id node).1 ∧ Alike apart (s.visit id node).2 (t.visit id node).2 := by
  have hsame := h (id, node) hmem
  unfold Seen.visit
  by_cases hseen : (id, node) ∈ s
  · rw [if_pos hseen, if_pos (hsame.1 hseen)]
    exact ⟨rfl, h⟩
  · rw [if_neg hseen, if_neg (mt hsame.2 hseen)]
    refine ⟨rfl, fun pair hpair => ?_⟩
    simp only [List.mem_cons, h pair hpair]

end Seen.Alike

section Sharing

variable {custom : Host ω κ σ} {tree : Tree (Object κ ω)} {apart : Set (Nat × NodeId)}

theorem onceTests_append (events more : List (Event (Object κ ω))) :
    onceTests (events ++ more) = onceTests events ++ onceTests more := List.filterMap_append

theorem onceTests_asked (gate : Object κ ω) (node : NodeId) (answer : Bool) :
    onceTests [.asked gate node answer] = if gate.isOnce then [(gate.id, node)] else [] := by
  simp only [onceTests, List.filterMap_cons, List.filterMap_nil, Event.onceTest?]
  cases gate.isOnce <;> rfl

-- A test that is no once gate's leaves what once gates remember.
theorem Object.seen_test (o : Object κ ω) (custom : Host ω κ σ) (context : κ) (node : NodeId) (s : Seen × σ) :
    (o.test custom context node s).2.1 = if o.isOnce then (s.1.visit o.id node).2 else s.1 := by
  unfold test isOnce
  cases o.content <;> rfl

-- Once gates answer alike outside of what is remembered apart, and all others in any case.
theorem Object.answer_test (hdecided : tree.Decided custom) {o : Object κ ω} (huse : tree.Uses o)
    (hgate : o.isGate custom = true) {node : NodeId} (hapart : o.isOnce = true → (o.id, node) ∉ apart)
    (context : κ) {s t : Seen × σ} (h : Seen.Alike apart s.1 t.1) :
    (o.test custom context node t).1 = (o.test custom context node s).1 := by
  cases hcontent : o.content with
  | value | text | condition => simp only [test, hcontent]
  | once =>
      have honce : o.isOnce = true := by rw [isOnce, hcontent]
      simp only [test, hcontent]
      exact (h.visit (hapart honce)).1
  | custom object =>
      rw [isGate, hcontent] at hgate
      simp only [test, hcontent]
      exact hdecided o object huse hcontent hgate context node t.2 s.2

theorem Object.alike_test (o : Object κ ω) {node : NodeId} (hapart : o.isOnce = true → (o.id, node) ∉ apart)
    (context : κ) {s t : Seen × σ} (h : Seen.Alike apart s.1 t.1) :
    Seen.Alike apart (o.test custom context node s).2.1 (o.test custom context node t).2.1 := by
  rw [seen_test, seen_test]
  split
  · next honce => exact (h.visit (hapart honce)).2
  · exact h

-- A host mirrors itself outside of what is remembered apart.
theorem Object.mirrors (hdecided : tree.Decided custom) (apart : Set (Nat × NodeId)) :
    (Object.host custom).Mirrors (Object.host custom).told tree
      (fun t => ∀ pair ∈ onceTests t.events, pair ∉ apart)
      (fun t u => u.events = t.events ∧ Seen.Alike apart t.state.1 u.state.1) where
  render_eq := rfl
  isGate_eq := rfl
  allowed := by
    rintro t t' ⟨asked, -, he⟩ hallowed pair hmem
    apply hallowed pair
    rw [he, onceTests_append]
    exact List.mem_append_left _ hmem
  test := by
    rintro o context node t u huse hgate hallowed ⟨hevents, halike⟩
    have hapart : o.isOnce = true → (o.id, node) ∉ apart := by
      intro honce
      apply hallowed
      dsimp only [Host.told]
      rw [onceTests_append, onceTests_asked, if_pos honce]
      exact List.mem_append_right _ (List.mem_singleton_self _)
    have hanswer := o.answer_test hdecided huse hgate hapart context halike
    refine ⟨hanswer, ?_, o.alike_test hapart context halike⟩
    dsimp only [Host.told]
    rw [hevents]
    exact congrArg (fun answer => t.events ++ [Event.asked o node answer]) hanswer

-- A call changes nothing but what it tests.
theorem Command.untouched {c : Command κ (Seen × σ)} (hcall : c.isCall = true) {r : Reader κ}
    {s s' : Seen × σ} {upshot : Upshot (Object κ ω) κ}
    (h : c.call (Object.host custom) tree (r, s) = some (upshot, s'))
    (htests : ∀ pair ∈ onceTests upshot.events, pair ∈ apart) : Seen.Alike apart s.1 s'.1 := by
  cases c with
  | advance moves =>
      obtain ⟨⟨p, r', t⟩, hadvance, he⟩ := Option.map_eq_some_iff.1 h
      obtain ⟨rfl, rfl⟩ := Prod.mk.inj he
      refine Reader.keeps_advance (P := fun t => (∀ pair ∈ onceTests t.events, pair ∈ apart) →
        Seen.Alike apart s.1 t.state.1) ?_ hadvance (fun _ => .refl s.1) htests
      intro t o context node hbefore hnext
      dsimp only [Host.told] at hnext ⊢
      rw [onceTests_append, onceTests_asked] at hnext
      have hearlier := hbefore fun pair hmem => hnext pair (List.mem_append_left _ hmem)
      have hlast : Seen.Alike apart t.state.1 (o.test custom context node t.state).2.1 := by
        rw [o.seen_test]
        split
        · next honce => exact .visit_of_mem _ (hnext _ (by simp [honce]))
        · exact .refl _
      exact hearlier.trans hlast
  | choose index =>
      rw [call] at h
      split at h <;> cases h <;> exact .refl _
  | reset | context =>
      cases h
      exact .refl _
  | gates change => cases hcall

-- A call that tests nothing that is remembered apart comes to the same.
theorem Command.mirrored (hdecided : tree.Decided custom) {c : Command κ (Seen × σ)}
    (hcall : c.isCall = true) {r : Reader κ} {s s' t : Seen × σ}
    {upshot : Upshot (Object κ ω) κ} (h : c.call (Object.host custom) tree (r, s) = some (upshot, s'))
    (htests : ∀ pair ∈ onceTests upshot.events, pair ∉ apart) (halike : Seen.Alike apart s.1 t.1) :
    ∃ t', c.call (Object.host custom) tree (r, t) = some (upshot, t') ∧ Seen.Alike apart s'.1 t'.1 := by
  cases c with
  | advance moves =>
      obtain ⟨⟨p, r', now⟩, hadvance, he⟩ := Option.map_eq_some_iff.1 h
      obtain ⟨rfl, rfl⟩ := Prod.mk.inj he
      obtain ⟨u, hmirrored, hevents, hafter⟩ :=
        (Object.mirrors hdecided apart).advance (u := .start t) hadvance htests ⟨rfl, halike⟩
      refine ⟨u.state, ?_, hafter⟩
      rw [call, hmirrored, ← hevents]
      rfl
  | choose index =>
      rw [call] at h ⊢
      split at h <;> cases h <;> exact ⟨t, rfl, halike⟩
  | reset | context =>
      cases h
      exact ⟨t, rfl, halike⟩
  | gates change => cases hcall

variable [DecidableEq ι]

-- What one reader comes to among others, when all that the others test is remembered apart
theorem Command.alone_of_takeTurns (apart : Set (Nat × NodeId)) (hdecided : tree.Decided custom) (i : ι)
    {calls : List (ι × Command κ (Seen × σ))} (hcalls : ∀ call ∈ calls, call.2.isCall = true)
    {readers : ι → Reader κ} {s t : Seen × σ} {log : List (ι × Upshot (Object κ ω) κ)}
    (h : takeTurns (Object.host custom) tree calls readers s = some log)
    (hown : ∀ x ∈ log, x.1 = i → ∀ pair ∈ onceTests x.2.events, pair ∉ apart)
    (hothers : ∀ x ∈ log, x.1 ≠ i → ∀ pair ∈ onceTests x.2.events, pair ∈ apart)
    (halike : Seen.Alike apart s.1 t.1) :
    alone (Object.host custom) tree (ofReader i calls) (readers i) t = some (ofReader i log) := by
  induction calls generalizing readers s t log with
  | nil =>
      cases h
      rfl
  | cons call calls ih =>
      obtain ⟨j, c⟩ := call
      obtain ⟨⟨upshot, s'⟩, hcall, hrest⟩ := Option.bind_eq_some_iff.1 h
      obtain ⟨more, hmore, rfl⟩ := Option.map_eq_some_iff.1 hrest
      rw [List.forall_mem_cons] at hown hothers hcalls
      rcases eq_or_ne i j with rfl | hne
      · obtain ⟨t', hmirrored, hafter⟩ := c.mirrored hdecided hcalls.1 hcall (hown.1 rfl) halike
        have hlater := ih hcalls.2 hmore hown.2 hothers.2 hafter
        rw [Function.update_self] at hlater
        simp only [ofReader_cons_self, alone, hmirrored, Option.bind_some, hlater, Option.map_some]
      · have hbetween := Command.untouched hcalls.1 hcall (hothers.1 hne.symm)
        have hlater := ih hcalls.2 hmore hown.2 hothers.2 (hbetween.symm.trans halike)
        rw [Function.update_of_ne hne] at hlater
        rw [ofReader_cons_of_ne hne, ofReader_cons_of_ne hne, hlater]

-- Readers that come back alone come back among others.
theorem Command.takeTurns_of_alone (apart : ι → Set (Nat × NodeId)) (hdecided : tree.Decided custom)
    {calls : List (ι × Command κ (Seen × σ))} (hcalls : ∀ call ∈ calls, call.2.isCall = true)
    {readers : ι → Reader κ} {s : Seen × σ} {states : ι → Seen × σ} {logs : ι → List (Upshot (Object κ ω) κ)}
    (h : ∀ i, alone (Object.host custom) tree (ofReader i calls) (readers i) (states i) = some (logs i))
    (hown : ∀ i, ∀ x ∈ logs i, ∀ pair ∈ onceTests x.events, pair ∉ apart i)
    (hothers : ∀ i j, j ≠ i → ∀ x ∈ logs j, ∀ pair ∈ onceTests x.events, pair ∈ apart i)
    (halike : ∀ i, Seen.Alike (apart i) (states i).1 s.1) :
    ∃ log, takeTurns (Object.host custom) tree calls readers s = some log ∧ ∀ i, ofReader i log = logs i := by
  induction calls generalizing readers s states logs with
  | nil => exact ⟨[], rfl, fun i => Option.some.inj (h i)⟩
  | cons call calls ih =>
      obtain ⟨j, c⟩ := call
      rw [List.forall_mem_cons] at hcalls
      have hfirst := h j
      rw [ofReader_cons_self, alone] at hfirst
      obtain ⟨⟨upshot, t'⟩, hcall, hrest⟩ := Option.bind_eq_some_iff.1 hfirst
      obtain ⟨more, hmore, hlogs⟩ := Option.map_eq_some_iff.1 hrest
      have hmem : upshot ∈ logs j := hlogs ▸ List.mem_cons_self
      obtain ⟨s', hmirrored, hafter⟩ := c.mirrored hdecided hcalls.1 hcall (hown j upshot hmem) (halike j)
      -- the others are where they were, with all that was tested remembered apart
      have hnext : ∀ i, alone (Object.host custom) tree (ofReader i calls)
          (Function.update readers j upshot.reader i) (Function.update states j t' i) =
            some (Function.update logs j more i) := by
        intro i
        rcases eq_or_ne i j with rfl | hne
        · simpa only [Function.update_self] using hmore
        · have hsame := h i
          rw [ofReader_cons_of_ne hne] at hsame
          simpa only [Function.update_of_ne hne] using hsame
      have hsubset : ∀ i, Function.update logs j more i ⊆ logs i := by
        intro i
        rcases eq_or_ne i j with rfl | hne
        · rw [Function.update_self, ← hlogs]
          exact List.subset_cons_self _ _
        · rw [Function.update_of_ne hne]
          exact List.Subset.refl _
      have halike' : ∀ i, Seen.Alike (apart i) (Function.update states j t' i).1 s'.1 := by
        intro i
        rcases eq_or_ne i j with rfl | hne
        · rwa [Function.update_self]
        · rw [Function.update_of_ne hne]
          exact (halike i).trans (c.untouched hcalls.1 hmirrored (hothers i j hne.symm upshot hmem))
      obtain ⟨log, hlog, hparts⟩ := ih hcalls.2 hnext (fun i x hx => hown i x (hsubset i hx))
        (fun i k hk x hx => hothers i k hk x (hsubset k hx)) halike'
      refine ⟨(j, upshot) :: log, ?_, fun i => ?_⟩
      · simp only [takeTurns, hmirrored, Option.bind_some, hlog, Option.map_some]
      · have hpart := hparts i
        rcases eq_or_ne i j with rfl | hne
        · rw [Function.update_self] at hpart
          rw [ofReader_cons_self, hpart, hlogs]
        · rw [Function.update_of_ne hne] at hpart
          rw [ofReader_cons_of_ne hne, hpart]

-- Readers that share a tree do not interfere: each of them comes to what it comes to alone, if
-- no two of them test one once gate for one node and the host's own gates are decided by the
-- context and the node. Nor does any of them keep another from coming back. That an object
-- renders to the same text whenever it is asked for the same format is assumed of every host.
theorem Command.takeTurns_does_not_interfere (hdecided : tree.Decided custom)
    {calls : List (ι × Command κ (Seen × σ))} (hcalls : ∀ call ∈ calls, call.2.isCall = true)
    (readers : ι → Reader κ) (s : Seen × σ) :
    (∀ log, takeTurns (Object.host custom) tree calls readers s = some log →
      (∀ x ∈ log, ∀ y ∈ log, x.1 ≠ y.1 → ∀ pair ∈ onceTests x.2.events, pair ∉ onceTests y.2.events) →
      ∀ i, alone (Object.host custom) tree (ofReader i calls) (readers i) s = some (ofReader i log)) ∧
    ∀ logs : ι → List (Upshot (Object κ ω) κ),
      (∀ i, alone (Object.host custom) tree (ofReader i calls) (readers i) s = some (logs i)) →
      (∀ i j, i ≠ j → ∀ x ∈ logs i, ∀ y ∈ logs j,
        ∀ pair ∈ onceTests x.events, pair ∉ onceTests y.events) →
      ∃ log, takeTurns (Object.host custom) tree calls readers s = some log ∧
        ∀ i, ofReader i log = logs i := by
  constructor
  · intro log hlog hdisjoint i
    refine alone_of_takeTurns {pair | ∃ y ∈ log, y.1 ≠ i ∧ pair ∈ onceTests y.2.events} hdecided i hcalls
      hlog ?_ ?_ (.refl s.1)
    · rintro x hx hi pair hpair ⟨y, hy, hne, htested⟩
      refine hdisjoint x hx y hy ?_ pair hpair htested
      rw [hi]
      exact Ne.symm hne
    · exact fun x hx hi pair hpair => ⟨x, hx, hi, hpair⟩
  · intro logs halone hdisjoint
    refine takeTurns_of_alone
      (fun i => {pair | ∃ j, j ≠ i ∧ ∃ y ∈ logs j, pair ∈ onceTests y.events}) hdecided hcalls halone ?_ ?_
      (fun i => .refl s.1)
    · rintro i x hx pair hpair ⟨j, hj, y, hy, htested⟩
      exact hdisjoint i j (Ne.symm hj) x hx y hy pair hpair htested
    · exact fun i j hj x hx pair hpair => ⟨j, hj, x, hx, hpair⟩

-- A host without objects of its own
def Host.bare : Host Unit Unit Unit := ⟨fun _ _ => .ok [], fun _ => false, fun _ _ _ s => (true, s)⟩

-- Two options with a line each under one once gate
def Tree.gatedPair : Tree (Object Unit Unit) :=
  let once : Object Unit Unit := ⟨0, .once⟩
  ⟨#[⟨0, .scope [], 0, [1, 3]⟩, ⟨1, .choice ⟨['a'], [], [.literal ['a']]⟩, 0, [2]⟩,
    ⟨2, .line ⟨"\x7b0\x7dx".toList, [once], [.placeholder ⟨0, none, none⟩, .literal ['x']]⟩, 1, []⟩,
    ⟨3, .choice ⟨['b'], [], [.literal ['b']]⟩, 2, [4]⟩,
    ⟨4, .line ⟨"\x7b0\x7dy".toList, [once], [.placeholder ⟨0, none, none⟩, .literal ['y']]⟩, 3, []⟩], 0⟩

-- Both readers have their line, and the first one misses it when it starts again, as it does
-- alone.
theorem Command.takeTurns_does_not_interfere_gated :
    let calls : List (Bool × Command Unit (Seen × Unit)) :=
      [(true, .advance 9), (false, .advance 9), (true, .choose 0), (false, .choose 1), (true, .advance 9),
        (true, .reset), (false, .advance 9), (true, .advance 9), (true, .choose 0), (true, .advance 9)]
    let readers (_ : Bool) : Reader Unit := .ofTree Tree.gatedPair ()
    parse (Object.isGate Host.bare) ⟨">a\n \x7b0\x7dx\n>b\n \x7b0\x7dy".toList, [⟨0, .once⟩], []⟩ .default =
        ([], .ok Tree.gatedPair) ∧
      ∃ log, takeTurns (Object.host Host.bare) Tree.gatedPair calls readers ([], ()) = some log ∧
        log.map (fun x => (x.1, x.2.reply, onceTests x.2.events)) =
          [(true, .paused .shown, []), (false, .paused .shown, []), (true, .picked none, []),
            (false, .picked none, []), (true, .paused .shown, [(0, 2)]), (true, .done, []),
            (false, .paused .shown, [(0, 4)]), (true, .paused .shown, []), (true, .picked none, []),
            (true, .paused .ended, [(0, 2)])] ∧
        alone (Object.host Host.bare) Tree.gatedPair (ofReader true calls) (readers true) ([], ()) =
          some (ofReader true log) := by
  intro calls readers
  have hlogged : (takeTurns (Object.host Host.bare) Tree.gatedPair calls readers ([], ())).map
      (fun log => log.map fun x => (x.1, x.2.reply, onceTests x.2.events)) =
        some [(true, .paused .shown, []), (false, .paused .shown, []), (true, .picked none, []),
          (false, .picked none, []), (true, .paused .shown, [(0, 2)]), (true, .done, []),
          (false, .paused .shown, [(0, 4)]), (true, .paused .shown, []), (true, .picked none, []),
          (true, .paused .ended, [(0, 2)])] := by
    decide +kernel
  obtain ⟨log, hlog, htests⟩ := Option.map_eq_some_iff.1 hlogged
  have hdecided : Tree.gatedPair.Decided Host.bare := fun _ _ _ _ hgate => absurd hgate Bool.false_ne_true
  have hcalls : ∀ call ∈ calls, call.2.isCall = true := by decide
  have hdisjoint : ∀ x ∈ log, ∀ y ∈ log, x.1 ≠ y.1 →
      ∀ pair ∈ onceTests x.2.events, pair ∉ onceTests y.2.events := by
    intro x hx y hy
    have hall : ∀ a ∈ log.map (fun x => (x.1, x.2.reply, onceTests x.2.events)),
        ∀ b ∈ log.map (fun x => (x.1, x.2.reply, onceTests x.2.events)),
        a.1 ≠ b.1 → ∀ pair ∈ a.2.2, pair ∉ b.2.2 := by
      rw [htests]
      decide
    exact hall _ (List.mem_map_of_mem hx) _ (List.mem_map_of_mem hy)
  have halone := (takeTurns_does_not_interfere hdecided hcalls readers ([], ())).1 log hlog hdisjoint true
  refine ⟨?_, log, hlog, htests, halone⟩
  with_unfolding_all rfl

end Sharing

end Narrative
