import Mathlib.Data.List.Infix
import Mathlib.Logic.Function.Iterate
import Narrative.Proofs.Reader.Moves

namespace Narrative

variable {α κ σ : Type}

-- What is seen of a story at play: the gates that are asked, the pauses with what they
-- show, and the options that are picked
inductive Event (α : Type) where
  | asked (gate : α) (node : NodeId) (answer : Bool)
  | paused (pause : Pause) (shown : Shown)
  | picked (index : Nat)

def Event.isAsked : Event α → Bool
  | asked .. => true
  | _ => false

-- What gates remember, how many choices were answered, and all that was seen
structure Telling (α σ : Type) where
  state : σ
  answered : Nat
  events : List (Event α)

namespace Telling

def start (s : σ) : Telling α σ := ⟨s, 0, []⟩

def pause (t : Telling α σ) (p : Pause) (shown : Shown) : Telling α σ :=
  { t with events := t.events ++ [.paused p shown] }

def pick (t : Telling α σ) (index : Nat) : Telling α σ :=
  { t with answered := t.answered + 1, events := t.events ++ [.picked index] }

-- What a reader sees of it
def pauses (t : Telling α σ) : List (Event α) := t.events.filter fun e => !e.isAsked

-- Nothing but gates that were asked in between
def Asks (t t' : Telling α σ) : Prop :=
  ∃ asked, (∀ e ∈ asked, e.isAsked = true) ∧ t'.events = t.events ++ asked

theorem Asks.refl (t : Telling α σ) : t.Asks t := ⟨[], by simp, by simp⟩

theorem Asks.trans {t₁ t₂ t₃ : Telling α σ} (h : t₁.Asks t₂) (h' : t₂.Asks t₃) : t₁.Asks t₃ := by
  obtain ⟨asked, hasked, he⟩ := h
  obtain ⟨more, hmore, he'⟩ := h'
  refine ⟨asked ++ more, ?_, by rw [he', he, List.append_assoc]⟩
  intro e hmem
  exact (List.mem_append.1 hmem).elim (hasked e) (hmore e)

theorem Asks.prefix_events {t t' : Telling α σ} (h : t.Asks t') : t.events <+: t'.events := by
  obtain ⟨asked, -, he⟩ := h
  exact ⟨asked, he.symm⟩

theorem Asks.pauses_eq {t t' : Telling α σ} (h : t.Asks t') : t'.pauses = t.pauses := by
  obtain ⟨asked, hasked, he⟩ := h
  have hnil : asked.filter (fun e => !e.isAsked) = [] :=
    List.filter_eq_nil_iff.2 fun e hmem => by simp [hasked e hmem]
  rw [pauses, he, List.filter_append, hnil, List.append_nil, pauses]

end Telling

-- The same gates, with what they are asked and what they answer written down
def Host.told (host : Host α κ σ) : Host α κ (Telling α σ) where
  render := host.render
  isGate := host.isGate
  test gate context node t :=
    let (answer, s) := host.test gate context node t.state
    (answer, { t with state := s, events := t.events ++ [.asked gate node answer] })

-- The answers to the first, the second, ... choice, each in the range of its options
structure Picks where
  index : Nat → Nat → Nat
  index_lt : ∀ k {count : Nat}, 0 < count → index k count < count

namespace Picks

def option? (picks : Picks) (k : Nat) (options : List NodeId) : Option NodeId :=
  options[picks.index k options.length]?

theorem option?_nil (picks : Picks) (k : Nat) : picks.option? k [] = none := rfl

theorem exists_option? (picks : Picks) (k : Nat) {options : List NodeId} (h : options ≠ []) :
    ∃ id ∈ options, picks.option? k options = some id := by
  have hlt := picks.index_lt k (List.length_pos_iff.2 h)
  exact ⟨_, List.getElem_mem hlt, List.getElem?_eq_getElem hlt⟩

end Picks

-- A reader at work, and whether it has come to an end
structure Session (α κ σ : Type) where
  reader : Reader κ
  telling : Telling α σ
  ended : Bool

namespace Session

def start (tree : Tree α) (context : κ) (s : σ) : Session α κ σ :=
  ⟨.ofTree tree context, .start s, false⟩

def paused (p : Pause) (r : Reader κ) (t : Telling α σ) : Session α κ σ :=
  ⟨r, t.pause p r.shown, p = .ended⟩

def answer (picks : Picks) (x : Session α κ σ) : Session α κ σ :=
  let index := picks.index x.telling.answered x.reader.pending.length
  match x.reader.choose index with
  | .ok r => { x with reader := r, telling := x.telling.pick index }
  | .error e => paused (.refused e) x.reader x.telling

-- A single step of the reader, or the answer to the choices that are pending
def move (host : Host α κ σ) (tree : Tree α) (picks : Picks) (x : Session α κ σ) : Session α κ σ :=
  if x.ended then x
  else if x.reader.isChoice then x.answer picks
  else match Reader.step host.told tree { x.reader with shown := .nothing } x.telling with
    | (none, r, t) => ⟨r, t, false⟩
    | (some p, r, t) => paused p r t

-- A call as a program makes it: on to the next pause, or the answer to the choices that
-- are pending. There is none when the reader does not pause within that many steps.
def call (host : Host α κ σ) (tree : Tree α) (picks : Picks) (steps : Nat) (x : Session α κ σ) :
    Option (Session α κ σ) :=
  if x.ended then some x
  else if x.reader.isChoice then some (x.answer picks)
  else (x.reader.advance host.told tree steps x.telling).map fun (p, r, t) => paused p r t

def calls (host : Host α κ σ) (tree : Tree α) (picks : Picks) (steps : Nat) :
    Nat → Session α κ σ → Option (Session α κ σ)
  | 0, x => some x
  | count + 1, x => (x.call host tree picks steps).bind (calls host tree picks steps count)

section Events

variable (host : Host α κ σ) (tree : Tree α) (picks : Picks) (x : Session α κ σ)

theorem asks_test {t t' : Telling α σ} (gate : α) (context : κ) (node : NodeId) (h : t.Asks t') :
    t.Asks (host.told.test gate context node t').2 :=
  h.trans ⟨[.asked gate node (host.test gate context node t'.state).1], by simp [Event.isAsked], rfl⟩

-- A step asks gates. If it does not pause, then it shows nothing.
theorem asks_step (r : Reader κ) (t : Telling α σ) :
    t.Asks (Reader.step host.told tree r t).2.2 ∧
      ((Reader.step host.told tree r t).1 = none →
        (Reader.step host.told tree r t).2.1.shown = r.shown) := by
  rcases hstep : Reader.step host.told tree r t with ⟨p, r', t'⟩
  have hsteps := Reader.steps_of_step host.told tree hstep
  refine ⟨hsteps.keeps_state (asks_test host) (.refl t), fun hp => ?_⟩
  obtain rfl : p = none := hp
  exact hsteps.shown_eq

-- Every move only adds to what was seen.

theorem events_answer :
    x.telling.events <+: (x.answer picks).telling.events := by
  unfold answer
  dsimp only
  split <;> exact List.prefix_append x.telling.events _

theorem events_move :
    x.telling.events <+: (move host tree picks x).telling.events := by
  unfold move
  split
  · exact List.prefix_rfl
  · split
    · exact events_answer picks x
    · have h := (asks_step host tree { x.reader with shown := .nothing } x.telling).1.prefix_events
      split
      · next hstep => rwa [hstep] at h
      · next hstep =>
        rw [hstep] at h
        exact h.trans (List.prefix_append _ _)

theorem events_iterate_move {m n : Nat} (h : m ≤ n) :
    ((move host tree picks)^[m] x).telling.events <+:
      ((move host tree picks)^[n] x).telling.events := by
  induction n, h using Nat.le_induction with
  | base => exact List.prefix_rfl
  | succ n _ ih =>
      rw [Function.iterate_succ_apply']
      exact ih.trans (events_move host tree picks _)

-- For every count of events there is a move after which the events up to it stay.
theorem exists_stable (n : Nat) : ∃ m, ∀ k ≥ m, ((move host tree picks)^[k] x).telling.events.take n =
      ((move host tree picks)^[m] x).telling.events.take n := by
  induction n with
  | zero => exact ⟨0, fun k _ => by simp only [List.take_zero]⟩
  | succ n ih =>
      by_cases hlong : ∃ m, n < ((move host tree picks)^[m] x).telling.events.length
      · obtain ⟨m, hm⟩ := hlong
        refine ⟨m, fun k hk => ?_⟩
        obtain ⟨more, hmore⟩ := events_iterate_move host tree picks x hk
        rw [← hmore, List.take_append_of_le_length hm]
      · -- there are never more than n events
        obtain ⟨m, hm⟩ := ih
        refine ⟨m, fun k hk => ?_⟩
        have hshort : ∀ k, ((move host tree picks)^[k] x).telling.events.length ≤ n := by
          intro k
          exact Nat.le_of_not_lt fun h => hlong ⟨k, h⟩
        have hle : ∀ k, ((move host tree picks)^[k] x).telling.events.length ≤ n + 1 :=
          fun k => (hshort k).trans (Nat.le_succ n)
        have he := hm k hk
        rw [List.take_of_length_le (hshort k), List.take_of_length_le (hshort m)] at he
        rw [List.take_of_length_le (hle k), List.take_of_length_le (hle m), he]

end Events

section Moves

variable (host : Host α κ σ) (tree : Tree α) (picks : Picks)

theorem move_of_ended {x : Session α κ σ} (h : x.ended = true) : move host tree picks x = x := by
  rw [move, if_pos h]

theorem iterate_move_of_ended {x : Session α κ σ} (h : x.ended = true) (n : Nat) :
    (move host tree picks)^[n] x = x :=
  Function.iterate_fixed (move_of_ended host tree picks h) n

theorem move_of_idle {r : Reader κ} (t : Telling α σ) (h : r.isChoice = false) :
    move host tree picks ⟨r, t, false⟩ =
      match Reader.step host.told tree { r with shown := .nothing } t with
      | (none, r, t) => ⟨r, t, false⟩
      | (some p, r, t) => paused p r t := by
  rw [move, if_neg Bool.false_ne_true, if_neg (ne_true_of_eq_false h)]

-- A run to the next pause is what its steps come to one by one. Steps that do not lead to
-- a pause are not seen.
theorem exists_moves_of_run (steps : Nat) {r : Reader κ} (t : Telling α σ)
    (hidle : r.isChoice = false) :
    match Reader.run host.told tree steps { r with shown := .nothing } t with
    | some (p, r', t') => ∃ m < steps, (move host tree picks)^[m + 1] ⟨r, t, false⟩ = paused p r' t'
    | none => t.Asks ((move host tree picks)^[steps] ⟨r, t, false⟩).telling := by
  induction steps generalizing r t with
  | zero => exact .refl t
  | succ steps ih =>
      have hmove := move_of_idle host tree picks t hidle
      obtain ⟨hasks, hshown⟩ := asks_step host tree { r with shown := .nothing } t
      rw [Reader.run]
      rcases hstep : Reader.step host.told tree { r with shown := .nothing } t with ⟨_ | q, r₁, t₁⟩
      · rw [hstep] at hmove hasks hshown
        obtain ⟨frames, shown, context⟩ := r₁
        obtain rfl : shown = .nothing := hshown rfl
        have hrest := ih (r := ⟨frames, .nothing, context⟩) t₁ rfl
        dsimp only at hrest hmove ⊢
        split at hrest
        · obtain ⟨m, hm, he⟩ := hrest
          exact ⟨m + 1, Nat.succ_lt_succ hm, by rw [Function.iterate_succ_apply, hmove, he]⟩
        · rw [Function.iterate_succ_apply, hmove]
          exact hasks.trans hrest
      · rw [hstep] at hmove
        exact ⟨0, Nat.zero_lt_succ steps, hmove⟩

theorem advance_of_idle (steps : Nat) {r : Reader κ} (t : Telling α σ) (h : r.isChoice = false) :
    r.advance host.told tree steps t =
      Reader.run host.told tree steps { r with shown := .nothing } t := by
  obtain ⟨frames, shown, context⟩ := r
  cases shown with
  | choices ids => cases h
  | _ => rfl

-- A call that comes back makes one move or more. If it does not, then its steps were not
-- seen.
theorem exists_moves_of_call (steps : Nat) (x : Session α κ σ) :
    match call host tree picks (steps + 1) x with
    | some y => ∃ m ≤ steps, (move host tree picks)^[m + 1] x = y
    | none => x.telling.Asks ((move host tree picks)^[steps + 1] x).telling := by
  unfold call
  by_cases hended : x.ended = true
  · rw [if_pos hended]
    exact ⟨0, Nat.zero_le steps, move_of_ended host tree picks hended⟩
  · rw [if_neg hended]
    by_cases hchoice : x.reader.isChoice = true
    · rw [if_pos hchoice]
      refine ⟨0, Nat.zero_le steps, ?_⟩
      rw [Nat.zero_add, Function.iterate_one, move, if_neg hended, if_pos hchoice]
    · have hidle := eq_false_of_ne_true hchoice
      obtain ⟨reader, telling, ended⟩ := x
      obtain rfl : ended = false := eq_false_of_ne_true hended
      have hrun := exists_moves_of_run host tree picks (steps + 1) telling hidle
      rw [if_neg hchoice, advance_of_idle host tree (steps + 1) telling hidle]
      dsimp only at hrun ⊢
      cases ho : Reader.run host.told tree (steps + 1) { reader with shown := .nothing } telling with
      | none =>
          rw [ho] at hrun
          exact hrun
      | some o =>
          rw [ho] at hrun
          obtain ⟨m, hm, he⟩ := hrun
          exact ⟨m, Nat.le_of_lt_succ hm, he⟩

theorem run_mono {steps more : Nat} {r : Reader κ} {t : Telling α σ}
    {o : Pause × Reader κ × Telling α σ} (hle : steps ≤ more)
    (h : Reader.run host.told tree steps r t = some o) :
    Reader.run host.told tree more r t = some o := by
  induction steps generalizing more r t with
  | zero => cases h
  | succ steps ih =>
      obtain ⟨more, rfl⟩ : ∃ k, more = k + 1 := ⟨more - 1, by omega⟩
      rw [Reader.run] at h ⊢
      rcases hstep : Reader.step host.told tree r t with ⟨_ | p, r₁, t₁⟩
      · rw [hstep] at h
        exact ih (Nat.le_of_succ_le_succ hle) h
      · rw [hstep] at h
        exact h

theorem call_mono {steps more : Nat} {x y : Session α κ σ} (hle : steps ≤ more)
    (h : call host tree picks steps x = some y) : call host tree picks more x = some y := by
  unfold call at h ⊢
  by_cases hended : x.ended = true
  · rwa [if_pos hended] at h ⊢
  · by_cases hchoice : x.reader.isChoice = true
    · rwa [if_neg hended, if_pos hchoice] at h ⊢
    · have hidle := eq_false_of_ne_true hchoice
      rw [if_neg hended, if_neg hchoice, advance_of_idle host tree _ x.telling hidle] at h ⊢
      obtain ⟨o, ho, rfl⟩ := Option.map_eq_some_iff.1 h
      rw [run_mono host tree hle ho]
      rfl

theorem calls_mono {steps more count : Nat} {x y : Session α κ σ} (hle : steps ≤ more)
    (h : calls host tree picks steps count x = some y) :
    calls host tree picks more count x = some y := by
  induction count generalizing x with
  | zero => exact h
  | succ count ih =>
      obtain ⟨z, hz, hy⟩ := Option.bind_eq_some_iff.1 h
      exact Option.bind_eq_some_iff.2 ⟨z, call_mono host tree picks hle hz, ih hy⟩

theorem exists_moves_of_calls {steps count : Nat} {x y : Session α κ σ}
    (h : calls host tree picks steps count x = some y) :
    ∃ m, (move host tree picks)^[m] x = y := by
  replace h := calls_mono host tree picks (Nat.le_succ steps) h
  induction count generalizing x with
  | zero =>
      cases h
      exact ⟨0, rfl⟩
  | succ count ih =>
      obtain ⟨z, hz, hy⟩ := Option.bind_eq_some_iff.1 h
      have hcall := exists_moves_of_call host tree picks steps x
      rw [hz] at hcall
      obtain ⟨m, -, rfl⟩ := hcall
      obtain ⟨n, rfl⟩ := ih hy
      exact ⟨n + (m + 1), Function.iterate_add_apply _ n (m + 1) x⟩

-- Calls see all that any number of moves comes to.
theorem exists_calls (m : Nat) (x : Session α κ σ) :
    ∃ steps count y, calls host tree picks steps count x = some y ∧
      y.telling.pauses = ((move host tree picks)^[m] x).telling.pauses := by
  induction m using Nat.strongRecOn generalizing x with
  | ind m ih =>
      cases m with
      | zero => exact ⟨0, 0, x, rfl, rfl⟩
      | succ m =>
          have hcall := exists_moves_of_call host tree picks m x
          cases hy : call host tree picks (m + 1) x with
          | none =>
              rw [hy] at hcall
              exact ⟨0, 0, x, rfl, hcall.pauses_eq.symm⟩
          | some y =>
              rw [hy] at hcall
              obtain ⟨k, hk, rfl⟩ := hcall
              -- the moves that are left after the call
              obtain ⟨steps, count, z, hz, hpauses⟩ := ih (m - k) (by omega)
                ((move host tree picks)^[k + 1] x)
              rw [← Function.iterate_add_apply, show m - k + (k + 1) = m + 1 by omega] at hpauses
              refine ⟨max steps (m + 1), count + 1, z, ?_, hpauses⟩
              exact Option.bind_eq_some_iff.2
                ⟨_, call_mono host tree picks (Nat.le_max_right _ _) hy,
                  calls_mono host tree picks (Nat.le_max_left _ _) hz⟩

end Moves

end Session

end Narrative
