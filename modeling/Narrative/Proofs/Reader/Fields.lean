import Narrative.Proofs.Reader.Moves

namespace Narrative

variable {α κ σ : Type}

namespace Reader

-- A reader that keeps what it has stopped at in three fields. Each is written on its own, so that
-- they need not belong together.
structure Fields (κ : Type) where
  frames : List Frame
  pending : List NodeId
  isChoice : Bool
  line? : Option NodeId
  context : κ

namespace Fields

def ofReader (r : Reader κ) : Fields κ := ⟨r.frames, r.pending, r.isChoice, r.line?, r.context⟩

def ofTree (tree : Tree α) (context : κ) : Fields κ := ⟨[⟨tree.root, 0⟩], [], false, none, context⟩

-- What a move writes. Frames are always written, of the other fields only those of what is shown.
def write (x : Fields κ) (r : Reader κ) : Fields κ :=
  match r.shown with
  | .nothing => { x with frames := r.frames }
  | .line id => { x with frames := r.frames, line? := some id }
  | .choices ids => { x with frames := r.frames, pending := ids, isChoice := true }

def step (host : Host α κ σ) (tree : Tree α) (x : Fields κ) (s : σ) : Option Pause × Fields κ × σ :=
  let (p, r, s) := Reader.step host tree ⟨x.frames, .nothing, x.context⟩ s
  (p, x.write r, s)

def run (host : Host α κ σ) (tree : Tree α) : Nat → Fields κ → σ → Option (Pause × Fields κ × σ)
  | 0, _, _ => none
  | moves + 1, x, s =>
    match step host tree x s with
    | (some pause, x, s) => some (pause, x, s)
    | (none, x, s) => run host tree moves x s

-- Of the fields that belong to choices none is written before the first move.
def advance (host : Host α κ σ) (tree : Tree α) (moves : Nat) (x : Fields κ) (s : σ) :
    Option (Pause × Fields κ × σ) :=
  if x.isChoice then some (.refused .choicePending, x, s)
  else run host tree moves { x with line? := none } s

-- The line is left as it is.
def choose (x : Fields κ) (index : Nat) : Except ReaderError (Fields κ) :=
  if x.isChoice then
    match x.pending[index]? with
    | some id => .ok { x with frames := ⟨id, 0⟩ :: x.frames, pending := [], isChoice := false }
    | none => .error (.choiceOutOfRange index x.pending.length)
  else .error .noPendingChoice

def reset (tree : Tree α) (x : Fields κ) : Fields κ :=
  let outermost := match x.frames.getLast? with
    | some frame => { frame with next := 0 }
    | none => ⟨tree.root, 0⟩
  { x with frames := [outermost], pending := [], isChoice := false, line? := none }

def output (tree : Tree α) (x : Fields κ) : Option (Output α) :=
  if x.isChoice then some (.choices (x.pending.filterMap tree.template?))
  else (x.line?.bind tree.template?).map .line

end Fields

end Reader

def Command.runFields (host : Host α κ σ) (tree : Tree α) :
    Command κ σ → Reader.Fields κ × σ → Option (Reader.Fields κ × σ)
  | advance moves, (x, s) => (x.advance host tree moves s).map (·.2)
  | choose index, (x, s) =>
    match x.choose index with
    | .ok x => some (x, s)
    | .error _ => some (x, s)
  | reset, (x, s) => some (x.reset tree, s)
  | context now, (x, s) => some ({ x with context := now }, s)
  | gates change, (x, s) => some (x, change s)

namespace Reader.Fields

inductive Reachable (host : Host α κ σ) (tree : Tree α) : Fields κ × σ → Prop
  | start (context : κ) (s : σ) : Reachable host tree (.ofTree tree context, s)
  | command {x y : Fields κ × σ} (h : Reachable host tree x) (c : Command κ σ)
      (hc : c.runFields host tree x = some y) : Reachable host tree y

variable {host : Host α κ σ} {tree : Tree α} {r r' : Reader κ}

-- The fields tell what was shown.
theorem ofReader_inj (h : ofReader r = ofReader r') : r = r' := by
  obtain ⟨frames, shown, context⟩ := r
  obtain ⟨frames', shown', context'⟩ := r'
  cases shown <;> cases shown' <;> cases h <;> rfl

-- On fields that belong to nothing shown, those that a move writes belong together.
theorem write_ofReader (hr : r.shown = .nothing) (hcontext : r'.context = r.context) :
    (ofReader r).write r' = ofReader r' := by
  obtain ⟨frames, shown, context⟩ := r
  obtain ⟨frames', shown', context'⟩ := r'
  obtain rfl : shown = .nothing := hr
  obtain rfl : context' = context := hcontext
  cases shown' <;> rfl

theorem step_ofReader (hr : r.shown = .nothing) {s s' : σ} {p : Option Pause}
    (h : Reader.step host tree r s = (p, r', s')) :
    (ofReader r).step host tree s = (p, ofReader r', s') := by
  have hcontext : r'.context = r.context := (steps_of_step host tree h).context_eq
  have hread : (⟨r.frames, .nothing, r.context⟩ : Reader κ) = r := by rw [← hr]
  rw [step, ← write_ofReader hr hcontext]
  simp only [ofReader, hread, h]

theorem run_ofReader (hr : r.shown = .nothing) (moves : Nat) (s : σ) :
    (ofReader r).run host tree moves s =
      (Reader.run host tree moves r s).map fun y => (y.1, ofReader y.2.1, y.2.2) := by
  induction moves generalizing r s with
  | zero => rfl
  | succ moves ih =>
      rcases hstep : Reader.step host tree r s with ⟨_ | p, r', s'⟩
      · have hr' : r'.shown = .nothing := (steps_of_step host tree hstep).shown_eq.trans hr
        simp only [run, Reader.run, step_ofReader hr hstep, hstep, ih hr']
      · simp only [run, Reader.run, step_ofReader hr hstep, hstep, Option.map_some]

theorem advance_ofReader (moves : Nat) (s : σ) :
    (ofReader r).advance host tree moves s =
      (r.advance host tree moves s).map fun y => (y.1, ofReader y.2.1, y.2.2) := by
  obtain ⟨frames, shown, context⟩ := r
  cases shown with
  | choices ids => rfl
  | nothing | line => exact run_ofReader (r := ⟨frames, .nothing, context⟩) rfl moves s

theorem exists_advance {moves : Nat} {p : Pause} {x : Fields κ} {s s' : σ}
    (h : (ofReader r).advance host tree moves s = some (p, x, s')) :
    ∃ r', r.advance host tree moves s = some (p, r', s') ∧ x = ofReader r' := by
  rw [advance_ofReader] at h
  obtain ⟨⟨_, r', _⟩, hadvance, he⟩ := Option.map_eq_some_iff.1 h
  cases he
  exact ⟨r', hadvance, rfl⟩

theorem choose_ofReader (index : Nat) :
    (ofReader r).choose index = (r.choose index).map ofReader := by
  obtain ⟨frames, shown, context⟩ := r
  cases shown with
  | choices ids =>
      have hfields : ofReader ⟨frames, .choices ids, context⟩ = ⟨frames, ids, true, none, context⟩ := rfl
      simp only [hfields, choose, Reader.choose, if_true]
      cases ids[index]? <;> rfl
  | nothing | line => rfl

theorem exists_choose {index : Nat} {x : Fields κ} (h : (ofReader r).choose index = .ok x) :
    ∃ r', r.choose index = .ok r' ∧ x = ofReader r' := by
  rw [choose_ofReader] at h
  cases hchoose : r.choose index with
  | error e =>
      rw [hchoose] at h
      cases h
  | ok r' =>
      rw [hchoose] at h
      cases h
      exact ⟨r', rfl, rfl⟩

theorem reset_ofReader : (ofReader r).reset tree = ofReader (r.reset tree) := rfl

theorem output_ofReader : (ofReader r).output tree = r.output tree := by
  obtain ⟨frames, shown, context⟩ := r
  cases shown <;> rfl

theorem runFields_ofReader (c : Command κ σ) (s : σ) :
    c.runFields host tree (ofReader r, s) =
      (c.run host tree (r, s)).map fun y => (ofReader y.1, y.2) := by
  cases c with
  | advance moves =>
      simp only [Command.runFields, Command.run, advance_ofReader, Option.map_map]
      rfl
  | choose index =>
      simp only [Command.runFields, Command.run, choose_ofReader]
      cases r.choose index <;> rfl
  | reset | context | gates => rfl

-- Wherever a reader with three fields has come to, they belong together.
theorem Reachable.exists_reader {x : Fields κ × σ} (h : Reachable host tree x) :
    ∃ r, x.1 = ofReader r ∧ Reader.Reachable host tree (r, x.2) := by
  induction h with
  | start context s => exact ⟨.ofTree tree context, rfl, .start context s⟩
  | @command x y _ c hc ih =>
      obtain ⟨r, hx, hr⟩ := ih
      have hrun : c.runFields host tree (ofReader r, x.2) = some y := by rwa [← hx]
      rw [runFields_ofReader] at hrun
      obtain ⟨⟨r', s'⟩, hrun', rfl⟩ := Option.map_eq_some_iff.1 hrun
      exact ⟨r', rfl, .command hr c hrun'⟩

-- Whatever a reader comes to, one with three fields comes to as well.
theorem reachable_ofReader {s : σ} (h : Reader.Reachable host tree (r, s)) :
    Reachable host tree (ofReader r, s) := by
  generalize hx : (r, s) = x at h
  induction h generalizing r s with
  | start context s =>
      cases hx
      exact .start context s
  | @command x y _ c hc ih =>
      subst hx
      refine .command (ih rfl) c ?_
      rw [runFields_ofReader, hc, Option.map_some]

end Reader.Fields

end Narrative
