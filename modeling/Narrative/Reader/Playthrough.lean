import Narrative.Reader.Advance

namespace Narrative

variable {α κ σ : Type}

-- What a playthrough shows at one pause
inductive Passage where
  | line (t : Except RenderError Text)
  | choices (ts : List (Except RenderError Text))

-- How a playthrough ends: the reader cannot go on, a choice is left to the caller,
-- or there were as many pauses as asked for
inductive Ending where
  | stopped (pause : Pause)
  | choice
  | limit
deriving DecidableEq, Repr

structure Playthrough (κ σ : Type) where
  passages : List Passage
  ending : Ending
  reader : Reader κ
  state : σ

namespace Playthrough

def cons (passage : Passage) (p : Playthrough κ σ) : Playthrough κ σ :=
  { p with passages := passage :: p.passages }

def passage? (host : Host α κ σ) (tree : Tree α) (r : Reader κ) : Option Passage :=
  match r.output tree with
  | some (.line t) => some (.line (t.render host.render))
  | some (.choices ts) => some (.choices (ts.map (·.render host.render)))
  | none => none

-- The pick for the k-th choice of a playthrough, when picks are used in turn and
-- counted around the options
def pick (picks : List Nat) (k options : Nat) : Nat := picks.getD (k % picks.length) 0 % options

-- Plays up to so many pauses. Without picks the first choice is left pending.
def play (host : Host α κ σ) (tree : Tree α) (moves : Nat) (picks : List Nat) :
    Nat → Nat → Reader κ → σ → Option (Playthrough κ σ)
  | 0, _, r, s => some ⟨[], .limit, r, s⟩
  | count + 1, k, r, s =>
    match r.advance host tree moves s with
    | none => none
    | some (.shown, r, s) =>
      match passage? host tree r with
      | some (.choices ts) =>
        if picks = [] then some ⟨[.choices ts], .choice, r, s⟩
        else
          match r.choose (pick picks k ts.length) with
          | .ok r => (play host tree moves picks count (k + 1) r s).map (cons (.choices ts))
          | .error e => some ⟨[.choices ts], .stopped (.refused e), r, s⟩
      | some passage => (play host tree moves picks count k r s).map (cons passage)
      | none => play host tree moves picks count k r s
    | some (pause, r, s) => some ⟨[], .stopped pause, r, s⟩

end Playthrough

end Narrative
