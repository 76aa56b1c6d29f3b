import Narrative.Proofs.Compound.Cells

namespace Narrative

variable {α : Type}

-- A change of a compound text
inductive Edit (α : Type) where
  | insert (offset : Nat) (i : Inline α)
  | insertText (offset : Nat) (t : Text)
  | pushText (t : Text)
  | pushContent (i : Inline α)
deriving DecidableEq, Repr

-- A compound text after an edit, and whether the edit broke off
structure Outcome (α : Type) where
  compound : Compound α
  panicked : Bool
deriving DecidableEq, Repr

namespace Edit

-- Where there has to be a place in the text
def offset? : Edit α → Option Nat
  | insert offset _ | insertText offset _ => some offset
  | pushText _ | pushContent _ => none

def Misplaced (e : Edit α) (c : Compound α) : Prop := ∃ offset ∈ e.offset?, c.text.Misses offset

def applied? : Edit α → Compound α → Option (Compound α)
  | insert offset i, c => c.insert? offset i
  | insertText offset t, c => c.insertText? offset t
  | pushText t, c => some (c.pushText t)
  | pushContent i, c => some (c.pushContent i)

-- Changes text and contents one after the other. An object that finds no place among the
-- contents would leave its marker in the text.
def run : Edit α → Compound α → Outcome α
  | insert offset i, c =>
    match Text.splitAtByte offset c.text with
    | none => ⟨c, true⟩
    | some (front, back) =>
      let marked := { c with text := front ++ marker :: back }
      let place := Compound.markerCount front
      if place ≤ c.contents.length then
        ⟨{ marked with contents := c.contents.insertIdx place i }, false⟩
      else ⟨marked, true⟩
  | insertText offset t, c =>
    match Text.splitAtByte offset c.text with
    | none => ⟨c, true⟩
    | some (front, back) => ⟨{ c with text := front ++ Compound.stripMarkers t ++ back }, false⟩
  | pushText t, c => ⟨c.pushText t, false⟩
  | pushContent i, c => ⟨c.pushContent i, false⟩

-- What an edit makes of a row of cells. Offsets count the bytes of the cells in front.
inductive Changes : Edit α → List (Cell α) → List (Cell α) → Prop
  | insert (before after : List (Cell α)) (i : Inline α) :
      Changes (.insert (Cell.size before) i) (before ++ after) (before ++ .object i :: after)
  | insertText (before after : List (Cell α)) (t : Text) :
      Changes (.insertText (Cell.size before) t) (before ++ after) (before ++ Cell.ofText t ++ after)
  | pushText (cells : List (Cell α)) (t : Text) :
      Changes (.pushText t) cells (cells ++ Cell.ofText t)
  | pushContent (cells : List (Cell α)) (i : Inline α) :
      Changes (.pushContent i) cells (cells ++ [.object i])

-- An edit of a text that shows cells: without a place nothing is changed, and otherwise the
-- text shows the changed cells.
theorem run_of_shows {c : Compound α} {cells : List (Cell α)} (h : c.Shows cells) (e : Edit α) :
    (e.Misplaced c ∧ e.applied? c = none ∧ e.run c = ⟨c, true⟩) ∨
      (¬ e.Misplaced c ∧ ∃ c' changed, e.applied? c = some c' ∧ e.run c = ⟨c', false⟩ ∧
        c'.Shows changed ∧ e.Changes cells changed) := by
  have hplace : ∀ offset, e.offset? = some offset →
      (e.Misplaced c ↔ Text.splitAtByte offset c.text = none) := by
    intro offset hoffset
    rw [Text.splitAtByte_eq_none_iff, Misplaced, hoffset]
    simp
  have hfree : e.offset? = none → ¬ e.Misplaced c := by
    rintro hnone ⟨offset, hoffset, -⟩
    rw [hnone] at hoffset
    cases hoffset
  cases e with
  | insert offset i =>
      rw [hplace offset rfl]
      cases hsplit : Text.splitAtByte offset c.text with
      | none => exact .inl ⟨rfl, by simp [applied?, Compound.insert?, hsplit], by simp [run, hsplit]⟩
      | some parts =>
          obtain ⟨front, back⟩ := parts
          obtain ⟨before, after, rfl, rfl, rfl, rfl⟩ := h.exists_of_splitAtByte hsplit
          obtain ⟨hle, hshows⟩ := h.insert i
          refine .inr ⟨by simp, _, _, ?_, ?_, hshows, .insert before after i⟩
          · simp only [applied?, Compound.insert?, hsplit, Option.map_some]
          · simp only [run, hsplit, if_pos hle]
  | insertText offset t =>
      rw [hplace offset rfl]
      cases hsplit : Text.splitAtByte offset c.text with
      | none => exact .inl ⟨rfl, by simp [applied?, Compound.insertText?, hsplit], by simp [run, hsplit]⟩
      | some parts =>
          obtain ⟨front, back⟩ := parts
          obtain ⟨before, after, rfl, rfl, rfl, rfl⟩ := h.exists_of_splitAtByte hsplit
          refine .inr ⟨by simp, _, _, ?_, ?_, h.insertText t, .insertText before after t⟩
          · simp only [applied?, Compound.insertText?, hsplit, Option.map_some]
          · simp only [run, hsplit]
  | pushText t =>
      exact .inr ⟨hfree rfl, _, _, rfl, rfl, h.pushText t, .pushText cells t⟩
  | pushContent i =>
      exact .inr ⟨hfree rfl, _, _, rfl, rfl, h.pushContent i, .pushContent cells i⟩

end Edit

namespace Compound

-- What edits make of an empty text or of a template, also when some of them break off
inductive Reachable : Compound α → Prop
  | empty : Reachable .empty
  | ofTemplate (t : Template α) : Reachable (.ofTemplate t)
  | edit {c : Compound α} (h : Reachable c) (e : Edit α) : Reachable (e.run c).compound

theorem Reachable.exists_shows {c : Compound α} (h : Reachable c) : ∃ cells, c.Shows cells := by
  induction h with
  | empty => exact ⟨[], .empty⟩
  | ofTemplate t => exact ⟨_, .ofTemplate t⟩
  | edit _ e ih =>
      obtain ⟨cells, hshows⟩ := ih
      rcases e.run_of_shows hshows with ⟨-, -, hrun⟩ | ⟨-, c', changed, -, hrun, hchanged, -⟩
      · exact ⟨cells, by rwa [hrun]⟩
      · exact ⟨changed, by rwa [hrun]⟩

-- A compound text is a row of characters and objects: markers and contents are of one
-- number, pieces are the row with its characters joined, and an edit changes the row in its
-- place. Where there is no place the edit breaks off, and changes nothing.
theorem reachable_refines_cells {c : Compound α} (h : Reachable c) :
    markerCount c.text = c.contents.length ∧
    ∃ cells, c.view? = some cells ∧ (∀ ch, .char ch ∈ cells → ch ≠ marker) ∧
      c.pieces.flatMap Piece.cells = cells ∧ Text.Merged Piece.text? c.pieces ∧
      ∀ e : Edit α,
        ((e.run c).panicked = true ↔ e.Misplaced c) ∧
        ((e.run c).panicked = true → (e.run c).compound = c ∧ e.applied? c = none) ∧
        ((e.run c).panicked = false → e.applied? c = some (e.run c).compound ∧
          ∃ changed, (e.run c).compound.view? = some changed ∧ e.Changes cells changed) := by
  obtain ⟨cells, hshows⟩ := h.exists_shows
  refine ⟨hshows.markerCount_eq, cells, hshows.view?_eq, hshows.plain, hshows.cells_pieces,
    merged_piecesOf c.text c.contents, fun e => ?_⟩
  rcases e.run_of_shows hshows with ⟨hmiss, hnone, hrun⟩ | ⟨hplace, c', changed, hsome, hrun, hc', hchanges⟩
  · rw [hrun]
    refine ⟨iff_of_true rfl hmiss, fun _ => ⟨rfl, hnone⟩, ?_⟩
    intro hpanicked
    cases hpanicked
  · rw [hrun]
    refine ⟨iff_of_false Bool.false_ne_true hplace, ?_, fun _ => ⟨hsome, changed, hc'.view?_eq, hchanges⟩⟩
    intro hpanicked
    cases hpanicked

-- A character of two bytes in front of an object, with one offset between its bytes and one
-- behind them
theorem reachable_refines_cells_wide :
    let c : Compound Nat := .ofTemplate ⟨"\x7b0\x7d".toList, [7], [.literal ['é'], .placeholder ⟨0, none, none⟩]⟩
    let wedged : Edit Nat := .insert 1 ⟨8, none, none⟩
    let behind : Edit Nat := .insert 2 ⟨8, some 3, none⟩
    c.Reachable ∧ markerCount c.text = c.contents.length ∧
      (wedged.run c).panicked = true ∧ (wedged.run c).compound = c ∧
      ∃ changed, (behind.run c).compound.view? = some changed ∧
        changed = [.char 'é', .object ⟨8, some 3, none⟩, .object ⟨7, none, none⟩] := by
  intro c wedged behind
  have hc : c.Reachable := .ofTemplate _
  obtain ⟨hcount, cells, -, -, -, -, hedits⟩ := reachable_refines_cells hc
  have hpanicked : (wedged.run c).panicked = true := by decide
  obtain ⟨-, changed, hview, -⟩ := (hedits behind).2.2 (by decide)
  refine ⟨hc, hcount, hpanicked, ((hedits wedged).2.1 hpanicked).1, changed, hview, ?_⟩
  have heval : (behind.run c).compound.view? =
      some [.char 'é', .object ⟨8, some 3, none⟩, .object ⟨7, none, none⟩] := by
    decide
  rw [heval] at hview
  exact (Option.some.inj hview).symm

end Compound

end Narrative
