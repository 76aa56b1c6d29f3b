import Mathlib.Data.List.InsertIdx
import Narrative.Compound.Convert
import Narrative.Proofs.Template.Segments

namespace Narrative

variable {α : Type}

-- An offset past the end of a text, or inside one of its characters
def Text.Misses (t : Text) (offset : Nat) : Prop :=
  byteSize t < offset ∨
    ∃ front c back, t = front ++ c :: back ∧ byteSize front < offset ∧
      offset < byteSize front + c.utf8Size

theorem Text.misses_cons {c : Char} {t : Text} {offset : Nat} (h : c.utf8Size ≤ offset) :
    Misses (c :: t) offset ↔ Misses t (offset - c.utf8Size) := by
  have hpos := c.utf8Size_pos
  unfold Misses
  constructor
  · rintro (hpast | ⟨front, d, back, ht, hlow, hhigh⟩)
    · left
      rw [byteSize] at hpast
      omega
    · right
      cases front with
      | nil =>
          obtain ⟨rfl, rfl⟩ := List.cons.inj ht
          rw [byteSize] at hhigh
          omega
      | cons e front =>
          obtain ⟨rfl, rfl⟩ := List.cons.inj ht
          rw [byteSize] at hlow hhigh
          exact ⟨front, d, back, rfl, by omega, by omega⟩
  · rintro (hpast | ⟨front, d, back, rfl, hlow, hhigh⟩)
    · left
      rw [byteSize]
      omega
    · right
      refine ⟨c :: front, d, back, rfl, ?_, ?_⟩ <;> rw [byteSize] <;> omega

-- A text comes apart at every offset that does not miss it.
theorem Text.splitAtByte_eq_none_iff {offset : Nat} {t : Text} :
    splitAtByte offset t = none ↔ Misses t offset := by
  induction t generalizing offset with
  | nil =>
      cases offset with
      | zero => simp [splitAtByte, Misses, byteSize]
      | succ n => simp [splitAtByte, Misses, byteSize]
  | cons c t ih =>
      cases offset with
      | zero => simp [splitAtByte, Misses]
      | succ n =>
          rw [splitAtByte]
          split
          · next hle => rw [Option.map_eq_none_iff, ih, misses_cons hle]
          · next hlt =>
            rw [iff_true_left rfl]
            exact .inr ⟨[], c, t, rfl, by rw [byteSize]; omega, by rw [byteSize]; omega⟩

-- What stands in one place of a compound text: a character, or an object
inductive Cell (α : Type) where
  | char (c : Char)
  | object (i : Inline α)
deriving DecidableEq, Repr

namespace Cell

-- How a cell is written in the text
def mark : Cell α → Char
  | char c => c
  | object _ => marker

def object? : Cell α → Option (Inline α)
  | char _ => none
  | object i => some i

@[simp] theorem filterMap_object?_char (c : Char) (cells : List (Cell α)) :
    (char c :: cells).filterMap object? = cells.filterMap object? := rfl

@[simp] theorem filterMap_object?_object (i : Inline α) (cells : List (Cell α)) :
    (object i :: cells).filterMap object? = i :: cells.filterMap object? := rfl

-- The bytes that cells take up in the text
def size (cells : List (Cell α)) : Nat := Text.byteSize (cells.map mark)

-- The characters of a text that are no markers
def ofText (t : Text) : List (Cell α) := (t.filter (· ≠ marker)).map char

-- What a sign of a template stands for, with the argument that a placeholder refers to
def ofSign (args : List α) : Char ⊕ Placeholder → List (Cell α)
  | .inl c => ofText [c]
  | .inr p => (args[p.index]?.map fun arg => object ⟨arg, p.alignment, p.format⟩).toList

theorem flatMap_ofSign_map_inl (args : List α) (t : Text) :
    (t.map .inl).flatMap (ofSign args) = ofText t := by
  induction t with
  | nil => rfl
  | cons c t ih =>
      have hcons : (ofText (c :: t) : List (Cell α)) = ofText [c] ++ ofText t := by
        by_cases hc : c = marker <;> simp [ofText, hc]
      rw [List.map_cons, List.flatMap_cons, ih, hcons]
      rfl

end Cell

namespace Piece

def cells : Piece α → List (Cell α)
  | text t => t.map .char
  | content i => [.object i]

def text? : Piece α → Option Text
  | text t => some t
  | content _ => none

end Piece

namespace Compound

-- Reads a text from left to right, when so many markers stand in front of it: the n-th
-- marker of all is the n-th of the contents. A marker without one cannot be read.
def cellsFrom? (contents : List (Inline α)) : Nat → Text → Option (List (Cell α))
  | _, [] => some []
  | n, c :: t =>
    if c = marker then
      match contents[n]? with
      | some i => (cellsFrom? contents (n + 1) t).map (.object i :: ·)
      | none => none
    else (cellsFrom? contents n t).map (.char c :: ·)

def view? (c : Compound α) : Option (List (Cell α)) := cellsFrom? c.contents 0 c.text

-- A text that is written out from cells, none of which is a marker character
structure Shows (c : Compound α) (cells : List (Cell α)) : Prop where
  text_eq : c.text = cells.map Cell.mark
  contents_eq : c.contents = cells.filterMap Cell.object?
  plain : ∀ ch, .char ch ∈ cells → ch ≠ marker

theorem plain_ofText (t : Text) (ch : Char) (h : Cell.char ch ∈ (Cell.ofText t : List (Cell α))) :
    ch ≠ marker := by
  obtain ⟨c, hc, he⟩ := List.mem_map.1 h
  cases he
  simpa using (List.mem_filter.1 hc).2

theorem mark_ofText (t : Text) : (Cell.ofText t : List (Cell α)).map Cell.mark = stripMarkers t := by
  rw [Cell.ofText, List.map_map, stripMarkers]
  exact List.map_id _

theorem object?_ofText (t : Text) : (Cell.ofText t : List (Cell α)).filterMap Cell.object? = [] := by
  rw [Cell.ofText, List.filterMap_map]
  exact List.filterMap_none _

theorem markerCount_mark {cells : List (Cell α)} (h : ∀ ch, .char ch ∈ cells → ch ≠ marker) :
    markerCount (cells.map Cell.mark) = (cells.filterMap Cell.object?).length := by
  induction cells with
  | nil => rfl
  | cons cell cells ih =>
      have hrest := ih fun ch hmem => h ch (List.mem_cons_of_mem _ hmem)
      rw [markerCount] at hrest ⊢
      cases cell with
      | char c =>
          have hc := h c List.mem_cons_self
          rw [List.map_cons, Cell.mark, List.count_cons_of_ne hc, hrest]
          rfl
      | object i =>
          rw [List.map_cons, Cell.mark, List.count_cons_self, hrest]
          rfl

theorem cellsFrom?_mark {cells : List (Cell α)} (h : ∀ ch, .char ch ∈ cells → ch ≠ marker)
    (before : List (Inline α)) :
    cellsFrom? (before ++ cells.filterMap Cell.object?) before.length (cells.map Cell.mark) =
      some cells := by
  induction cells generalizing before with
  | nil => rfl
  | cons cell cells ih =>
      have hplain := fun ch hmem => h ch (List.mem_cons_of_mem _ hmem)
      cases cell with
      | char c =>
          rw [List.map_cons, Cell.mark, cellsFrom?, if_neg (h c List.mem_cons_self)]
          have hrest := ih hplain before
          rw [Cell.filterMap_object?_char, hrest]
          rfl
      | object i =>
          -- the object is the next of the contents
          have hrest := ih hplain (before ++ [i])
          rw [List.append_assoc, List.singleton_append, List.length_append, List.length_singleton] at hrest
          rw [List.map_cons, Cell.mark, cellsFrom?, if_pos rfl, Cell.filterMap_object?_object,
            List.getElem?_append_right (Nat.le_refl _), Nat.sub_self]
          dsimp only [List.getElem?_cons_zero]
          rw [hrest]
          rfl

theorem insertIdx_length {β : Type} (before after : List β) (b : β) :
    (before ++ after).insertIdx before.length b = before ++ b :: after := by
  induction before with
  | nil => rfl
  | cons head before ih =>
      rw [List.cons_append, List.length_cons, List.insertIdx_succ_cons, ih, List.cons_append]

theorem cells_consChar (c : Char) (pieces : List (Piece α)) :
    (consChar c pieces).flatMap Piece.cells = .char c :: pieces.flatMap Piece.cells := by
  unfold consChar
  split <;> rfl

theorem merged_consChar (c : Char) {pieces : List (Piece α)} (h : Text.Merged Piece.text? pieces) :
    Text.Merged Piece.text? (consChar c pieces) := by
  unfold consChar
  split
  · exact h.extend rfl rfl
  · next htext =>
    apply h.cons_text rfl
    intro piece hhead
    cases piece with
    | text t =>
        obtain ⟨rest, hrest⟩ := List.head?_eq_some_iff.1 hhead
        exact absurd hrest (htext t rest)
    | content i => rfl

-- Pieces are merged, also when markers and contents are not of one number.
theorem merged_piecesOf (t : Text) (contents : List (Inline α)) :
    Text.Merged Piece.text? (piecesOf t contents) := by
  induction t generalizing contents with
  | nil => exact .nil
  | cons c t ih =>
      unfold piecesOf
      split
      · cases contents with
        | nil => exact ih []
        | cons i others => exact (ih others).cons_other rfl
      · exact merged_consChar c (ih contents)

theorem cells_piecesOf {cells : List (Cell α)} (h : ∀ ch, .char ch ∈ cells → ch ≠ marker) :
    (piecesOf (cells.map Cell.mark) (cells.filterMap Cell.object?)).flatMap Piece.cells = cells := by
  induction cells with
  | nil => rfl
  | cons cell cells ih =>
      have hrest := ih fun ch hmem => h ch (List.mem_cons_of_mem _ hmem)
      cases cell with
      | char c =>
          rw [List.map_cons, Cell.mark]
          unfold piecesOf
          rw [if_neg (h c List.mem_cons_self), cells_consChar]
          exact congrArg (Cell.char c :: ·) hrest
      | object i =>
          rw [List.map_cons, Cell.mark]
          unfold piecesOf
          rw [if_pos rfl]
          exact congrArg (Cell.object i :: ·) hrest

namespace Shows

variable {c : Compound α} {cells : List (Cell α)}

theorem empty : Shows (.empty : Compound α) [] := ⟨rfl, rfl, by simp⟩

theorem markerCount_eq (h : Shows c cells) : markerCount c.text = c.contents.length := by
  rw [h.text_eq, h.contents_eq, markerCount_mark h.plain]

theorem view?_eq (h : Shows c cells) : c.view? = some cells := by
  rw [view?, h.text_eq, h.contents_eq]
  exact cellsFrom?_mark h.plain []

theorem cells_pieces (h : Shows c cells) : c.pieces.flatMap Piece.cells = cells := by
  rw [pieces, h.text_eq, h.contents_eq, cells_piecesOf h.plain]

theorem pushText (h : Shows c cells) (t : Text) : Shows (c.pushText t) (cells ++ Cell.ofText t) where
  text_eq := by rw [List.map_append, mark_ofText, ← h.text_eq]; rfl
  contents_eq := by rw [List.filterMap_append, object?_ofText, List.append_nil, ← h.contents_eq]; rfl
  plain := by
    intro ch hmem
    exact (List.mem_append.1 hmem).elim (h.plain ch) (plain_ofText t ch)

theorem pushContent (h : Shows c cells) (i : Inline α) :
    Shows (c.pushContent i) (cells ++ [.object i]) where
  text_eq := by rw [List.map_append, ← h.text_eq]; rfl
  contents_eq := by rw [List.filterMap_append, ← h.contents_eq]; rfl
  plain := by
    intro ch hmem
    exact (List.mem_append.1 hmem).elim (h.plain ch) (by simp)

theorem foldl_pushSegment (args : List α) (segments : List Segment) {c : Compound α}
    {cells : List (Cell α)} (h : c.Shows cells) :
    (segments.foldl (pushSegment args) c).Shows
      (cells ++ (segments.flatMap Segment.signs).flatMap (Cell.ofSign args)) := by
  induction segments generalizing c cells with
  | nil => simpa using h
  | cons segment segments ih =>
      rw [List.foldl_cons, List.flatMap_cons, List.flatMap_append, ← List.append_assoc]
      cases segment with
      | literal t =>
          rw [Segment.signs, Cell.flatMap_ofSign_map_inl]
          exact ih (h.pushText t)
      | placeholder p =>
          rw [pushSegment]
          cases harg : args[p.index]? with
          | none => simpa [Segment.signs, Cell.ofSign, harg] using ih h
          | some arg =>
              simpa [Segment.signs, Cell.ofSign, harg] using
                ih (h.pushContent ⟨arg, p.alignment, p.format⟩)

theorem ofTemplate (t : Template α) :
    (Compound.ofTemplate t).Shows
      ((t.segments.flatMap Segment.signs).flatMap (Cell.ofSign t.args)) := by
  have h := foldl_pushSegment t.args t.segments (.empty : Shows (.empty : Compound α) [])
  rwa [List.nil_append] at h

-- A text that comes apart comes apart between cells.
theorem exists_of_splitAtByte (h : Shows c cells) {offset : Nat} {front back : Text}
    (hsplit : Text.splitAtByte offset c.text = some (front, back)) :
    ∃ before after, cells = before ++ after ∧ Cell.size before = offset ∧
      before.map Cell.mark = front ∧ after.map Cell.mark = back := by
  obtain ⟨htext, hoffset⟩ := Text.splitAtByte_eq_some hsplit
  rw [h.text_eq] at htext
  obtain ⟨before, after, rfl, hfront, hback⟩ := List.map_eq_append_iff.1 htext
  exact ⟨before, after, rfl, by rw [Cell.size, hfront, hoffset], hfront, hback⟩

variable {before after : List (Cell α)}

-- As many contents belong to the cells in front as there are markers in front.
theorem insert (h : Shows c (before ++ after)) (i : Inline α) :
    markerCount (before.map Cell.mark) ≤ c.contents.length ∧
      Shows ⟨before.map Cell.mark ++ marker :: after.map Cell.mark,
        c.contents.insertIdx (markerCount (before.map Cell.mark)) i⟩ (before ++ .object i :: after) := by
  have hbefore : markerCount (before.map Cell.mark) = (before.filterMap Cell.object?).length :=
    markerCount_mark fun ch hmem => h.plain ch (List.mem_append_left _ hmem)
  have hcontents := h.contents_eq
  rw [List.filterMap_append] at hcontents
  rw [hbefore, hcontents, insertIdx_length]
  refine ⟨by simp, by simp [Cell.mark], by simp [Cell.object?], ?_⟩
  intro ch hmem
  apply h.plain ch
  simpa using hmem

theorem insertText (h : Shows c (before ++ after)) (t : Text) :
    Shows { c with text := before.map Cell.mark ++ stripMarkers t ++ after.map Cell.mark }
      (before ++ Cell.ofText t ++ after) where
  text_eq := by rw [List.map_append, List.map_append, mark_ofText]
  contents_eq := by
    rw [List.filterMap_append, List.filterMap_append, object?_ofText, List.append_nil,
      ← List.filterMap_append]
    exact h.contents_eq
  plain := by
    intro ch hmem
    rw [List.append_assoc, List.mem_append, List.mem_append] at hmem
    rcases hmem with hbefore | ht | hafter
    · exact h.plain ch (List.mem_append_left _ hbefore)
    · exact plain_ofText t ch ht
    · exact h.plain ch (List.mem_append_right _ hafter)

end Shows

end Compound

end Narrative
