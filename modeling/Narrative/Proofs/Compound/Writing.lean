import Narrative.Proofs.Compound.Editing
import Narrative.Proofs.Template.Segments

namespace Narrative

variable {α : Type}

namespace Placeholder

-- An alignment and a format as they are written behind an index
def suffixText (alignment : Option Int) (format : Option Text) : Text :=
  (alignment.map fun a => ',' :: Numeral.ofInt a).getD [] ++ (format.map (':' :: ·)).getD []

variable {alignment : Option Int} {format : Option Text}

theorem Writable.single_suffixText (h : Writable alignment format) :
    ∀ c ∈ suffixText alignment format, c ≠ '{' ∧ c ≠ '}' ∧ c ≠ '\n' := by
  intro c hc
  rcases List.mem_append.1 hc with halignment | hformat
  · cases alignment with
    | none => simp at halignment
    | some a =>
        have hmem : c = ',' ∨ c ∈ Numeral.ofInt a := by simpa using halignment
        rcases hmem with rfl | hmem
        · decide
        · rcases Numeral.isDigit_or_minus_of_mem_ofInt hmem with hdigit | rfl
          · exact Item.isDelimiter_eq_false_iff.1 (Item.isDelimiter_of_isDigit hdigit)
          · decide
  · cases format with
    | none => simp at hformat
    | some f =>
        have hmem : c = ':' ∨ c ∈ f := by simpa using hformat
        rcases hmem with rfl | hmem
        · decide
        · exact h.single f rfl c hmem

theorem Writable.writes_suffixText (h : Writable alignment format) :
    ∃ a f, suffixText alignment format = a ++ f ∧ WritesAlignment a alignment ∧
      WritesFormat f format := by
  refine ⟨_, _, rfl, ?_, ?_⟩
  · cases alignment with
    | none => exact .absent
    | some a =>
        obtain ⟨hlow, hhigh⟩ := h.bounded a rfl
        exact writesAlignment_ofInt hlow hhigh
  · cases format with
    | none => exact .absent
    | some f => exact .present f

end Placeholder

namespace Inline

-- An object with as much of its alignment and format as can be written
def limited (i : Inline α) : Inline α :=
  { i with
    alignment := i.alignment.map fun a => max (-1000) (min a 1000)
    format := i.format.map fun f => f.filter fun c => c ≠ '{' ∧ c ≠ '}' ∧ c ≠ '\n' }

theorem writable_limited (i : Inline α) :
    Placeholder.Writable i.limited.alignment i.limited.format := by
  constructor
  · intro a ha
    obtain ⟨b, -, rfl⟩ := Option.map_eq_some_iff.1 ha
    omega
  · intro f hf c hc
    obtain ⟨g, -, rfl⟩ := Option.map_eq_some_iff.1 hf
    simpa using (List.mem_filter.1 hc).2

theorem limited_format {i : Inline α}
    (h : ∀ f ∈ i.format, ∀ c ∈ f, c ≠ '{' ∧ c ≠ '}' ∧ c ≠ '\n') : i.limited.format = i.format := by
  obtain ⟨object, alignment, format⟩ := i
  cases format with
  | none => rfl
  | some f =>
      rw [limited, Option.map_some, Option.some.injEq, List.filter_eq_self]
      intro c hc
      simpa using h f rfl c hc

theorem limited_alignment {i : Inline α} (h : ∀ a ∈ i.alignment, -1000 ≤ a ∧ a ≤ 1000) :
    i.limited.alignment = i.alignment := by
  obtain ⟨object, alignment, format⟩ := i
  cases alignment with
  | none => rfl
  | some a =>
      have ha := h a rfl
      rw [limited, Option.map_some, Option.some.injEq]
      omega

theorem limited_eq_self {i : Inline α} (h : Placeholder.Writable i.alignment i.format) :
    i.limited = i :=
  calc
    i.limited = ⟨i.object, i.limited.alignment, i.limited.format⟩ := rfl
    _ = i := by rw [limited_alignment h.bounded, limited_format h.single]

theorem stripFormat_eq (t : Text) :
    stripFormat t = t.filter fun c => c ≠ '{' ∧ c ≠ '}' ∧ c ≠ '\n' := by
  unfold stripFormat
  apply List.filter_congr
  intro c _
  rw [Bool.eq_iff_iff, Bool.not_eq_true', Item.isDelimiter_eq_false_iff, decide_eq_true_eq]

theorem hole_eq (i : Inline α) (k : Nat) :
    i.hole k = ⟨Numeral.ofNat k, Placeholder.suffixText i.limited.alignment i.limited.format,
      ⟨k, i.limited.alignment, i.limited.format⟩⟩ := by
  have hformat : i.format.map stripFormat = i.limited.format := by
    rw [funext stripFormat_eq]
    rfl
  rw [hole, hformat]
  rfl

theorem hole_limited (i : Inline α) (k : Nat) : i.limited.hole k = i.hole k := by
  have htwice : i.limited.limited = i.limited := limited_eq_self i.writable_limited
  rw [hole_eq, hole_eq, htwice]

-- What is written for an object reads as its placeholder, if its number is one that can be
-- read.
theorem written_hole (i : Inline α) {k : Nat} (hk : k < Nat.pow 2 64) : (i.hole k).Written := by
  rw [hole_eq]
  exact ⟨Numeral.isDigits_ofNat k, (Numeral.digitsValue_ofNat k).symm, hk,
    i.writable_limited.single_suffixText, i.writable_limited.writes_suffixText⟩

end Inline

namespace Compound

theorem written_itemOfChar (c : Char) : (itemOfChar c).Written := by
  unfold itemOfChar
  split
  · exact .brace .opening
  · split
    · exact .brace .closing
    · next hopen hclose => exact .char hopen hclose

theorem sign_itemOfChar (c : Char) : (itemOfChar c).sign = .inl c := by
  unfold itemOfChar
  split
  · next hopen => rw [hopen]; rfl
  · split
    · next hclose => rw [hclose]; rfl
    · rfl

theorem itemOfChar_ne_hole (c : Char) (h : Hole) : itemOfChar c ≠ .hole h := by
  intro he
  have hsign := sign_itemOfChar c
  rw [he] at hsign
  cases hsign

-- Placeholders are those of the objects that have markers, with their places as indices.
theorem mem_itemsOf {k : Nat} {t : Text} {contents : List (Inline α)} {item : Item}
    (h : item ∈ itemsOf k t contents) :
    (∃ c, item = itemOfChar c) ∨
      ∃ j i, j < markerCount t ∧ contents[j]? = some i ∧ item = .hole (i.hole (k + j)) := by
  induction t generalizing k contents with
  | nil => simp [itemsOf] at h
  | cons c t ih =>
      unfold itemsOf at h
      by_cases hc : c = marker
      · have hcount : markerCount (c :: t) = markerCount t + 1 := by simp [markerCount, hc]
        rw [if_pos hc] at h
        rw [hcount]
        cases contents with
        | nil =>
            rcases ih h with hchar | ⟨j, i, -, hj, -⟩
            · exact .inl hchar
            · simp at hj
        | cons i others =>
            rcases List.mem_cons.1 h with rfl | hrest
            · exact .inr ⟨0, i, by omega, rfl, rfl⟩
            · rcases ih hrest with hchar | ⟨j, o, hlt, hj, rfl⟩
              · exact .inl hchar
              · have hplace : k + 1 + j = k + (j + 1) := by omega
                exact .inr ⟨j + 1, o, by omega, by simpa using hj, by rw [hplace]⟩
      · have hcount : markerCount (c :: t) = markerCount t := by simp [markerCount, hc]
        rw [if_neg hc] at h
        rw [hcount]
        rcases List.mem_cons.1 h with rfl | hrest
        · exact .inl ⟨c, rfl⟩
        · exact ih hrest

theorem index_lt_of_mem_itemsOf {c : Compound α} {h : Hole}
    (hmem : .hole h ∈ itemsOf 0 c.text c.contents) :
    h.placeholder.index < c.toTemplate.args.length := by
  have hargs : c.toTemplate.args.length = min (markerCount c.text) c.contents.length := by
    simp [toTemplate]
  rcases mem_itemsOf hmem with ⟨ch, hch⟩ | ⟨j, i, hmarker, hj, he⟩
  · exact absurd hch.symm (itemOfChar_ne_hole ch h)
  · have hlt : j < c.contents.length := (List.getElem?_eq_some_iff.1 hj).1
    obtain rfl := Item.hole.inj he
    rw [Inline.hole_eq, hargs]
    dsimp only
    omega

theorem splits_toTemplate (c : Compound α) (hcount : c.contents.length ≤ Nat.pow 2 64) :
    Template.Splits c.toTemplate.args.length c.toTemplate.format
      (itemsOf 0 c.text c.contents) where
  print_eq := rfl
  written := by
    intro item hmem
    rcases mem_itemsOf hmem with ⟨ch, rfl⟩ | ⟨j, i, -, hj, rfl⟩
    · exact written_itemOfChar ch
    · have hlt : j < c.contents.length := (List.getElem?_eq_some_iff.1 hj).1
      exact .hole (i.written_hole (by omega))
  index_lt := fun _ hmem => index_lt_of_mem_itemsOf hmem

-- The text of a template that is written is read as that template.
theorem ofFormat_toTemplate (c : Compound α) (hcount : c.contents.length ≤ Nat.pow 2 64) :
    Template.ofFormat c.toTemplate.format c.toTemplate.args = .ok c.toTemplate :=
  Template.ofFormat_eq_ok_iff.2 ⟨_, c.splits_toTemplate hcount, rfl⟩

end Compound

namespace Cell

-- What is shown of cells, with their objects numbered from a number on
def signs : Nat → List (Cell α) → List (Char ⊕ Placeholder)
  | _, [] => []
  | k, .char c :: cells => .inl c :: signs k cells
  | k, .object i :: cells =>
    .inr ⟨k, i.limited.alignment, i.limited.format⟩ :: signs (k + 1) cells

theorem filterMap_getRight?_signs (k : Nat) (cells : List (Cell α)) :
    (signs k cells).filterMap Sum.getRight? =
      (cells.filterMap object?).mapIdx fun j i => ⟨k + j, i.limited.alignment, i.limited.format⟩ := by
  induction cells generalizing k with
  | nil => rfl
  | cons cell cells ih =>
      cases cell with
      | char c => rw [signs, List.filterMap_cons_none rfl, ih, filterMap_object?_char]
      | object i =>
          have hplace : ∀ j, k + 1 + j = k + (j + 1) := by omega
          simp [signs, ih, hplace]

end Cell

namespace Compound

theorem sign_itemsOf {cells : List (Cell α)} (h : ∀ ch, .char ch ∈ cells → ch ≠ marker) (k : Nat) :
    (itemsOf k (cells.map Cell.mark) (cells.filterMap Cell.object?)).map Item.sign =
      Cell.signs k cells := by
  induction cells generalizing k with
  | nil => rfl
  | cons cell cells ih =>
      have hrest := ih fun ch hmem => h ch (List.mem_cons_of_mem _ hmem)
      cases cell with
      | char c =>
          have hc := h c List.mem_cons_self
          have hitems : itemsOf k ((Cell.char c :: cells).map Cell.mark)
              ((Cell.char c :: cells).filterMap Cell.object?) =
              itemOfChar c :: itemsOf k (cells.map Cell.mark) (cells.filterMap Cell.object?) := by
            simp [itemsOf, Cell.mark, hc]
          rw [hitems, List.map_cons, sign_itemOfChar, hrest, Cell.signs]
      | object i =>
          have hitems : itemsOf k ((Cell.object i :: cells).map Cell.mark)
              ((Cell.object i :: cells).filterMap Cell.object?) =
              .hole (i.hole k) ::
                itemsOf (k + 1) (cells.map Cell.mark) (cells.filterMap Cell.object?) := by
            simp [itemsOf, Cell.mark]
          rw [hitems, List.map_cons, hrest, Item.sign, Inline.hole_eq, Cell.signs]

namespace Shows

variable {c : Compound α} {cells : List (Cell α)}

theorem signs_toTemplate (h : c.Shows cells) :
    c.toTemplate.segments.flatMap Segment.signs = Cell.signs 0 cells := by
  rw [toTemplate, Segment.signs_ofItems, h.text_eq, h.contents_eq, sign_itemsOf h.plain]

theorem args_toTemplate (h : c.Shows cells) : c.toTemplate.args = c.contents.map (·.object) := by
  have hcount : c.contents.take (markerCount c.text) = c.contents := by
    rw [h.markerCount_eq, List.take_length]
  rw [toTemplate]
  dsimp only
  rw [hcount]

end Shows

-- Whatever a text was edited to, the template that is written from it is the one that its
-- format text is read as. Its arguments are the objects in the order of their markers, and
-- its placeholders count them up, with the alignments and formats as far as they can be
-- written. There are as many objects as can be counted.
theorem reachable_toTemplate_reads_back {c : Compound α} (h : c.Reachable)
    (hcount : c.contents.length < Nat.pow 2 64) :
    Template.ofFormat c.toTemplate.format c.toTemplate.args = .ok c.toTemplate ∧
    c.toTemplate.args = c.contents.map (·.object) ∧
    (c.toTemplate.segments.filterMap Segment.placeholder? =
      c.contents.mapIdx fun k i => ⟨k, i.limited.alignment, i.limited.format⟩) ∧
    ∃ cells, c.view? = some cells ∧ cells.filterMap Cell.object? = c.contents ∧
      c.toTemplate.segments.flatMap Segment.signs = Cell.signs 0 cells := by
  obtain ⟨cells, hshows⟩ := h.exists_shows
  have hsigns := hshows.signs_toTemplate
  have hplaceholders := Segment.filterMap_getRight?_signs c.toTemplate.segments
  rw [hsigns, Cell.filterMap_getRight?_signs, ← hshows.contents_eq] at hplaceholders
  refine ⟨c.ofFormat_toTemplate hcount.le, hshows.args_toTemplate, ?_, cells, hshows.view?_eq,
    hshows.contents_eq.symm, hsigns⟩
  rw [← hplaceholders]
  simp only [Nat.zero_add]

-- A brace and a line break in the text, an object put in front of them, and a wide alignment
-- with a format that would end its placeholder
theorem reachable_toTemplate_reads_back_clamped :
    let wide : Inline Nat := ⟨7, some 2147483647, some "D\x7d2\x7b\n:,".toList⟩
    let c : Compound Nat := ⟨[marker, '{', '\n', marker], [⟨8, none, none⟩, wide]⟩
    let format : Text := "\x7b0\x7d\x7b\x7b\n\x7b1,1000:D2:,\x7d".toList
    c.Reachable ∧ c.contents.length < Nat.pow 2 64 ∧
      Template.ofFormat format [8, 7] = .ok c.toTemplate ∧
      c.toTemplate.segments.filterMap Segment.placeholder? =
        [⟨0, none, none⟩, ⟨1, some 1000, some "D2:,".toList⟩] := by
  intro wide c format
  have hc : c.Reachable :=
    .edit (.edit (.edit .empty (.pushText ['{', '\n'])) (.pushContent wide)) (.insert 0 ⟨8, none, none⟩)
  have hcount : c.contents.length < Nat.pow 2 64 := by decide
  obtain ⟨hread, hargs, hplaceholders, -⟩ := reachable_toTemplate_reads_back hc hcount
  have hformat : c.toTemplate.format = format := by decide +kernel
  rw [hformat, hargs] at hread
  exact ⟨hc, hcount, hread, hplaceholders⟩

end Compound

end Narrative
