import Narrative.Proofs.Compound.Writing

namespace Narrative

variable {α : Type}

namespace Cell

def limited : Cell α → Cell α
  | char c => .char c
  | object i => .object i.limited

theorem mark_limited (cell : Cell α) : cell.limited.mark = cell.mark := by
  cases cell with
  | char c => rfl
  | object i => rfl

theorem object?_limited (cell : Cell α) : cell.limited.object? = cell.object?.map Inline.limited := by
  cases cell with
  | char c => rfl
  | object i => rfl

theorem limited_eq_char {cell : Cell α} {ch : Char} (h : cell.limited = .char ch) :
    cell = .char ch := by
  cases cell with
  | char c => exact h
  | object i => cases h

theorem ofSign_inl {c : Char} (h : c ≠ marker) (args : List α) : ofSign args (.inl c) = [char c] := by
  simp [ofSign, ofText, h]

-- The objects are found again by their numbers.
theorem flatMap_ofSign_signs {cells : List (Cell α)} (h : ∀ ch, .char ch ∈ cells → ch ≠ marker)
    (before : List α) :
    (signs before.length cells).flatMap
      (ofSign (before ++ (cells.filterMap object?).map (·.object))) = cells.map limited := by
  induction cells generalizing before with
  | nil => rfl
  | cons cell cells ih =>
      have hplain := fun ch hmem => h ch (List.mem_cons_of_mem _ hmem)
      cases cell with
      | char c =>
          have hc : c ≠ marker := h c List.mem_cons_self
          rw [filterMap_object?_char, signs, List.flatMap_cons, ofSign_inl hc, ih hplain before]
          rfl
      | object i =>
          have hrest := ih hplain (before ++ [i.object])
          rw [List.append_assoc, List.singleton_append, List.length_append,
            List.length_singleton] at hrest
          rw [filterMap_object?_object, List.map_cons, signs, List.flatMap_cons, hrest]
          simp [ofSign, limited, Inline.limited]

theorem signs_ofText_append (k : Nat) (t : Text) (cells : List (Cell α)) :
    signs k (ofText t ++ cells) = (t.filter (· ≠ marker)).map .inl ++ signs k cells := by
  rw [ofText]
  induction t.filter (· ≠ marker) with
  | nil => rfl
  | cons c t ih => simp [signs, ih]

end Cell

namespace Compound

-- A text with as much of the alignments and formats of its objects as can be written
def limited (c : Compound α) : Compound α := ⟨c.text, c.contents.map Inline.limited⟩

theorem limited_eq_self {c : Compound α}
    (h : ∀ i ∈ c.contents, Placeholder.Writable i.alignment i.format) : c.limited = c := by
  have hcontents : c.contents.map Inline.limited = c.contents.map id :=
    List.map_congr_left fun i hi => Inline.limited_eq_self (h i hi)
  rw [limited, hcontents, List.map_id]

theorem itemsOf_limited (k : Nat) (t : Text) (contents : List (Inline α)) :
    itemsOf k t (contents.map Inline.limited) = itemsOf k t contents := by
  induction t generalizing k contents with
  | nil => rfl
  | cons c t ih =>
      by_cases hc : c = marker
      · cases contents with
        | nil => rfl
        | cons i others => simp [itemsOf, hc, Inline.hole_limited, ih]
      · simp [itemsOf, hc, ih]

-- What cannot be written makes no difference to the template.
theorem toTemplate_limited (c : Compound α) : c.limited.toTemplate = c.toTemplate := by
  have hargs : (c.contents.map Inline.limited).map (·.object) = c.contents.map (·.object) := by
    rw [List.map_map]
    rfl
  simp only [toTemplate, limited, itemsOf_limited, List.map_take, hargs]

namespace Shows

variable {c d : Compound α} {cells : List (Cell α)}

theorem unique (hc : c.Shows cells) (hd : d.Shows cells) : c = d := by
  obtain ⟨text, contents⟩ := c
  obtain ⟨rfl, rfl, -⟩ := hc
  obtain ⟨text, contents⟩ := d
  obtain ⟨rfl, rfl, -⟩ := hd
  rfl

theorem limited (h : c.Shows cells) : c.limited.Shows (cells.map Cell.limited) where
  text_eq := by
    rw [List.map_map, funext (f := Cell.mark ∘ Cell.limited) Cell.mark_limited]
    exact h.text_eq
  contents_eq := by
    rw [List.filterMap_map, Compound.limited, h.contents_eq, List.map_filterMap]
    exact congrArg (cells.filterMap ·) (funext fun cell => (Cell.object?_limited cell).symm)
  plain := by
    intro ch hmem
    obtain ⟨cell, hcell, he⟩ := List.mem_map.1 hmem
    rw [Cell.limited_eq_char he] at hcell
    exact h.plain ch hcell

theorem ofTemplate_toTemplate (h : c.Shows cells) : Compound.ofTemplate c.toTemplate = c.limited := by
  have hback := Shows.ofTemplate c.toTemplate
  have hcells := Cell.flatMap_ofSign_signs h.plain []
  rw [← h.contents_eq] at hcells
  rw [h.signs_toTemplate, h.args_toTemplate] at hback
  exact (hcells ▸ hback).unique h.limited

-- The same text is written again as the same template.
theorem toTemplate_ofTemplate_toTemplate (h : c.Shows cells) :
    (Compound.ofTemplate c.toTemplate).toTemplate = c.toTemplate := by
  rw [h.ofTemplate_toTemplate, toTemplate_limited]

end Shows

-- Whatever a text was edited to, it is had back from the template that is written from it,
-- with the alignments and formats as far as they can be written, and from what the format
-- text of that template is read as.
theorem reachable_survives_template {c : Compound α} (h : c.Reachable) :
    ofTemplate c.toTemplate = c.limited ∧
    ((∀ i ∈ c.contents, Placeholder.Writable i.alignment i.format) → ofTemplate c.toTemplate = c) ∧
    (c.contents.length < Nat.pow 2 64 →
      ∃ t, Template.ofFormat c.toTemplate.format c.toTemplate.args = .ok t ∧
        ofTemplate t = c.limited ∧
        ((∀ i ∈ c.contents, Placeholder.Writable i.alignment i.format) → ofTemplate t = c)) := by
  obtain ⟨cells, hshows⟩ := h.exists_shows
  have hback := hshows.ofTemplate_toTemplate
  have hexact : (∀ i ∈ c.contents, Placeholder.Writable i.alignment i.format) →
      ofTemplate c.toTemplate = c := by
    intro hwritable
    rw [hback, limited_eq_self hwritable]
  refine ⟨hback, hexact, fun hcount => ?_⟩
  exact ⟨c.toTemplate, c.ofFormat_toTemplate hcount.le, hback, hexact⟩

-- Braces and a line break around two objects that stand side by side, one with the widest
-- alignment and one with an empty format
theorem reachable_survives_template_adjacent :
    let first : Inline Nat := ⟨7, some (-1000), some "D2:,".toList⟩
    let second : Inline Nat := ⟨7, none, some []⟩
    let c : Compound Nat := ⟨['{', marker, marker, '\n', '}'], [first, second]⟩
    let format : Text := "\x7b\x7b\x7b0,-1000:D2:,\x7d\x7b1:\x7d\n\x7d\x7d".toList
    c.Reachable ∧ (∀ i ∈ c.contents, Placeholder.Writable i.alignment i.format) ∧
      c.contents.length < Nat.pow 2 64 ∧ ofTemplate c.toTemplate = c ∧
      ∃ t, Template.ofFormat format [7, 7] = .ok t ∧ ofTemplate t = c := by
  intro first second c format
  have hc : c.Reachable :=
    .edit (.edit (.edit .empty (.pushText ['{', '\n', '}'])) (.insert 1 second)) (.insert 1 first)
  have hwritable : ∀ i ∈ c.contents, Placeholder.Writable i.alignment i.format := by decide
  have hcount : c.contents.length < Nat.pow 2 64 := by decide
  obtain ⟨-, hexact, hread⟩ := reachable_survives_template hc
  obtain ⟨t, ht, -, hback⟩ := hread hcount
  have hformat : c.toTemplate.format = format := by decide +kernel
  have hargs : c.toTemplate.args = [7, 7] := by decide
  rw [hformat, hargs] at ht
  exact ⟨hc, hwritable, hcount, hexact hwritable, t, ht, hback hwritable⟩

end Compound

namespace Segment

-- Segments without marker characters, and with their placeholders counted up from a number
def renumbered : Nat → List Segment → List Segment
  | _, [] => []
  | k, literal t :: segments =>
    if t.filter (· ≠ marker) = [] then renumbered k segments
    else literal (t.filter (· ≠ marker)) :: renumbered k segments
  | k, placeholder p :: segments => placeholder { p with index := k } :: renumbered (k + 1) segments

variable {segments : List Segment}

theorem merged_renumbered (h : Text.Merged text? segments) (k : Nat) :
    Text.Merged text? (renumbered k segments) := by
  induction segments generalizing k with
  | nil => exact .nil
  | cons segment segments ih =>
      cases segment with
      | placeholder p => exact (ih h.tail (k + 1)).cons_other rfl
      | literal t =>
          unfold renumbered
          split
          · exact ih h.tail k
          · next hne =>
            obtain ⟨c, rest, hplain⟩ := List.exists_cons_of_ne_nil hne
            rw [hplain]
            apply (ih h.tail k).cons_text rfl
            -- a placeholder follows, as it did before
            have hhead := h.head?_tail rfl
            cases segments with
            | nil => simp [renumbered]
            | cons next segments =>
                cases next with
                | literal u => simp [text?] at hhead
                | placeholder p => simp [renumbered, text?]

-- Segments that are taken apart and numbered again are the renumbered ones.
theorem signs_renumbered {args : List α}
    (h : ∀ p, placeholder p ∈ segments → p.index < args.length ∧
      Placeholder.Writable p.alignment p.format) (k : Nat) :
    (renumbered k segments).flatMap signs =
      Cell.signs k ((segments.flatMap signs).flatMap (Cell.ofSign args)) := by
  induction segments generalizing k with
  | nil => rfl
  | cons segment segments ih =>
      have hrest := ih fun p hmem => h p (List.mem_cons_of_mem _ hmem)
      rw [List.flatMap_cons, List.flatMap_append]
      cases segment with
      | literal t =>
          rw [signs, Cell.flatMap_ofSign_map_inl, Cell.signs_ofText_append, ← hrest k,
            renumbered]
          split
          · next hnil => rw [hnil, List.map_nil, List.nil_append]
          · rfl
      | placeholder p =>
          obtain ⟨hlt, hwritable⟩ := h p List.mem_cons_self
          have hlimited : (⟨args[p.index], p.alignment, p.format⟩ : Inline α).limited = _ :=
            Inline.limited_eq_self hwritable
          rw [renumbered, List.flatMap_cons, hrest (k + 1)]
          simp [signs, Cell.ofSign, hlt, Cell.signs, hlimited]

-- Each placeholder takes the object that it refers to.
theorem objects_ofSign {args : List α}
    (h : ∀ p, placeholder p ∈ segments → p.index < args.length) :
    (((segments.flatMap signs).flatMap (Cell.ofSign args)).filterMap Cell.object?).map
        (fun i => some i.object) =
      (segments.filterMap placeholder?).map fun p => args[p.index]? := by
  induction segments with
  | nil => rfl
  | cons segment segments ih =>
      have hrest := ih fun p hmem => h p (List.mem_cons_of_mem _ hmem)
      rw [List.flatMap_cons, List.flatMap_append, List.filterMap_append, List.map_append, hrest]
      cases segment with
      | literal t =>
          rw [signs, Cell.flatMap_ofSign_map_inl, Compound.object?_ofText]
          rfl
      | placeholder p =>
          have hlt := h p List.mem_cons_self
          simp [signs, Cell.ofSign, hlt, placeholder?]

theorem exists_hole_of_mem {items : List Item} {p : Placeholder}
    (h : placeholder p ∈ ofItems items) : ∃ hole, .hole hole ∈ items ∧ hole.placeholder = p := by
  have hsign : .inr p ∈ (ofItems items).flatMap signs :=
    List.mem_flatMap.2 ⟨placeholder p, h, List.mem_singleton_self _⟩
  rw [signs_ofItems] at hsign
  obtain ⟨item, hitem, he⟩ := List.mem_map.1 hsign
  cases item with
  | char c => cases he
  | brace b => cases he
  | hole hole => exact ⟨hole, hitem, Sum.inr.inj he⟩

end Segment

namespace Template

variable {format : Text} {args : List α} {t : Template α}

-- A placeholder that was read refers to an argument, and could be written as it is.
theorem placeholder_of_ofFormat (h : ofFormat format args = .ok t) :
    ∀ p, .placeholder p ∈ t.segments →
      p.index < t.args.length ∧ Placeholder.Writable p.alignment p.format := by
  obtain ⟨items, hsplits, rfl⟩ := ofFormat_eq_ok_iff.1 h
  intro p hmem
  obtain ⟨hole, hhole, rfl⟩ := Segment.exists_hole_of_mem hmem
  refine ⟨hsplits.index_lt hole hhole, ?_⟩
  cases hsplits.written _ hhole with
  | hole hwritten => exact hwritten.writable

-- A template that was read is written again from its text as one that shows the same:
-- markers in its literals are gone, its placeholders are counted up and each has its own
-- argument. That template stays as it is.
theorem rewritten_of_ofFormat (h : ofFormat format args = .ok t) :
    let back := (Compound.ofTemplate t).toTemplate
    back.segments = Segment.renumbered 0 t.segments ∧
    (back.args.map some =
      (t.segments.filterMap Segment.placeholder?).map fun p => t.args[p.index]?) ∧
    (Compound.ofTemplate back).toTemplate = back := by
  intro back
  have hshows := Compound.Shows.ofTemplate t
  have hplaceholder := placeholder_of_ofFormat h
  have hmerged : Text.Merged Segment.text? t.segments := by
    obtain ⟨items, -, rfl⟩ := ofFormat_eq_ok_iff.1 h
    exact Segment.merged_ofItems items
  refine ⟨?_, ?_, hshows.toTemplate_ofTemplate_toTemplate⟩
  · apply Segment.eq_of_signs (Segment.merged_ofItems _) (Segment.merged_renumbered hmerged 0)
    rw [Segment.signs_renumbered hplaceholder]
    exact hshows.signs_toTemplate
  · have hargs : back.args = _ := hshows.args_toTemplate
    rw [hargs, hshows.contents_eq, List.map_map]
    exact Segment.objects_ofSign fun p hmem => (hplaceholder p hmem).1

-- A marker in front and one between two placeholders, a brace, and indices that repeat and
-- count down
theorem rewritten_of_ofFormat_repeated :
    let format : Text := "\uFFFC\x7b1\x7d\x7b\x7b\x7b0, 3:x\x7d\uFFFC\x7b01:\x7d".toList
    ∃ t, ofFormat format [10, 11] = .ok t ∧
      t.segments = [.literal [marker], .placeholder ⟨1, none, none⟩, .literal ['{'],
        .placeholder ⟨0, some 3, some ['x']⟩, .literal [marker], .placeholder ⟨1, none, some []⟩] ∧
      (Compound.ofTemplate t).toTemplate.segments = [.placeholder ⟨0, none, none⟩, .literal ['{'],
        .placeholder ⟨1, some 3, some ['x']⟩, .placeholder ⟨2, none, some []⟩] ∧
      (Compound.ofTemplate t).toTemplate.args.map some = [some 11, some 10, some 11] := by
  intro format
  have h : ofFormat format [10, 11] = .ok ⟨format, [10, 11],
      [.literal [marker], .placeholder ⟨1, none, none⟩, .literal ['{'],
        .placeholder ⟨0, some 3, some ['x']⟩, .literal [marker],
        .placeholder ⟨1, none, some []⟩]⟩ := by
    decide +kernel
  obtain ⟨hsegments, hargs, -⟩ := rewritten_of_ofFormat h
  exact ⟨_, h, rfl, hsegments, hargs⟩

end Template

end Narrative
