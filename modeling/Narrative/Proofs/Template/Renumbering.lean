import Narrative.Proofs.Template.Rendering

namespace Narrative

variable {α : Type}

namespace Item

-- The text of an item, with the place of its index in the order for the digits of a
-- placeholder
def renumberedText (order : List Nat) : Item → Text
  | hole h => '{' :: Numeral.ofNat (order.idxOf h.placeholder.index) ++ h.suffix ++ ['}']
  | item => item.text

theorem text_renumber (order : List Nat) (item : Item) :
    (Template.renumber order item).text = item.renumberedText order := by
  cases item with
  | char c => rfl
  | brace b => rfl
  | hole h => simp [Template.renumber, text, renumberedText, Hole.inner, Hole.withIndex]

theorem print_renumber (order : List Nat) (items : List Item) :
    print (items.map (Template.renumber order)) = items.flatMap (renumberedText order) := by
  rw [print, List.flatMap_map]
  exact congrArg (items.flatMap ·) (funext (text_renumber order))

theorem indices_renumber (order : List Nat) (items : List Item) :
    indices (items.map (Template.renumber order)) = (indices items).map order.idxOf := by
  rw [indices, indices, List.filterMap_map, List.map_filterMap]
  apply List.filterMap_congr
  intro item _
  cases item <;> rfl

end Item

namespace Segment

-- The same segment with the place of its index in the order, for a placeholder
def renumber (order : List Nat) : Segment → Segment
  | literal t => literal t
  | placeholder p => placeholder { p with index := order.idxOf p.index }

theorem map_renumber_consChar (order : List Nat) (c : Char) (segments : List Segment) :
    (consChar c segments).map (renumber order) = consChar c (segments.map (renumber order)) := by
  cases segments with
  | nil => rfl
  | cons segment segments => cases segment <;> rfl

theorem ofItems_renumber (order : List Nat) (items : List Item) :
    ofItems (items.map (Template.renumber order)) = (ofItems items).map (renumber order) := by
  induction items with
  | nil => rfl
  | cons item items ih =>
      cases item with
      | char c =>
          change consChar c (ofItems (items.map (Template.renumber order))) = _
          rw [ih, ofItems, map_renumber_consChar]
      | brace b =>
          change consChar b.char (ofItems (items.map (Template.renumber order))) = _
          rw [ih, ofItems, map_renumber_consChar]
      | hole h =>
          rw [List.map_cons, Template.renumber, ofItems, ih]
          rfl

-- The indices of placeholders are those of the items that they were read from.
theorem indices_ofItems (items : List Item) :
    ((ofItems items).filterMap placeholder?).map (·.index) = Item.indices items := by
  rw [← filterMap_getRight?_signs, signs_ofItems, List.filterMap_map, List.map_filterMap, Item.indices]
  apply List.filterMap_congr
  intro item _
  cases item <;> rfl

end Segment

namespace Template

theorem firstOccurrences_renumber (items : List Item) :
    firstOccurrences (items.map (renumber (firstOccurrences items))) =
      List.range (firstOccurrences items).length := by
  rw [firstOccurrences, Item.indices_renumber]
  exact eraseDups_map_idxOf (Item.indices items)

-- A placeholder that is counted up keeps its number.
theorem renumber_range {order : List Nat} {item : Item}
    (h : ∀ hole, item = .hole hole → hole.placeholder.index ∈ order) :
    renumber (List.range order.length) (renumber order item) = renumber order item := by
  cases item with
  | char c => rfl
  | brace b => rfl
  | hole hole =>
      have hlt := List.idxOf_lt_length_of_mem (h hole rfl)
      have hplace := List.nodup_range.idxOf_getElem (order.idxOf hole.placeholder.index)
        (by rwa [List.length_range])
      rw [List.getElem_range] at hplace
      simp only [renumber, Hole.withIndex, hplace]

theorem filterMap_getElem?_range (args : List α) :
    (List.range args.length).filterMap (args[·]?) = args := by
  induction args with
  | nil => rfl
  | cons arg args ih => simpa [List.range_succ_eq_map, List.filterMap_map, Function.comp_def] using ih

-- Arguments that there are, in any order
theorem map_some_filterMap_getElem? {args : List α} {order : List Nat}
    (h : ∀ index ∈ order, index < args.length) :
    (order.filterMap (args[·]?)).map some = order.map (args[·]?) := by
  induction order with
  | nil => rfl
  | cons index order ih =>
      have harg := List.getElem?_eq_getElem (h index List.mem_cons_self)
      have hrest := ih fun other hother => h other (List.mem_cons_of_mem index hother)
      rw [List.filterMap_cons_some harg, List.map_cons, List.map_cons, hrest, harg]

section Compacting

variable {document compacted : Template α} {line : Text}

theorem compactLine_eq_error_iff {e : FormatError} :
    document.compactLine line = .error e ↔ ofFormat line document.args = .error e := by
  rw [ofFormat_eq_error_iff, compactLine]
  cases scan line document.args.length <;> simp [Except.map]

-- What was compacted is compact: its placeholders count its arguments up.
theorem compactLine_of_compactLine (h : document.compactLine line = .ok compacted) :
    compacted.compactLine compacted.format = .ok compacted := by
  obtain ⟨items, hitems, rfl⟩ := compactLine_eq_ok_iff.1 h
  have hlength := hitems.length_filterMap_firstOccurrences
  refine compactLine_eq_ok_iff.2 ⟨items.map (renumber (firstOccurrences items)), ?_, ?_⟩
  · rw [compaction, hlength]
    exact hitems.renumber
  · have hsame : (items.map (renumber (firstOccurrences items))).map
        (renumber (List.range (firstOccurrences items).length)) =
        items.map (renumber (firstOccurrences items)) := by
      rw [List.map_map]
      apply List.map_congr_left
      intro item hmem
      apply renumber_range
      rintro hole rfl
      exact List.mem_eraseDups.2 (mem_indices_iff.2 ⟨hole, hmem, rfl⟩)
    have hargs := filterMap_getElem?_range ((firstOccurrences items).filterMap (document.args[·]?))
    rw [hlength] at hargs
    simp only [compaction, firstOccurrences_renumber, hsame, hargs]

-- The text that is written with new numbers is one that scans, into the items that it was
-- written from.
theorem compactLine_eq_rescan (document : Template α) (line : Text) :
    document.compactLine line = do
      let items ← scan line document.args.length
      let order := firstOccurrences items
      let format := Item.print (items.map (renumber order))
      let again ← Item.scan format
      return ⟨format, order.filterMap (document.args[·]?), Segment.ofItems again⟩ := by
  cases hscan : scan line document.args.length with
  | error e =>
      rw [compactLine, hscan]
      rfl
  | ok items =>
      have hitems := scan_eq_ok_iff_splits.1 hscan
      have hagain := (scan_eq_ok_iff.1 (scan_eq_ok_iff_splits.2 hitems.renumber)).1
      rw [compactLine_eq_ok_iff.2 ⟨items, hitems, rfl⟩]
      simp only [bind, Except.bind, hagain]
      rfl

-- A line is compacted when it makes a template with the arguments of the document, and refused
-- for the same offence. Its placeholders are numbered in the order in which their arguments
-- first occur, which are then the arguments of the template. All else in the line stays, so
-- that it shows the same, and there is nothing left to compact.
theorem compactLine_renumbers (document : Template α) (line : Text) :
    (∀ e, document.compactLine line = .error e ↔ ofFormat line document.args = .error e) ∧
    ∀ compacted, document.compactLine line = .ok compacted →
      ∃ t items order, ofFormat line document.args = .ok t ∧
        Splits document.args.length line items ∧
        OrderedByFirst ((t.segments.filterMap Segment.placeholder?).map (·.index)) order ∧
        compacted.args.map some = order.map (document.args[·]?) ∧
        compacted.format = items.flatMap (Item.renumberedText order) ∧
        compacted.segments = t.segments.map (Segment.renumber order) ∧
        ofFormat compacted.format compacted.args = .ok compacted ∧
        (∀ render : α → Option Text → Except RenderError Text,
          compacted.render render = t.render render) ∧
        compacted.compactLine compacted.format = .ok compacted := by
  refine ⟨fun e => compactLine_eq_error_iff, fun compacted h => ?_⟩
  obtain ⟨items, hitems, he⟩ := compactLine_eq_ok_iff.1 h
  have ht := ofFormat_eq_ok_iff.2 ⟨items, hitems, rfl⟩
  refine ⟨_, items, firstOccurrences items, ht, hitems, ?_, ?_, ?_, ?_,
    ofFormat_of_compactLine h, fun render => ?_, compactLine_of_compactLine h⟩
  · rw [Segment.indices_ofItems]
    exact orderedByFirst_eraseDups (Item.indices items)
  · rw [he]
    exact map_some_filterMap_getElem? fun index hmem => (hitems.lt_of_mem_firstOccurrences hmem).1
  · rw [he]
    exact Item.print_renumber (firstOccurrences items) items
  · rw [he]
    exact Segment.ofItems_renumber (firstOccurrences items) items
  · obtain ⟨other, hother, hrender⟩ := hitems.exists_compactLine render
    rw [h] at hother
    cases hother
    rw [hrender, Template.render, renderSegments_eq, Segment.signs_ofItems]

-- Numbers with leading zeros that repeat and count down, a suffix with blanks in it, and braces
theorem compactLine_renumbers_repeated :
    let document : Template Nat := ⟨[], [10, 11, 12, 13], []⟩
    let line : Text := "\x7b3\x7d\x7b\x7b\x7b001, -2 :F1\x7d\x7b03\x7d\x7d\x7d".toList
    let format : Text := "\x7b0\x7d\x7b\x7b\x7b1, -2 :F1\x7d\x7b0\x7d\x7d\x7d".toList
    ∃ compacted t, document.compactLine line = .ok compacted ∧ ofFormat line document.args = .ok t ∧
      compacted.format = format ∧ compacted.args.map some = [some 13, some 11] ∧
      ofFormat format [13, 11] = .ok compacted ∧ compacted.compactLine format = .ok compacted := by
  intro document line format
  have h : document.compactLine line = .ok ⟨format, [13, 11],
      [.placeholder ⟨0, none, none⟩, .literal ['\x7b'], .placeholder ⟨1, some (-2), some ['F', '1']⟩,
        .placeholder ⟨0, none, none⟩, .literal ['\x7d']]⟩ := by
    decide +kernel
  obtain ⟨t, items, order, ht, -, -, -, -, -, hread, -, hagain⟩ :=
    (compactLine_renumbers document line).2 _ h
  exact ⟨_, t, h, ht, rfl, rfl, hread, hagain⟩

end Compacting

end Template

end Narrative
