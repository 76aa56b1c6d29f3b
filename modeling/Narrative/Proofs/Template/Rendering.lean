import Narrative.Proofs.Template.Cutting
import Narrative.Proofs.Text.Concatenating

namespace Narrative.Template

variable {α : Type}

section Signs

variable (render : α → Option Text → Except RenderError Text) (args : List α)

-- A character shows itself, a placeholder its argument.
def renderSign : Char ⊕ Placeholder → Except RenderError Text
  | .inl c => .ok [c]
  | .inr p => do
    let arg ← match args[p.index]? with
      | some arg => .ok arg
      | none => .error (.missingArgument p.index)
    let shown ← render arg p.format
    return align p.alignment shown

theorem renderSign_of_getElem? {p : Placeholder} {arg : α} (h : args[p.index]? = some arg) :
    renderSign render args (.inr p) = (render arg p.format).map (align p.alignment) := by
  rw [renderSign, h]
  cases hshown : render arg p.format <;>
    simp [hshown, bind, Except.bind, Except.map, pure, Except.pure]

-- What is shown sign by sign, up to the first that cannot be
def renderSigns (signs : List (Char ⊕ Placeholder)) : Except RenderError Text :=
  (signs.mapM (renderSign render args)).map List.flatten

theorem renderSigns_cons (sign : Char ⊕ Placeholder) (signs : List (Char ⊕ Placeholder)) :
    renderSigns render args (sign :: signs) = do
      return (← renderSign render args sign) ++ (← renderSigns render args signs) :=
  Text.concatM_cons _ sign signs

theorem renderSigns_append (signs more : List (Char ⊕ Placeholder)) :
    renderSigns render args (signs ++ more) = do
      return (← renderSigns render args signs) ++ (← renderSigns render args more) :=
  Text.concatM_append _ signs more

theorem renderSigns_text (t : Text) : renderSigns render args (t.map .inl) = .ok t :=
  (Text.concatM_map _ Sum.inl t).trans (Text.concatM_chars t)

theorem renderSegments_placeholder (p : Placeholder) (segments : List Segment) :
    renderSegments render args (.placeholder p :: segments) = do
      return (← renderSign render args (.inr p)) ++ (← renderSegments render args segments) := by
  rw [renderSegments, renderSign]
  cases args[p.index]? with
  | none => rfl
  | some arg =>
      cases hshown : render arg p.format with
      | error e => simp [hshown, bind, Except.bind]
      | ok shown => simp [hshown, bind, Except.bind, pure, Except.pure]

-- Segments are rendered as the signs in them.
theorem renderSegments_eq (segments : List Segment) :
    renderSegments render args segments = renderSigns render args (segments.flatMap Segment.signs) := by
  induction segments with
  | nil => rfl
  | cons segment segments ih =>
      rw [List.flatMap_cons]
      cases segment with
      | literal t =>
          rw [Segment.signs, renderSigns_append, renderSigns_text, ← ih, renderSegments]
          cases renderSegments render args segments <;> rfl
      | placeholder p =>
          rw [Segment.signs, List.singleton_append, renderSigns_cons, ← ih,
            renderSegments_placeholder]

end Signs

section Compacting

variable {render : α → Option Text → Except RenderError Text} {args : List α} {t : Text}
  {items : List Item}

-- An argument is found at the place of its index.
theorem getElem?_filterMap_idxOf {order : List Nat} (h : ∀ index ∈ order, index < args.length)
    {index : Nat} (hmem : index ∈ order) :
    (order.filterMap (args[·]?))[order.idxOf index]? = args[index]? := by
  induction order with
  | nil => cases hmem
  | cons first order ih =>
      have hlt := h first List.mem_cons_self
      have hfirst : args[first]? = some args[first] := List.getElem?_eq_getElem hlt
      rw [List.filterMap_cons_some hfirst]
      by_cases he : first = index
      · rw [← he, List.idxOf_cons_self, List.getElem?_cons_zero, hfirst]
      · have hrest : index ∈ order := (List.mem_cons.1 hmem).resolve_left (Ne.symm he)
        rw [List.idxOf_cons_ne _ he, List.getElem?_cons_succ]
        exact ih (fun other hother => h other (List.mem_cons_of_mem _ hother)) hrest

-- A placeholder shows the same argument under its new number.
theorem renderSign_renumber (h : Splits args.length t items) {item : Item} (hmem : item ∈ items) :
    renderSign render ((firstOccurrences items).filterMap (args[·]?))
        (renumber (firstOccurrences items) item).sign =
      renderSign render args item.sign := by
  cases item with
  | char c => rfl
  | brace b => rfl
  | hole hole =>
      have hlt : hole.placeholder.index < args.length := h.index_lt hole hmem
      have hindex : hole.placeholder.index ∈ firstOccurrences items :=
        List.mem_eraseDups.2 (mem_indices_iff.2 ⟨hole, hmem, rfl⟩)
      have hlookup := getElem?_filterMap_idxOf
        (fun index hindex => (h.lt_of_mem_firstOccurrences hindex).1) hindex
      have harg := List.getElem?_eq_getElem hlt
      rw [renumber, Item.sign, Item.sign, renderSign_of_getElem? render args harg]
      exact renderSign_of_getElem? render _ (hlookup.trans harg)

theorem renderSigns_renumber (h : Splits args.length t items) {part : List Item} (hpart : part ⊆ items) :
    renderSigns render ((firstOccurrences items).filterMap (args[·]?))
        ((part.map (renumber (firstOccurrences items))).map Item.sign) =
      renderSigns render args (part.map Item.sign) := by
  induction part with
  | nil => rfl
  | cons item part ih =>
      obtain ⟨hitem, hrest⟩ := List.cons_subset.1 hpart
      rw [List.map_cons, List.map_cons, List.map_cons, renderSigns_cons, renderSigns_cons,
        renderSign_renumber h hitem, ih hrest]

-- A line is shown by its template as it is shown by the document.
theorem Splits.exists_compactLine {document : Template α} (h : Splits document.args.length t items)
    (render : α → Option Text → Except RenderError Text) :
    ∃ compacted, document.compactLine t = .ok compacted ∧
      compacted.render render = renderSigns render document.args (items.map Item.sign) := by
  refine ⟨_, compactLine_eq_ok_iff.2 ⟨items, h, rfl⟩, ?_⟩
  rw [Template.render, renderSegments_eq, compaction, Segment.signs_ofItems]
  exact renderSigns_renumber h (List.Subset.refl items)

end Compacting

section Lines

variable {document : Template α} {items : List Item}

-- Rendered lines, one of them in front of others
theorem map_intercalate_mapM_cons (render : α → Option Text → Except RenderError Text)
    (t next : Template α) (rest : List (Template α)) :
    ((t :: next :: rest).mapM (Template.render render)).map (List.intercalate ['\n']) = do
      return (← t.render render) ++
        '\n' :: (← ((next :: rest).mapM (Template.render render)).map (List.intercalate ['\n'])) := by
  rw [List.mapM_cons, List.mapM_cons]
  cases t.render render with
  | error e => rfl
  | ok shown =>
      cases next.render render with
      | error e => rfl
      | ok shown' =>
          cases rest.mapM (Template.render render) with
          | error e => rfl
          | ok others =>
              have hjoin : List.intercalate ['\n'] (shown :: shown' :: others) =
                  shown ++ '\n' :: List.intercalate ['\n'] (shown' :: others) := by
                rw [List.intercalate_cons_cons, List.append_assoc, List.singleton_append]
              exact congrArg Except.ok hjoin

-- Lines that are compacted and rendered one by one, and put together again
theorem Splits.exists_compacted {parts : List Text} (hne : parts ≠ [])
    (h : Splits document.args.length (List.intercalate ['\n'] parts) items)
    (render : α → Option Text → Except RenderError Text) :
    ∃ first rest, parts.mapM document.compactLine = .ok (first :: rest) ∧
      renderSigns render document.args (items.map Item.sign) =
        ((first :: rest).mapM (Template.render render)).map (List.intercalate ['\n']) := by
  induction parts generalizing items with
  | nil => exact absurd rfl hne
  | cons part parts ih =>
      cases parts with
      | nil =>
          rw [List.intercalate_singleton] at h
          obtain ⟨t, ht, hrender⟩ := h.exists_compactLine render
          refine ⟨t, [], by rw [List.mapM_cons, ht]; rfl, ?_⟩
          rw [← hrender, List.mapM_cons]
          cases t.render render with
          | error e => rfl
          | ok shown => exact congrArg Except.ok List.intercalate_singleton.symm
      | cons next parts =>
          rw [List.intercalate_cons_cons, List.append_assoc, List.singleton_append] at h
          obtain ⟨front, back, rfl, hfront, hback⟩ := h.cut
          obtain ⟨t, ht, hrender⟩ := hfront.exists_compactLine render
          obtain ⟨first, rest, hcompacted, hrest⟩ := ih (List.cons_ne_nil next parts) hback
          refine ⟨t, first :: rest, by rw [List.mapM_cons, ht, hcompacted]; rfl, ?_⟩
          -- the line break is shown between the line and those behind it
          rw [List.map_append, List.map_cons, renderSigns_append, renderSigns_cons, ← hrender, hrest,
            map_intercalate_mapM_cons]
          cases ((first :: rest).mapM (Template.render render)).map (List.intercalate ['\n']) <;> rfl

end Lines

-- A template is shown when all of its arguments are.
theorem exists_render {format : Text} {args : List α} {t : Template α} (h : ofFormat format args = .ok t)
    {render : α → Option Text → Except RenderError Text}
    (hargs : ∀ arg ∈ args, ∀ format, ∃ shown, render arg format = .ok shown) :
    ∃ shown, t.render render = .ok shown := by
  obtain ⟨items, hsplits, rfl⟩ := ofFormat_eq_ok_iff.1 h
  rw [Template.render, renderSegments_eq, Segment.signs_ofItems]
  apply Text.exists_concatM
  intro sign hsign
  obtain ⟨item, hmem, rfl⟩ := List.mem_map.1 hsign
  cases item with
  | char c => exact ⟨[c], rfl⟩
  | brace b => exact ⟨[b.char], rfl⟩
  | hole hole =>
      have hlt := hsplits.index_lt hole hmem
      obtain ⟨shown, hshown⟩ := hargs _ (List.getElem_mem hlt) hole.placeholder.format
      refine ⟨align hole.placeholder.alignment shown, ?_⟩
      rw [Item.sign, renderSign_of_getElem? render args (List.getElem?_eq_getElem hlt), hshown]
      rfl

-- One error is enough for a row of results to be one.
theorem exists_mapM_eq_error_iff {β γ ε : Type} {f : β → Except ε γ} {l : List β} :
    (∃ e, l.mapM f = .error e) ↔ ∃ x ∈ l, ∃ e, f x = .error e := by
  induction l with
  | nil => simp [pure, Except.pure]
  | cons x l ih =>
      rw [List.mapM_cons, List.exists_mem_cons_iff, ← ih]
      cases f x with
      | error e => simp [bind, Except.bind]
      | ok y => cases l.mapM f <;> simp [bind, Except.bind, pure, Except.pure]

-- Every line of a document is made into a template of its own, and these show line by line
-- what the document shows. It cannot be shown when one of its lines cannot.
theorem render_eq_rendered_lines {format : Text} {args : List α} {document : Template α}
    (h : ofFormat format args = .ok document)
    (render : α → Option Text → Except RenderError Text) :
    ∃ compacted, (Text.lines document.format).mapM document.compactLine = .ok compacted ∧
      document.render render =
        (compacted.mapM (Template.render render)).map (List.intercalate ['\n']) ∧
      ((∃ e, document.render render = .error e) ↔
        ∃ t ∈ compacted, ∃ e, t.render render = .error e) := by
  obtain ⟨items, hsplits, hdocument⟩ := ofFormat_eq_ok_iff.1 h
  have hlines : Splits document.args.length
      (List.intercalate ['\n'] (Text.lines document.format)) items := by
    rw [hdocument, Text.intercalate_lines]
    exact hsplits
  obtain ⟨first, rest, hcompacted, hrender⟩ :=
    hlines.exists_compacted (Text.splitOn_ne_nil '\n' document.format) render
  have hsigns : document.render render = renderSigns render document.args (items.map Item.sign) := by
    rw [hdocument, Template.render, renderSegments_eq, Segment.signs_ofItems]
  refine ⟨first :: rest, hcompacted, hsigns.trans hrender, ?_⟩
  rw [hsigns, hrender, ← exists_mapM_eq_error_iff]
  cases (first :: rest).mapM (Template.render render) <;> simp [Except.map]

-- Braces at both ends of a line, an empty line, and arguments that repeat across lines
theorem render_eq_rendered_lines_braces :
    let format : Text := "\x7b1\x7d\x7b\x7b\n\n\x7d\x7d\x7b0,-3\x7d\x7b1:!\x7d".toList
    let render (n : Nat) (_ : Option Text) : Except RenderError Text := .ok (Numeral.ofNat n)
    ∃ document compacted, ofFormat format [10, 11] = .ok document ∧
      (Text.lines document.format).mapM document.compactLine = .ok compacted ∧
      document.render render = .ok "11\x7b\n\n\x7d10 11".toList ∧
      document.render render =
        (compacted.mapM (Template.render render)).map (List.intercalate ['\n']) := by
  intro format render
  have h : ofFormat format [10, 11] = .ok ⟨format, [10, 11],
      [.placeholder ⟨1, none, none⟩, .literal "\x7b\n\n\x7d".toList, .placeholder ⟨0, some (-3), none⟩,
        .placeholder ⟨1, none, some ['!']⟩]⟩ := by
    decide +kernel
  obtain ⟨compacted, hcompacted, hrender, -⟩ := render_eq_rendered_lines h render
  exact ⟨_, compacted, h, hcompacted, by decide +kernel, hrender⟩

end Narrative.Template
