import Narrative.Proofs.Compound.Roundtrip
import Narrative.Proofs.Template.Rendering

namespace Narrative

variable {α : Type}

-- The widest padding is the one of the widest alignment that can be written.
theorem Template.align_limited (alignment : Option Int) (t : Text) :
    align (alignment.map fun a => max (-1000) (min a 1000)) t = align alignment t := by
  cases alignment with
  | none => rfl
  | some a =>
      have hwidth : min (max (-1000) (min a 1000)).natAbs Placeholder.maxAlignment =
          min a.natAbs Placeholder.maxAlignment := by
        unfold Placeholder.maxAlignment
        omega
      have hleft : 0 < max (-1000) (min a 1000) ↔ 0 < a := by omega
      simp only [align, Option.map_some, hwidth, Option.any_some, hleft]

theorem Inline.render_limited {i : Inline α}
    (h : ∀ f ∈ i.format, ∀ c ∈ f, c ≠ '{' ∧ c ≠ '}' ∧ c ≠ '\n')
    (render : α → Option Text → Except RenderError Text) :
    i.limited.render render = i.render render := by
  have halign : Template.align i.limited.alignment = Template.align i.alignment :=
    funext (Template.align_limited i.alignment)
  rw [Inline.render, limited_format h, halign]
  rfl

namespace Cell

-- A character shows itself, an object what it is rendered to.
def render (render : α → Option Text → Except RenderError Text) : Cell α → Except RenderError Text
  | char c => .ok [c]
  | object i => i.render render

theorem concatM_chars (render : α → Option Text → Except RenderError Text) (t : Text) :
    Text.concatM (Cell.render render) (t.map char) = .ok t :=
  (Text.concatM_map _ char t).trans (Text.concatM_chars t)

end Cell

namespace Compound

variable (render : α → Option Text → Except RenderError Text) {c : Compound α}

-- Pieces are rendered as the cells in them.
theorem renderPieces_eq (pieces : List (Piece α)) :
    renderPieces render pieces = Text.concatM (Cell.render render) (pieces.flatMap Piece.cells) := by
  induction pieces with
  | nil => rfl
  | cons piece pieces ih =>
      rw [List.flatMap_cons, Text.concatM_append, ← ih]
      cases piece with
      | text t =>
          rw [Piece.cells, Cell.concatM_chars, renderPieces]
          cases renderPieces render pieces <;> rfl
      | content i =>
          rw [Piece.cells, Text.concatM_singleton, renderPieces]
          rfl

theorem Shows.render_eq {cells : List (Cell α)} (h : c.Shows cells) :
    c.render render = Text.concatM (Cell.render render) cells := by
  rw [Compound.render, renderPieces_eq, h.cells_pieces]

-- A text is shown in the same way when its alignments are limited, and its formats need not be.
theorem Shows.render_limited {cells : List (Cell α)} (h : c.Shows cells)
    (hformat : ∀ i ∈ c.contents, ∀ f ∈ i.format, ∀ ch ∈ f, ch ≠ '{' ∧ ch ≠ '}' ∧ ch ≠ '\n') :
    c.limited.render render = c.render render := by
  rw [h.limited.render_eq, h.render_eq, Text.concatM_map]
  apply Text.concatM_congr
  intro cell hcell
  cases cell with
  | char ch => rfl
  | object i =>
      have hi : i ∈ c.contents := by
        rw [h.contents_eq]
        exact List.mem_filterMap.2 ⟨.object i, hcell, rfl⟩
      exact Inline.render_limited (hformat i hi) render

end Compound

namespace Segment

-- The same segment without marker characters
def unmarked : Segment → Segment
  | literal t => literal (t.filter (· ≠ marker))
  | placeholder p => placeholder p

-- Segments that are taken apart into cells show what they show without markers.
theorem concatM_ofSign (render : α → Option Text → Except RenderError Text) {args : List α}
    {segments : List Segment} (h : ∀ p, placeholder p ∈ segments → p.index < args.length) :
    Text.concatM (Cell.render render) ((segments.flatMap signs).flatMap (Cell.ofSign args)) =
      Template.renderSegments render args (segments.map unmarked) := by
  induction segments with
  | nil => rfl
  | cons segment segments ih =>
      have hrest := ih fun p hmem => h p (List.mem_cons_of_mem _ hmem)
      rw [List.flatMap_cons, List.flatMap_append, Text.concatM_append, hrest, List.map_cons]
      cases segment with
      | literal t =>
          rw [signs, Cell.flatMap_ofSign_map_inl, Cell.ofText, Cell.concatM_chars, unmarked,
            Template.renderSegments]
          cases Template.renderSegments render args (segments.map unmarked) <;> rfl
      | placeholder p =>
          have hlt := h p List.mem_cons_self
          have hcells : (signs (placeholder p)).flatMap (Cell.ofSign args) =
              [.object ⟨args[p.index], p.alignment, p.format⟩] := by
            simp [signs, Cell.ofSign, hlt]
          have hsign := Template.renderSign_of_getElem? render args (List.getElem?_eq_getElem hlt)
          rw [hcells, Text.concatM_singleton, unmarked, Template.renderSegments_placeholder, hsign]
          rfl

end Segment

namespace Template

-- Every way in which a template comes about: from format text or text as it is, from a line of a
-- document, and from a text with objects in it
inductive Made : Template α → Prop
  | built {t : Template α} (h : t.Built) : Made t
  | compacted {document t : Template α} {line : Text} (h : document.compactLine line = .ok t) : Made t
  | written (c : Compound α) : Made c.toTemplate

theorem Made.index_lt {t : Template α} (h : t.Made) :
    ∀ p, .placeholder p ∈ t.segments → p.index < t.args.length := by
  have hread : ∀ {format : Text} {args : List α}, ofFormat format args = .ok t →
      ∀ p, .placeholder p ∈ t.segments → p.index < t.args.length :=
    fun he p hmem => (placeholder_of_ofFormat he p hmem).1
  cases h with
  | built h =>
      cases h with
      | format he => exact hread he
      | source he => exact hread he
      | text t =>
          intro p hmem
          cases t <;> simp [ofText, Segment.ofText] at hmem
  | compacted h => exact hread (ofFormat_of_compactLine h)
  | written c =>
      intro p hmem
      obtain ⟨hole, hhole, rfl⟩ := Segment.exists_hole_of_mem hmem
      exact Compound.index_lt_of_mem_itemsOf hhole

end Template

namespace Compound

variable {c : Compound α} {cells : List (Cell α)}

theorem mem_of_mem_signs {k : Nat} {ch : Char} (h : .inl ch ∈ Cell.signs k cells) : .char ch ∈ cells := by
  induction cells generalizing k with
  | nil => cases h
  | cons cell cells ih =>
      cases cell with
      | char other =>
          rcases List.mem_cons.1 h with he | hmem
          · cases he
            exact List.mem_cons_self
          · exact List.mem_cons_of_mem _ (ih hmem)
      | object i =>
          rcases List.mem_cons.1 h with he | hmem
          · cases he
          · exact List.mem_cons_of_mem _ (ih hmem)

-- No marker character is written into a literal.
theorem Shows.unmarked_toTemplate (h : c.Shows cells) :
    c.toTemplate.segments.map Segment.unmarked = c.toTemplate.segments := by
  have hsame : ∀ segment ∈ c.toTemplate.segments, segment.unmarked = id segment := by
    intro segment hsegment
    cases segment with
    | placeholder p => rfl
    | literal t =>
        rw [Segment.unmarked, id, Segment.literal.injEq, List.filter_eq_self]
        intro ch hch
        have hsign : .inl ch ∈ c.toTemplate.segments.flatMap Segment.signs :=
          List.mem_flatMap.2 ⟨_, hsegment, List.mem_map_of_mem hch⟩
        rw [h.signs_toTemplate] at hsign
        simpa using h.plain ch (mem_of_mem_signs hsign)
  rw [List.map_congr_left hsame, List.map_id]

theorem render_ofTemplate (render : α → Option Text → Except RenderError Text) {t : Template α}
    (h : ∀ p, .placeholder p ∈ t.segments → p.index < t.args.length) :
    (ofTemplate t).render render =
      Template.renderSegments render t.args (t.segments.map Segment.unmarked) := by
  rw [(Shows.ofTemplate t).render_eq, Segment.concatM_ofSign render h]

-- A template and its text with objects show the same, but for marker characters that stood in
-- its literals. A text with objects and its template show the same, if its formats can be
-- written, whatever its alignments are.
theorem renders_as_converted (render : α → Option Text → Except RenderError Text) :
    (∀ t : Template α, t.Made →
      (ofTemplate t).render render =
        ({ t with segments := t.segments.map Segment.unmarked } : Template α).render render) ∧
    ∀ c : Compound α, c.Reachable →
      (∀ i ∈ c.contents, ∀ f ∈ i.format, ∀ ch ∈ f, ch ≠ '{' ∧ ch ≠ '}' ∧ ch ≠ '\n') →
      c.toTemplate.render render = c.render render := by
  refine ⟨fun t ht => render_ofTemplate render ht.index_lt, fun c hc hformat => ?_⟩
  obtain ⟨cells, hshows⟩ := hc.exists_shows
  have hindex := (Template.Made.written c).index_lt
  calc c.toTemplate.render render
      = Template.renderSegments render c.toTemplate.args
          (c.toTemplate.segments.map Segment.unmarked) := by
        rw [hshows.unmarked_toTemplate, Template.render]
    _ = (ofTemplate c.toTemplate).render render := (render_ofTemplate render hindex).symm
    _ = c.limited.render render := by rw [hshows.ofTemplate_toTemplate]
    _ = c.render render := hshows.render_limited render hformat

-- Markers and braces in literals and in what an argument is rendered to, and the least alignment
-- of 32 bits
theorem renders_as_converted_marked :
    let render (n : Nat) (_ : Option Text) : Except RenderError Text :=
      .ok (marker :: '\x7b' :: Numeral.ofNat n)
    let format : Text := [marker, 'a'] ++ "\x7b0,4\x7d".toList ++ [marker]
    let c : Compound Nat := ⟨['\x7b', marker], [⟨7, some (-2147483648), some ['X']⟩]⟩
    (∃ t, Template.ofFormat format [7] = .ok t ∧
      (ofTemplate t).render render = .ok ['a', ' ', marker, '\x7b', '7']) ∧
    c.Reachable ∧ (∀ i ∈ c.contents, ∀ f ∈ i.format, ∀ ch ∈ f, ch ≠ '{' ∧ ch ≠ '}' ∧ ch ≠ '\n') ∧
      c.toTemplate.render render =
        .ok (['\x7b', marker, '\x7b', '7'] ++ List.replicate 997 ' ') := by
  intro render format c
  obtain ⟨htemplate, hcompound⟩ := renders_as_converted render
  have ht : Template.ofFormat format [7] = .ok ⟨format, [7],
      [.literal [marker, 'a'], .placeholder ⟨0, some 4, none⟩, .literal [marker]]⟩ := by
    decide +kernel
  have hc : c.Reachable :=
    .edit (.edit .empty (.pushText ['\x7b'])) (.pushContent ⟨7, some (-2147483648), some ['X']⟩)
  have hformat : ∀ i ∈ c.contents, ∀ f ∈ i.format, ∀ ch ∈ f, ch ≠ '{' ∧ ch ≠ '}' ∧ ch ≠ '\n' := by
    intro i hi f hf ch hch
    obtain rfl := List.mem_singleton.1 hi
    obtain rfl := Option.some.inj hf
    obtain rfl := List.mem_singleton.1 hch
    decide
  refine ⟨⟨_, ht, (htemplate _ (.built (.format ht))).trans (by decide +kernel)⟩, hc, hformat, ?_⟩
  exact (hcompound c hc hformat).trans (by decide +kernel)

end Compound

end Narrative
