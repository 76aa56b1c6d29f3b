import Narrative.Proofs.Template.Grammar
import Narrative.Proofs.Text.Merging

namespace Narrative

-- What is shown in one place: a character, or the argument of a placeholder
def Item.sign : Item → Char ⊕ Placeholder
  | char c => .inl c
  | brace b => .inl b.char
  | hole h => .inr h.placeholder

namespace Segment

def signs : Segment → List (Char ⊕ Placeholder)
  | literal t => t.map .inl
  | placeholder p => [.inr p]

def text? : Segment → Option Text
  | literal t => some t
  | placeholder _ => none

def placeholder? : Segment → Option Placeholder
  | literal _ => none
  | placeholder p => some p

theorem signs_consChar (c : Char) (segments : List Segment) :
    (consChar c segments).flatMap signs = .inl c :: segments.flatMap signs := by
  unfold consChar
  split <;> rfl

theorem merged_consChar (c : Char) {segments : List Segment} (h : Text.Merged text? segments) :
    Text.Merged text? (consChar c segments) := by
  unfold consChar
  split
  · exact h.extend rfl rfl
  · next hliteral =>
    apply h.cons_text rfl
    intro segment hhead
    cases segment with
    | literal t =>
        obtain ⟨rest, hrest⟩ := List.head?_eq_some_iff.1 hhead
        exact absurd hrest (hliteral t rest)
    | placeholder p => rfl

theorem signs_ofItems (items : List Item) :
    (ofItems items).flatMap signs = items.map Item.sign := by
  induction items with
  | nil => rfl
  | cons item items ih =>
      cases item with
      | char c => rw [ofItems, signs_consChar, ih]; rfl
      | brace b => rw [ofItems, signs_consChar, ih]; rfl
      | hole h => rw [ofItems, List.flatMap_cons, ih]; rfl

theorem merged_ofItems (items : List Item) : Text.Merged text? (ofItems items) := by
  induction items with
  | nil => exact .nil
  | cons item items ih =>
      cases item with
      | char c => exact merged_consChar c ih
      | brace b => exact merged_consChar b.char ih
      | hole h => exact ih.cons_other rfl

theorem filterMap_getRight?_signs (segments : List Segment) :
    (segments.flatMap signs).filterMap Sum.getRight? = segments.filterMap placeholder? := by
  induction segments with
  | nil => rfl
  | cons segment segments ih =>
      rw [List.flatMap_cons, List.filterMap_append, ih]
      cases segment with
      | literal t =>
          have hnone : (signs (literal t)).filterMap Sum.getRight? = [] := by
            rw [signs, List.filterMap_map]
            exact List.filterMap_none _
          rw [hnone]
          rfl
      | placeholder p => simp [signs, placeholder?]

-- Characters in front of what begins with none come apart from it.
theorem map_inl_append_inj {t u : Text} {x y : List (Char ⊕ Placeholder)}
    (hx : ∀ s ∈ x.head?, s.isRight = true) (hy : ∀ s ∈ y.head?, s.isRight = true)
    (h : t.map .inl ++ x = u.map .inl ++ y) : t = u ∧ x = y := by
  induction t generalizing u with
  | nil =>
      cases u with
      | nil => exact ⟨rfl, h⟩
      | cons d u =>
          have hfront : x = .inl d :: (u.map .inl ++ y) := h
          simp [hfront] at hx
  | cons c t ih =>
      cases u with
      | nil =>
          have hfront : .inl c :: (t.map .inl ++ x) = y := h
          simp [← hfront] at hy
      | cons d u =>
          obtain ⟨hhead, hrest⟩ := List.cons.inj h
          obtain ⟨rfl, rfl⟩ := ih hrest
          obtain rfl := Sum.inl.inj hhead
          exact ⟨rfl, rfl⟩

theorem head?_signs {t : Text} {segments : List Segment}
    (h : Text.Merged text? (literal t :: segments)) :
    ∀ s ∈ (segments.flatMap signs).head?, s.isRight = true := by
  have hhead := h.head?_tail rfl
  intro s hs
  cases segments with
  | nil => simp at hs
  | cons segment segments =>
      cases segment with
      | literal u => simp [text?] at hhead
      | placeholder p =>
          have hp : .inr p = s := by simpa [signs] using hs
          rw [← hp]
          rfl

theorem signs_ne_nil {segment : Segment} {segments : List Segment}
    (h : Text.Merged text? (segment :: segments)) : segment.signs ≠ [] := by
  have hnonempty := h.nonempty segment List.mem_cons_self
  cases segment with
  | literal t => simpa [text?, signs] using hnonempty
  | placeholder p => simp [signs]

-- Merged segments are told by what they show.
theorem eq_of_signs {a b : List Segment} (ha : Text.Merged text? a) (hb : Text.Merged text? b)
    (h : a.flatMap signs = b.flatMap signs) : a = b := by
  induction a generalizing b with
  | nil =>
      cases b with
      | nil => rfl
      | cons y b =>
          have hnil : y.signs = [] := by
            rw [List.flatMap_nil, List.flatMap_cons] at h
            exact (List.append_eq_nil_iff.1 h.symm).1
          exact absurd hnil (signs_ne_nil hb)
  | cons x a ih =>
      cases b with
      | nil =>
          have hnil : x.signs = [] := by
            rw [List.flatMap_nil, List.flatMap_cons] at h
            exact (List.append_eq_nil_iff.1 h).1
          exact absurd hnil (signs_ne_nil ha)
      | cons y b =>
          rw [List.flatMap_cons, List.flatMap_cons] at h
          cases x with
          | literal t =>
              cases y with
              | literal u =>
                  obtain ⟨rfl, hrest⟩ := map_inl_append_inj (head?_signs ha) (head?_signs hb) h
                  rw [ih ha.tail hb.tail hrest]
              | placeholder q =>
                  obtain ⟨c, t, rfl⟩ := List.exists_cons_of_ne_nil (by simpa [signs] using signs_ne_nil ha)
                  simp [signs] at h
          | placeholder p =>
              cases y with
              | literal u =>
                  obtain ⟨c, u, rfl⟩ := List.exists_cons_of_ne_nil (by simpa [signs] using signs_ne_nil hb)
                  simp [signs] at h
              | placeholder q =>
                  obtain ⟨hpq, hrest⟩ := List.cons.inj h
                  obtain rfl := Sum.inr.inj hpq
                  rw [ih ha.tail hb.tail hrest]

end Segment

namespace Template

variable {α : Type}

-- Format text as a row of items, each placeholder with an index below the count
structure Splits (count : Nat) (format : Text) (items : List Item) : Prop where
  print_eq : Item.print items = format
  written : ∀ item ∈ items, item.Written
  index_lt : ∀ h, .hole h ∈ items → h.placeholder.index < count

theorem mem_indices_iff {items : List Item} {index : Nat} :
    index ∈ Item.indices items ↔ ∃ h, .hole h ∈ items ∧ h.placeholder.index = index := by
  rw [Item.indices, List.mem_filterMap]
  constructor
  · rintro ⟨item, hmem, hindex⟩
    cases item with
    | hole h => exact ⟨h, hmem, Option.some.inj hindex⟩
    | _ => cases hindex
  · rintro ⟨h, hmem, rfl⟩
    exact ⟨.hole h, hmem, rfl⟩

theorem scan_eq_ok_iff_splits {count : Nat} {format : Text} {items : List Item} :
    scan format count = .ok items ↔ Splits count format items := by
  rw [scan_eq_ok_iff, Item.scan_eq_ok_iff]
  constructor
  · rintro ⟨⟨hprint, hwritten⟩, hindex⟩
    exact ⟨hprint, hwritten, fun h hmem => hindex _ (mem_indices_iff.2 ⟨h, hmem, rfl⟩)⟩
  · rintro ⟨hprint, hwritten, hindex⟩
    refine ⟨⟨hprint, hwritten⟩, fun index hmem => ?_⟩
    obtain ⟨h, hh, rfl⟩ := mem_indices_iff.1 hmem
    exact hindex h hh

theorem Splits.unique {count : Nat} {format : Text} {items others : List Item}
    (h : Splits count format items) (h' : Splits count format others) : items = others := by
  have hitems := scan_eq_ok_iff_splits.2 h
  rw [scan_eq_ok_iff_splits.2 h'] at hitems
  exact (Except.ok.inj hitems).symm

theorem ofFormat_eq_error_iff {format : Text} {args : List α} {e : FormatError} :
    ofFormat format args = .error e ↔ scan format args.length = .error e := by
  rw [ofFormat]
  cases scan format args.length <;> simp [Except.map]

theorem ofFormat_eq_ok_iff {format : Text} {args : List α} {t : Template α} :
    ofFormat format args = .ok t ↔
      ∃ items, Splits args.length format items ∧ t = ⟨format, args, Segment.ofItems items⟩ := by
  rw [ofFormat]
  cases hscan : scan format args.length with
  | error e =>
      simp only [Except.map, reduceCtorEq, false_iff, not_exists, not_and]
      intro items hsplits
      rw [scan_eq_ok_iff_splits.2 hsplits] at hscan
      cases hscan
  | ok items =>
      have hsplits := scan_eq_ok_iff_splits.1 hscan
      simp only [Except.map, Except.ok.injEq]
      constructor
      · rintro rfl
        exact ⟨items, hsplits, rfl⟩
      · rintro ⟨others, hothers, rfl⟩
        rw [hsplits.unique hothers]

-- A template is made of the texts that split into items, and shows what the items show, in
-- their order and with neighbouring characters in one literal.
theorem ofFormat_ok_iff_splits (format : Text) (args : List α) :
    ((∃ t, ofFormat format args = .ok t) ↔ ∃ items, Splits args.length format items) ∧
    (∀ items others, Splits args.length format items → Splits args.length format others →
      items = others) ∧
    ∀ t items, ofFormat format args = .ok t → Splits args.length format items →
      t.format = format ∧ t.args = args ∧
      t.segments.flatMap Segment.signs = items.map Item.sign ∧
      Text.Merged Segment.text? t.segments := by
  refine ⟨⟨?_, ?_⟩, fun _ _ => Splits.unique, ?_⟩
  · rintro ⟨t, ht⟩
    obtain ⟨items, hsplits, -⟩ := ofFormat_eq_ok_iff.1 ht
    exact ⟨items, hsplits⟩
  · rintro ⟨items, hsplits⟩
    exact ⟨_, ofFormat_eq_ok_iff.2 ⟨items, hsplits, rfl⟩⟩
  · intro t items ht hsplits
    obtain ⟨others, hothers, rfl⟩ := ofFormat_eq_ok_iff.1 ht
    obtain rfl := hsplits.unique hothers
    exact ⟨rfl, rfl, Segment.signs_ofItems items, Segment.merged_ofItems items⟩

-- Braces around a placeholder, a leading zero, blanks around an alignment and a colon in a format
theorem ofFormat_splits_braces :
    let format : Text := "\x7b\x7b\x7b0\x7d\x7d\x7d \x7b01, -7\t:a:b\x7d".toList
    ∃ t items, ofFormat format [10, 11] = .ok t ∧ Splits 2 format items ∧
      t.segments = [.literal ['{'], .placeholder ⟨0, none, none⟩, .literal ['}', ' '],
        .placeholder ⟨1, some (-7), some "a:b".toList⟩] ∧
      t.segments.flatMap Segment.signs = items.map Item.sign := by
  intro format
  have h : ofFormat format [10, 11] = .ok ⟨format, [10, 11],
      [.literal ['{'], .placeholder ⟨0, none, none⟩, .literal ['}', ' '],
        .placeholder ⟨1, some (-7), some "a:b".toList⟩]⟩ := by
    decide +kernel
  obtain ⟨hsplits, -, hshows⟩ := ofFormat_ok_iff_splits format [10, 11]
  obtain ⟨items, hitems⟩ := hsplits.1 ⟨_, h⟩
  exact ⟨_, items, h, hitems, rfl, (hshows _ items h hitems).2.2.1⟩

end Template

end Narrative
