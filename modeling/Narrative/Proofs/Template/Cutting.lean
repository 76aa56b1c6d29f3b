import Mathlib.Data.List.Perm.Subperm
import Narrative.Proofs.Template.Ordering
import Narrative.Proofs.Template.Segments
import Narrative.Proofs.Text.Trimming

namespace Narrative

namespace Item

theorem Written.eq_char_of_newline {item : Item} (h : item.Written) (hmem : '\n' ∈ item.text) :
    item = .char '\n' := by
  cases h with
  | char hopen hclose =>
      rw [List.mem_singleton.1 hmem]
  | brace b =>
      cases b <;> simp [text, Brace.char] at hmem
  | @hole h hwritten =>
      have hinner : '\n' ∈ h.inner := by simpa [text] using hmem
      exact absurd (hwritten.isDelimiter_of_mem_inner _ hinner) (by decide)

-- Braces and placeholders begin and end with a brace.
theorem Written.eq_char_of_head {item : Item} (h : item.Written) {c : Char} {t : Text}
    (htext : item.text = c :: t) (hopen : c ≠ '{') (hclose : c ≠ '}') : item = .char c ∧ t = [] := by
  cases h with
  | char =>
      obtain ⟨rfl, rfl⟩ := List.cons.inj htext
      exact ⟨rfl, rfl⟩
  | brace b =>
      cases b with
      | opening => exact absurd (List.cons.inj htext).1.symm hopen
      | closing => exact absurd (List.cons.inj htext).1.symm hclose
  | hole => exact absurd (List.cons.inj htext).1.symm hopen

theorem Written.eq_char_of_getLast {item : Item} (h : item.Written) {c : Char} {t : Text}
    (htext : item.text = t ++ [c]) (hopen : c ≠ '{') (hclose : c ≠ '}') : item = .char c ∧ t = [] := by
  have hlast : item.text.getLast? = some c := by rw [htext, List.getLast?_concat]
  cases h with
  | char =>
      obtain rfl := Option.some.inj hlast
      exact ⟨rfl, (List.append_left_inj [_]).1 htext.symm⟩
  | brace b =>
      cases b with
      | opening => exact absurd (Option.some.inj hlast).symm hopen
      | closing => exact absurd (Option.some.inj hlast).symm hclose
  | hole =>
      rw [text, List.getLast?_concat] at hlast
      exact absurd (Option.some.inj hlast).symm hclose

theorem print_append (items more : List Item) : print (items ++ more) = print items ++ print more :=
  List.flatMap_append

-- A line break stands between items, never inside one.
theorem print_eq_append_newline {items : List Item} (h : ∀ item ∈ items, item.Written) {a b : Text}
    (hprint : print items = a ++ '\n' :: b) :
    ∃ front back, items = front ++ .char '\n' :: back ∧ print front = a ∧ print back = b := by
  induction items generalizing a with
  | nil => cases a <;> cases hprint
  | cons item items ih =>
      have hitem := h item List.mem_cons_self
      rw [print_cons] at hprint
      rcases List.append_eq_append_iff.1 hprint with ⟨x, rfl, hrest⟩ | ⟨x, htext, hrest⟩
      · obtain ⟨front, back, rfl, rfl, hback⟩ :=
          ih (fun other hmem => h other (List.mem_cons_of_mem _ hmem)) hrest
        exact ⟨item :: front, back, rfl, rfl, hback⟩
      · cases x with
        | nil =>
            obtain ⟨front, back, rfl, hfront, hback⟩ :=
              ih (fun other hmem => h other (List.mem_cons_of_mem _ hmem)) (a := []) hrest.symm
            refine ⟨item :: front, back, rfl, ?_, hback⟩
            rw [print_cons, hfront, htext, List.append_nil, List.append_nil]
        | cons c x =>
            obtain ⟨rfl, rfl⟩ := List.cons.inj hrest
            obtain rfl := hitem.eq_char_of_newline (by rw [htext]; simp)
            -- the item is the line break itself, so that nothing stands around it
            obtain ⟨rfl, rfl⟩ : a = [] ∧ x = [] := by
              cases a with
              | nil => exact ⟨rfl, (List.cons.inj htext).2.symm⟩
              | cons d a => simp [text] at htext
            exact ⟨[], items, rfl, rfl, rfl⟩

end Item

theorem ne_brace_of_isBlank {c : Char} (h : isBlank c = true) : c ≠ '{' ∧ c ≠ '}' := by
  constructor <;> rintro rfl <;> exact absurd h (by decide)

namespace Template

variable {α : Type} {count : Nat}

theorem scans_iff_exists_splits {t : Text} : Scans count t ↔ ∃ items, Splits count t items :=
  exists_congr fun _ => scan_eq_ok_iff_splits

theorem Splits.scans_print {t : Text} {items part : List Item} (h : Splits count t items)
    (hpart : part ⊆ items) : Scans count (Item.print part) :=
  scans_iff_exists_splits.2 ⟨part, rfl, fun item hmem => h.written item (hpart hmem),
    fun hole hmem => h.index_lt hole (hpart hmem)⟩

theorem Splits.append {a b : Text} {items more : List Item} (ha : Splits count a items)
    (hb : Splits count b more) : Splits count (a ++ b) (items ++ more) where
  print_eq := by rw [Item.print_append, ha.print_eq, hb.print_eq]
  written := by
    intro item hmem
    exact (List.mem_append.1 hmem).elim (ha.written item) (hb.written item)
  index_lt := by
    intro hole hmem
    exact (List.mem_append.1 hmem).elim (ha.index_lt hole) (hb.index_lt hole)

theorem splits_singleton {item : Item} (h : item.Written) (hindex : item.index? = none) :
    Splits count item.text [item] where
  print_eq := List.flatMap_singleton _ item
  written := by simpa using h
  index_lt := by
    intro hole hmem
    rw [← List.mem_singleton.1 hmem] at hindex
    cases hindex

-- Escaped text has an item for each of its characters.
theorem exists_splits_escape (t : Text) :
    ∃ items, Splits count (escape t) items ∧ items.map Item.sign = t.map .inl := by
  induction t with
  | nil => exact ⟨[], ⟨rfl, by simp, by simp⟩, rfl⟩
  | cons c t ih =>
      obtain ⟨items, hitems, hsigns⟩ := ih
      obtain ⟨item, hitem, htext, hsign⟩ : ∃ item, Splits count (Item.text item) [item] ∧
          Item.text item = (if c = '{' ∨ c = '}' then [c, c] else [c]) ∧ item.sign = .inl c := by
        split
        · next hbrace =>
          rcases hbrace with rfl | rfl
          · exact ⟨.brace .opening, splits_singleton (.brace .opening) rfl, rfl, rfl⟩
          · exact ⟨.brace .closing, splits_singleton (.brace .closing) rfl, rfl, rfl⟩
        · next hplain =>
          rw [not_or] at hplain
          exact ⟨.char c, splits_singleton (.char hplain.1 hplain.2) rfl, rfl, rfl⟩
      refine ⟨item :: items, ?_, by rw [List.map_cons, List.map_cons, hsign, hsigns]⟩
      rw [escape, List.flatMap_cons, ← htext]
      exact hitem.append hitems

-- A text that is cut at a line break is cut between two items.
theorem Splits.cut {a b : Text} {items : List Item}
    (h : Splits count (a ++ '\n' :: b) items) :
    ∃ front back, items = front ++ .char '\n' :: back ∧ Splits count a front ∧ Splits count b back := by
  obtain ⟨front, back, rfl, hfront, hback⟩ := Item.print_eq_append_newline h.written h.print_eq
  refine ⟨front, back, rfl, ⟨hfront, ?_, ?_⟩, ⟨hback, ?_, ?_⟩⟩
  · exact fun item hmem => h.written item (List.mem_append_left _ hmem)
  · exact fun hole hmem => h.index_lt hole (List.mem_append_left _ hmem)
  · exact fun item hmem => h.written item (by simp [hmem])
  · exact fun hole hmem => h.index_lt hole (by simp [hmem])

namespace Scans

theorem tail {c : Char} {t : Text} (h : Scans count (c :: t)) (hopen : c ≠ '{') (hclose : c ≠ '}') :
    Scans count t := by
  obtain ⟨items, hitems⟩ := scans_iff_exists_splits.1 h
  obtain ⟨item, rest, rfl⟩ : ∃ item rest, items = item :: rest := by
    cases items with
    | nil => cases hitems.print_eq
    | cons item rest => exact ⟨item, rest, rfl⟩
  obtain ⟨d, u, htext⟩ := List.exists_cons_of_ne_nil item.text_ne_nil
  have hprint := hitems.print_eq
  rw [Item.print_cons, htext] at hprint
  obtain ⟨rfl, hrest⟩ := List.cons.inj hprint
  obtain ⟨-, rfl⟩ := (hitems.written item List.mem_cons_self).eq_char_of_head htext hopen hclose
  rw [← hrest]
  exact hitems.scans_print (List.subset_cons_self _ _)

theorem front {c : Char} {t : Text} (h : Scans count (t ++ [c])) (hopen : c ≠ '{') (hclose : c ≠ '}') :
    Scans count t := by
  obtain ⟨items, hitems⟩ := scans_iff_exists_splits.1 h
  rcases List.eq_nil_or_concat' items with rfl | ⟨rest, item, rfl⟩
  · cases t <;> cases hitems.print_eq
  obtain ⟨u, d, htext⟩ := (List.eq_nil_or_concat' item.text).resolve_left item.text_ne_nil
  have hprint : Item.print rest ++ (u ++ [d]) = t ++ [c] := by
    rw [← hitems.print_eq, Item.print_append, ← htext, Item.print, Item.print, List.flatMap_singleton]
  rw [← List.append_assoc, List.append_singleton_inj] at hprint
  obtain ⟨rfl, rfl⟩ := hprint
  obtain ⟨-, rfl⟩ := (hitems.written item (by simp)).eq_char_of_getLast htext hopen hclose
  rw [List.append_nil]
  exact hitems.scans_print (List.subset_append_left _ _)

theorem of_intercalate {parts : List Text} (h : Scans count (List.intercalate ['\n'] parts)) :
    ∀ part ∈ parts, Scans count part := by
  induction parts with
  | nil => simp
  | cons part parts ih =>
      cases parts with
      | nil =>
          rw [List.intercalate_singleton] at h
          simpa using h
      | cons next parts =>
          rw [List.intercalate_cons_cons, List.append_assoc, List.singleton_append] at h
          obtain ⟨items, hitems⟩ := scans_iff_exists_splits.1 h
          obtain ⟨front, back, -, hfront, hback⟩ := hitems.cut
          have hrest := ih (scans_iff_exists_splits.2 ⟨back, hback⟩)
          rw [List.forall_mem_cons]
          exact ⟨scans_iff_exists_splits.2 ⟨front, hfront⟩, hrest⟩

theorem lines {t : Text} (h : Scans count t) : ∀ line ∈ Text.lines t, Scans count line := by
  apply of_intercalate
  rwa [Text.intercalate_lines]

theorem trimStart {t : Text} (h : Scans count t) : Scans count (Text.trimStart t) := by
  induction t with
  | nil => exact h
  | cons c t ih =>
      rw [Text.trimStart, List.dropWhile_cons]
      split
      · next hblank =>
        obtain ⟨hopen, hclose⟩ := ne_brace_of_isBlank hblank
        exact ih (h.tail hopen hclose)
      · exact h

theorem trimEnd {t : Text} (h : Scans count t) : Scans count (Text.trimEnd t) := by
  induction t using List.reverseRecOn with
  | nil => exact h
  | append_singleton t c ih =>
      rw [Text.trimEnd, Text.dropEndWhile_append_singleton]
      split
      · next hblank =>
        obtain ⟨hopen, hclose⟩ := ne_brace_of_isBlank hblank
        exact ih (h.front hopen hclose)
      · exact h

theorem trim {t : Text} (h : Scans count t) : Scans count (Text.trim t) := h.trimStart.trimEnd

theorem escape (t : Text) : Scans count (Template.escape t) := by
  obtain ⟨items, hitems, -⟩ := exists_splits_escape t
  exact scans_iff_exists_splits.2 ⟨items, hitems⟩

end Scans

-- The templates that a story can be read from
inductive Built : Template α → Prop
  | format {format : Text} {args : List α} {t : Template α} (h : ofFormat format args = .ok t) : Built t
  | source {source : Text} {args : List α} {t : Template α} (h : ofSource source args = .ok t) : Built t
  | text (t : Text) : Built (ofText t)

theorem Built.scans {t : Template α} (h : t.Built) : Scans t.args.length t.format := by
  have hformat : ∀ {format : Text} {args : List α}, ofFormat format args = .ok t →
      Scans t.args.length t.format := by
    intro format args he
    obtain ⟨items, hitems, rfl⟩ := ofFormat_eq_ok_iff.1 he
    exact scans_iff_exists_splits.2 ⟨items, hitems⟩
  cases h with
  | format he => exact hformat he
  | source he => exact hformat he
  | text t => exact .escape t

section Compacting

variable {t : Text} {items : List Item}

theorem Splits.lt_of_mem_firstOccurrences (h : Splits count t items) {index : Nat}
    (hmem : index ∈ firstOccurrences items) : index < count ∧ index < Nat.pow 2 64 := by
  obtain ⟨hole, hhole, rfl⟩ := mem_indices_iff.1 (List.mem_eraseDups.1 hmem)
  cases h.written _ hhole with
  | hole hwritten => exact ⟨h.index_lt hole hhole, hwritten.index_lt⟩

-- There are no more indices in a line than there are numbers to write them by.
theorem Splits.length_firstOccurrences_le (h : Splits count t items) :
    (firstOccurrences items).length ≤ Nat.pow 2 64 := by
  have hsubset : firstOccurrences items ⊆ List.range (Nat.pow 2 64) := fun index hmem =>
    List.mem_range.2 (h.lt_of_mem_firstOccurrences hmem).2
  have hle := (List.subperm_of_subset (orderedByFirst_eraseDups _).nodup hsubset).length_le
  rwa [List.length_range] at hle

theorem idxOf_lt_length_firstOccurrences {hole : Hole} (hmem : .hole hole ∈ items) :
    (firstOccurrences items).idxOf hole.placeholder.index < (firstOccurrences items).length :=
  List.idxOf_lt_length_iff.2 (List.mem_eraseDups.2 (mem_indices_iff.2 ⟨hole, hmem, rfl⟩))

theorem Splits.written_renumber (h : Splits count t items) {item : Item} (hmem : item ∈ items) :
    (renumber (firstOccurrences items) item).Written := by
  have hwritten := h.written item hmem
  cases item with
  | char c => exact hwritten
  | brace b => exact hwritten
  | hole hole =>
      cases hwritten with
      | hole hwritten =>
          have hlt := idxOf_lt_length_firstOccurrences hmem
          exact .hole (hwritten.withIndex (Nat.lt_of_lt_of_le hlt h.length_firstOccurrences_le))

theorem Splits.length_filterMap_firstOccurrences {args : List α} (h : Splits args.length t items) :
    ((firstOccurrences items).filterMap (args[·]?)).length = (firstOccurrences items).length := by
  rw [List.filterMap_length_eq_length]
  intro index hmem
  simpa using (h.lt_of_mem_firstOccurrences hmem).1

-- Items with new numbers are the items of their text.
theorem Splits.renumber (h : Splits count t items) :
    Splits (firstOccurrences items).length
      (Item.print (items.map (Template.renumber (firstOccurrences items))))
      (items.map (Template.renumber (firstOccurrences items))) where
  print_eq := rfl
  written := by
    intro item hmem
    obtain ⟨old, hold, rfl⟩ := List.mem_map.1 hmem
    exact h.written_renumber hold
  index_lt := by
    intro hole hmem
    obtain ⟨old, hold, he⟩ := List.mem_map.1 hmem
    cases old with
    | char c => cases he
    | brace b => cases he
    | hole old =>
        cases he
        exact idxOf_lt_length_firstOccurrences hold

-- The template for a line of these items
def compaction (document : Template α) (items : List Item) : Template α :=
  let order := firstOccurrences items
  let compacted := items.map (renumber order)
  ⟨Item.print compacted, order.filterMap (document.args[·]?), Segment.ofItems compacted⟩

theorem compactLine_eq_ok_iff {document compacted : Template α} :
    document.compactLine t = .ok compacted ↔
      ∃ items, Splits document.args.length t items ∧ compacted = document.compaction items := by
  have hmap : document.compactLine t = (scan t document.args.length).map document.compaction := rfl
  simp only [hmap, ← scan_eq_ok_iff_splits]
  cases scan t document.args.length with
  | error e => simp [Except.map]
  | ok items => simp [Except.map, eq_comm]

theorem ofFormat_of_compactLine {document compacted : Template α} (h : document.compactLine t = .ok compacted) :
    ofFormat compacted.format compacted.args = .ok compacted := by
  obtain ⟨items, hitems, rfl⟩ := compactLine_eq_ok_iff.1 h
  refine ofFormat_eq_ok_iff.2 ⟨_, ?_, rfl⟩
  rw [compaction, hitems.length_filterMap_firstOccurrences]
  exact hitems.renumber

-- A line that scans is made into a template, and the text of that template scans again.
theorem Scans.compactLine {document : Template α} (h : Scans document.args.length t) :
    ∃ compacted, document.compactLine t = .ok compacted ∧
      ofFormat compacted.format compacted.args = .ok compacted := by
  obtain ⟨items, hitems⟩ := scans_iff_exists_splits.1 h
  have hcompacted := compactLine_eq_ok_iff.2 ⟨items, hitems, rfl⟩
  exact ⟨_, hcompacted, ofFormat_of_compactLine hcompacted⟩

end Compacting

end Template

end Narrative
