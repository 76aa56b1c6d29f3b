import Narrative.Proofs.Template.Segments

namespace Narrative

namespace Item

-- A closing brace in front of a text that does not begin with another
def Unmatched (brace : Brace) (rest : Text) : Prop := brace = .closing ∧ rest.head? ≠ some '}'

-- An opening brace in front of a text that does not begin with another, and in which no closing
-- brace comes before the next opening one, the end of the line and the end of the text
def Unclosed (brace : Brace) (rest : Text) : Prop :=
  brace = .opening ∧ rest.head? ≠ some '{' ∧ '}' ∉ rest.takeWhile fun c => c ≠ '{' ∧ c ≠ '\n'

-- A brace in front of a text at which no item can be read, and the error that names it. The
-- offset is the one of the brace.
inductive Offends (offset : Nat) : Brace → Text → FormatError → Prop
  | unmatched {brace : Brace} {rest : Text} (h : Unmatched brace rest) :
      Offends offset brace rest (.unmatchedClose offset)
  | unclosed {brace : Brace} {rest : Text} (h : Unclosed brace rest) :
      Offends offset brace rest (.unclosed offset)
  | invalid {inner after : Text} (hsingle : ∀ c ∈ inner, c ≠ '{' ∧ c ≠ '}' ∧ c ≠ '\n')
      (hread : ∀ h : Hole, h.Written → h.inner ≠ inner) :
      Offends offset .opening (inner ++ '}' :: after) (.invalidPlaceholder ('{' :: inner ++ ['}']))

theorem Offends.shift {offset bytes : Nat} {brace : Brace} {rest : Text} {e : FormatError}
    (h : Offends offset brace rest e) : Offends (bytes + offset) brace rest (e.shift bytes) := by
  cases h with
  | unmatched h => exact .unmatched h
  | unclosed h => exact .unclosed h
  | invalid hsingle hread => exact .invalid hsingle hread

theorem closing?_cons {c : Char} (h : isDelimiter c = false) (t : Text) :
    closing? (c :: t) = (closing? t).map fun (inner, rest) => (c :: inner, rest) := by
  rw [closing?, closing?, List.dropWhile_cons_of_pos (by simp [h]),
    List.takeWhile_cons_of_pos (by simp [h])]
  split <;> rfl

-- A placeholder is closed by a brace on its line, in front of any that opens another.
theorem closing?_eq_none_iff {t : Text} :
    closing? t = none ↔ '}' ∉ t.takeWhile fun c => c ≠ '{' ∧ c ≠ '\n' := by
  induction t with
  | nil => simp [closing?]
  | cons c t ih =>
      cases h : isDelimiter c with
      | true =>
          simp only [isDelimiter, Bool.or_eq_true, beq_iff_eq, or_assoc] at h
          rcases h with rfl | rfl | rfl <;> simp [closing?, isDelimiter]
      | false =>
          obtain ⟨hopen, hclose, hnewline⟩ := isDelimiter_eq_false_iff.1 h
          rw [closing?_cons h, Option.map_eq_none_iff, ih,
            List.takeWhile_cons_of_pos (by simp [hopen, hnewline]), List.mem_cons, not_or]
          exact (and_iff_right (Ne.symm hclose)).symm

-- The error tells which kind of offence it names.
theorem Offends.eq_unmatchedClose_iff {offset : Nat} {brace : Brace} {rest : Text} {e : FormatError}
    (h : Offends offset brace rest e) : e = .unmatchedClose offset ↔ Unmatched brace rest := by
  cases h with
  | unmatched h => simp [h]
  | unclosed h =>
      obtain ⟨rfl, -⟩ := h
      simp [Unmatched]
  | invalid hsingle hread => simp [Unmatched]

theorem Offends.eq_unclosed_iff {offset : Nat} {brace : Brace} {rest : Text} {e : FormatError}
    (h : Offends offset brace rest e) : e = .unclosed offset ↔ Unclosed brace rest := by
  cases h with
  | unmatched h =>
      obtain ⟨rfl, -⟩ := h
      simp [Unclosed]
  | unclosed h => simp [h]
  | @invalid inner after hsingle hread =>
      have hclosing : closing? (inner ++ '}' :: after) = some (inner, after) :=
        closing?_eq_some_iff.2 ⟨rfl, fun c hc => isDelimiter_eq_false_iff.2 (hsingle c hc)⟩
      have hclosed : ¬ Unclosed .opening (inner ++ '}' :: after) := by
        rintro ⟨-, -, hnone⟩
        rw [closing?_eq_none_iff.2 hnone] at hclosing
        cases hclosing
      simp [hclosed]

theorem Offends.exists_inner {offset : Nat} {brace : Brace} {rest : Text} {e : FormatError}
    (h : Offends offset brace rest e) (hmatched : ¬ Unmatched brace rest)
    (hclosed : ¬ Unclosed brace rest) :
    brace = .opening ∧ ∃ inner after, rest = inner ++ '}' :: after ∧
      (∀ c ∈ inner, c ≠ '{' ∧ c ≠ '}' ∧ c ≠ '\n') ∧
      (∀ hole : Hole, hole.Written → hole.inner ≠ inner) ∧
      e = .invalidPlaceholder ('{' :: inner ++ ['}']) := by
  cases h with
  | unmatched h => exact absurd h hmatched
  | unclosed h => exact absurd h hclosed
  | @invalid inner after hsingle hread => exact ⟨rfl, inner, after, rfl, hsingle, hread, rfl⟩

-- Where no item can be read there is a brace.
theorem offends_of_first {c : Char} {t : Text} {e : FormatError} (h : first c t = .error e) :
    ∃ brace : Brace, brace.char = c ∧ Offends 0 brace t e := by
  unfold first at h
  split at h
  · next hc =>
    refine ⟨.opening, hc.symm, ?_⟩
    split at h
    · cases h
    · next hsingle =>
      have hhead : t.head? ≠ some '{' := by
        intro hhead
        obtain ⟨rest, rfl⟩ := List.head?_eq_some_iff.1 hhead
        exact hsingle rest rfl
      split at h
      · next hnone =>
        cases h
        exact .unclosed ⟨rfl, hhead, closing?_eq_none_iff.1 hnone⟩
      · next inner rest hclosing =>
        obtain ⟨rfl, hinner⟩ := closing?_eq_some_iff.1 hclosing
        split at h
        · next hread =>
          cases h
          refine .invalid (fun c hmem => isDelimiter_eq_false_iff.1 (hinner c hmem)) ?_
          rintro hole hwritten he
          rw [(Hole.ofText?_eq_some_iff hinner).2 ⟨he, hwritten⟩] at hread
          cases hread
        · cases h
  · split at h
    · next hc =>
      refine ⟨.closing, hc.symm, ?_⟩
      split at h
      · cases h
      · next hsingle =>
        cases h
        refine .unmatched ⟨rfl, ?_⟩
        intro hhead
        obtain ⟨rest, rfl⟩ := List.head?_eq_some_iff.1 hhead
        exact hsingle rest rfl
    · cases h

-- A text is scanned up to the brace that is its first offence.
theorem offends_of_scan {t : Text} {e : FormatError} (h : scan t = .error e) :
    ∃ front brace rest, t = front ++ Brace.char brace :: rest ∧ (∃ items, scan front = .ok items) ∧
      Offends (Text.byteSize front) brace rest e := by
  fun_induction scan t generalizing e with
  | case1 => cases h
  | case2 c t error hfirst =>
      cases h
      obtain ⟨brace, rfl, hoffends⟩ := offends_of_first hfirst
      exact ⟨[], brace, t, rfl, ⟨[], by rw [scan]⟩, hoffends⟩
  | case3 c t item rest hfirst ih =>
      cases hrest : scan rest with
      | ok items =>
          rw [hrest] at h
          cases h
      | error error =>
          rw [hrest] at h
          cases h
          obtain ⟨front, brace, after, rfl, ⟨items, hfront⟩, hoffends⟩ := ih hrest
          have hprint := text_append_of_first hfirst
          refine ⟨item.text ++ front, brace, after, by rw [← hprint, List.append_assoc],
            ⟨item :: items, ?_⟩, ?_⟩
          · have hitem : scan item.text = .ok [item] := by
              have hwritten : ∀ other ∈ [item], other.Written := by simpa using written_of_first hfirst
              exact scan_eq_ok_iff.2 ⟨List.flatMap_singleton _ item, hwritten⟩
            rw [scan_append hitem, hfront]
            rfl
          · rw [Text.byteSize_append]
            exact hoffends.shift

end Item

namespace Template

variable {α : Type}

-- The index that no argument has is the one of the leftmost placeholder of that kind.
theorem exists_hole_of_checkIndices {count : Nat} {items : List Item} {e : FormatError}
    (h : checkIndices count items = .error e) :
    ∃ front hole back, items = front ++ .hole hole :: back ∧ count ≤ hole.placeholder.index ∧
      (∀ index ∈ Item.indices front, index < count) ∧
      e = .indexOutOfRange hole.placeholder.index count := by
  unfold checkIndices at h
  split at h
  · next index hfind =>
    cases h
    obtain ⟨hle, before, after, hindices, hbefore⟩ := List.find?_eq_some_iff_append.1 hfind
    obtain ⟨front, others, rfl, hfront, hothers⟩ := List.filterMap_eq_append_iff.1 hindices
    obtain ⟨between, item, back, rfl, hbetween, hitem, -⟩ := List.filterMap_eq_cons_iff.1 hothers
    cases item with
    | hole hole =>
        obtain rfl := Option.some.inj hitem
        refine ⟨front ++ between, hole, back, (List.append_assoc ..).symm, by simpa using hle, ?_, rfl⟩
        intro index hmem
        rw [Item.indices, List.filterMap_append, List.filterMap_eq_nil_iff.2 hbetween, hfront,
          List.append_nil] at hmem
        simpa using hbefore index hmem
    | char c => cases hitem
    | brace b => cases hitem
  · cases h

-- A text that makes no template is refused for its first offence. Where it does not scan, that
-- is a brace behind a text that does, and the error tells its place or the placeholder that
-- could not be read. Otherwise it is the leftmost index that no argument has.
theorem ofFormat_names_first_offence {format : Text} {args : List α} {e : FormatError}
    (h : ofFormat format args = .error e) :
    (Item.scan format = .error e ∧
      ∃ front brace rest, format = front ++ Brace.char brace :: rest ∧
        (∃ items, Item.scan front = .ok items) ∧
        (e = .unmatchedClose (Text.byteSize front) ↔ Item.Unmatched brace rest) ∧
        (e = .unclosed (Text.byteSize front) ↔ Item.Unclosed brace rest) ∧
        (¬ Item.Unmatched brace rest → ¬ Item.Unclosed brace rest →
          brace = .opening ∧ ∃ inner after, rest = inner ++ '}' :: after ∧
            (∀ c ∈ inner, c ≠ '{' ∧ c ≠ '}' ∧ c ≠ '\n') ∧
            (∀ hole : Hole, hole.Written → hole.inner ≠ inner) ∧
            e = .invalidPlaceholder ('{' :: inner ++ ['}']))) ∨
      ∃ front hole back, Item.scan format = .ok (front ++ .hole hole :: back) ∧
        args.length ≤ hole.placeholder.index ∧
        (∀ index ∈ Item.indices front, index < args.length) ∧
        e = .indexOutOfRange hole.placeholder.index args.length := by
  rw [ofFormat_eq_error_iff, scan] at h
  cases hscan : Item.scan format with
  | ok items =>
      rw [hscan] at h
      obtain ⟨front, hole, back, rfl, hindex⟩ := exists_hole_of_checkIndices h
      exact .inr ⟨front, hole, back, rfl, hindex⟩
  | error error =>
      rw [hscan] at h
      cases h
      obtain ⟨front, brace, rest, rfl, hfront, hoffends⟩ := Item.offends_of_scan hscan
      exact .inl ⟨rfl, front, brace, rest, rfl, hfront, hoffends.eq_unmatchedClose_iff,
        hoffends.eq_unclosed_iff, hoffends.exists_inner⟩

-- A placeholder that the line ends in, behind a character of two bytes and a brace, and one that
-- asks for too much behind one that does not
theorem ofFormat_names_first_offence_wide :
    let broken : Text := "é\x7b\x7b\x7b0,1\n\x7d".toList
    let greedy : Text := "\x7b00\x7d\x7b2\x7d\x7b1\x7d".toList
    (ofFormat broken [7] = .error (.unclosed 4) ∧
      ∃ front brace rest, broken = front ++ Brace.char brace :: rest ∧
        (∃ items, Item.scan front = .ok items) ∧
        (FormatError.unclosed 4 = .unclosed (Text.byteSize front) ↔ Item.Unclosed brace rest)) ∧
    ofFormat greedy [7] = .error (.indexOutOfRange 2 1) ∧
      ∃ front hole back, Item.scan greedy = .ok (front ++ .hole hole :: back) ∧
        (∀ index ∈ Item.indices front, index < 1) ∧ hole.placeholder.index = 2 := by
  intro broken greedy
  have hbroken : ofFormat broken [7] = .error (.unclosed 4) := by decide +kernel
  have hgreedy : ofFormat greedy [7] = .error (.indexOutOfRange 2 1) := by decide +kernel
  refine ⟨⟨hbroken, ?_⟩, hgreedy, ?_⟩
  · rcases ofFormat_names_first_offence hbroken with
      ⟨-, front, brace, rest, hformat, hfront, -, hunclosed, -⟩ | ⟨_, _, _, -, -, -, he⟩
    · exact ⟨front, brace, rest, hformat, hfront, hunclosed⟩
    · cases he
  · rcases ofFormat_names_first_offence hgreedy with
      ⟨hscan, -⟩ | ⟨front, hole, back, hscan, -, hfront, he⟩
    · exact absurd hscan (by decide +kernel)
    · exact ⟨front, hole, back, hscan, hfront, (FormatError.indexOutOfRange.inj he).1.symm⟩

end Template

end Narrative
