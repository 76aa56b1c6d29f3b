import Narrative.Template.Compact

namespace Narrative

namespace FormatError

theorem shift_zero (e : FormatError) : e.shift 0 = e := by
  cases e with
  | unclosed offset => rw [shift, Nat.zero_add]
  | unmatchedClose offset => rw [shift, Nat.zero_add]
  | invalidPlaceholder t => rfl
  | indexOutOfRange index count => rfl

theorem shift_shift (e : FormatError) (a b : Nat) : (e.shift a).shift b = e.shift (b + a) := by
  cases e with
  | unclosed offset => simp only [shift, Nat.add_assoc]
  | unmatchedClose offset => simp only [shift, Nat.add_assoc]
  | invalidPlaceholder t => rfl
  | indexOutOfRange index count => rfl

end FormatError

namespace Item

theorem closing?_append {t inner rest : Text} (h : closing? t = some (inner, rest)) (more : Text) :
    closing? (t ++ more) = some (inner, rest ++ more) := by
  have ht := eq_of_closing? h
  have hinner : ∀ c ∈ inner, (!isDelimiter c) = true := by
    simp only [closing?] at h
    split at h
    · obtain ⟨rfl, -⟩ := Prod.mk.inj (Option.some.inj h)
      exact List.all_eq_true.1 List.all_takeWhile
    · cases h
  have hbrace : (!isDelimiter '}') = false := rfl
  subst ht
  rw [closing?, List.append_assoc, List.cons_append, List.dropWhile_append_of_pos hinner,
    List.takeWhile_append_of_pos hinner, List.dropWhile_cons_of_neg (by simp [hbrace]),
    List.takeWhile_cons_of_neg (by simp [hbrace]), List.append_nil]
  rfl

-- An item is told by what it is read from, whatever follows.
theorem first_append {c : Char} {t rest : Text} {item : Item} (h : first c t = .ok (item, rest))
    (more : Text) : first c (t ++ more) = .ok (item, rest ++ more) := by
  unfold first at h ⊢
  by_cases hopen : c = '{'
  · rw [if_pos hopen] at h ⊢
    split at h
    · cases h
      rfl
    · next hsingle =>
      cases hclosing : closing? t with
      | none =>
          rw [hclosing] at h
          cases h
      | some parts =>
          obtain ⟨inner, after⟩ := parts
          rw [hclosing] at h
          -- the closing brace stands in the text, so that it does not begin with the rest
          have hnot : ∀ r, t ++ more ≠ '{' :: r := by
            intro r he
            cases t with
            | nil => cases hclosing
            | cons d t => exact hsingle t (by rw [(List.cons.inj he).1])
          have happend := closing?_append hclosing more
          split
          · next r he => exact absurd he (hnot r)
          · rw [happend]
            dsimp only at h ⊢
            split at h
            · cases h
            · cases h
              rfl
  · rw [if_neg hopen] at h ⊢
    by_cases hclose : c = '}'
    · rw [if_pos hclose] at h ⊢
      split at h
      · cases h
        rfl
      · cases h
    · rw [if_neg hclose] at h ⊢
      cases h
      rfl

theorem scan_cons {c : Char} {t rest : Text} {item : Item} (h : first c t = .ok (item, rest)) :
    scan (c :: t) = before item (scan rest) := by
  rw [scan]
  split
  · next he => rw [h] at he; cases he
  · next he => rw [h] at he; cases he; rfl

theorem print_cons (item : Item) (items : List Item) : print (item :: items) = item.text ++ print items :=
  List.flatMap_cons

theorem foldr_before_ok (items more : List Item) :
    items.foldr before (.ok more) = .ok (items ++ more) := by
  induction items with
  | nil => rfl
  | cons item items ih => rw [List.foldr_cons, ih]; rfl

theorem foldr_before_error (items : List Item) (e : FormatError) :
    items.foldr before (.error e) = .error (e.shift (Text.byteSize (print items))) := by
  induction items with
  | nil => exact congrArg Except.error e.shift_zero.symm
  | cons item items ih =>
      rw [List.foldr_cons, ih, before, e.shift_shift, print_cons, Text.byteSize_append]

-- What stands behind a text that was scanned is scanned by itself, whatever it is.
theorem scan_append {a : Text} {items : List Item} (ha : scan a = .ok items) (b : Text) :
    scan (a ++ b) = items.foldr before (scan b) := by
  fun_induction scan a generalizing items with
  | case1 =>
      cases ha
      rfl
  | case2 c t e hfirst => cases ha
  | case3 c t item rest hfirst ih =>
      cases hrest : scan rest with
      | error e =>
          rw [hrest] at ha
          cases ha
      | ok others =>
          rw [hrest] at ha
          cases ha
          rw [List.cons_append, scan_cons (first_append hfirst b), ih hrest, List.foldr_cons]

theorem scan_of_plain {t : Text} (hopen : '{' ∉ t) (hclose : '}' ∉ t) :
    scan t = .ok (t.map char) := by
  induction t with
  | nil => rw [scan]; rfl
  | cons c t ih =>
      rw [List.mem_cons, not_or] at hopen hclose
      have hfirst : first c t = .ok (char c, t) := by
        unfold first
        rw [if_neg (Ne.symm hopen.1), if_neg (Ne.symm hclose.1)]
      rw [scan_cons hfirst, ih hopen.2 hclose.2]
      rfl

end Item

namespace Template

variable {α : Type}

theorem scan_eq_ok_iff {t : Text} {count : Nat} {items : List Item} :
    scan t count = .ok items ↔ Item.scan t = .ok items ∧ ∀ index ∈ Item.indices items, index < count := by
  unfold scan
  cases Item.scan t with
  | error e => simp
  | ok found =>
      dsimp only [checkIndices]
      cases hfind : (Item.indices found).find? (count ≤ ·) with
      | some index =>
          obtain ⟨hle, hmem⟩ := List.find?_some hfind, List.mem_of_find?_eq_some hfind
          simp only [reduceCtorEq, Except.ok.injEq, false_iff, not_and]
          rintro rfl hall
          have hlt := hall index hmem
          simp only [decide_eq_true_eq] at hle
          omega
      | none =>
          simp only [Except.ok.injEq, iff_self_and]
          rintro rfl index hmem
          have hnone := List.find?_eq_none.1 hfind index hmem
          simpa using hnone

-- An index that no argument has is found behind those that have one.
theorem checkIndices_append {count : Nat} {items : List Item}
    (h : ∀ index ∈ Item.indices items, index < count) (more : List Item) :
    checkIndices count (items ++ more) = items.foldr Item.before (checkIndices count more) := by
  have hnone : (Item.indices items).find? (count ≤ ·) = none := by
    rw [List.find?_eq_none]
    intro index hmem
    have hlt := h index hmem
    simpa using hlt
  have hfind : (Item.indices (items ++ more)).find? (count ≤ ·) =
      (Item.indices more).find? (count ≤ ·) := by
    rw [Item.indices, List.filterMap_append, List.find?_append]
    rw [Item.indices] at hnone
    rw [hnone, Option.none_or, Item.indices]
  rw [checkIndices, checkIndices, hfind]
  cases (Item.indices more).find? (count ≤ ·) with
  | none => exact (Item.foldr_before_ok items more).symm
  | some index => exact (Item.foldr_before_error items (.indexOutOfRange index count)).symm

-- The whole of two texts scans as the one behind, with the items of the one in front.
theorem scan_append {a : Text} {count : Nat} {items : List Item} (ha : scan a count = .ok items)
    (b : Text) : scan (a ++ b) count = items.foldr Item.before (scan b count) := by
  obtain ⟨hscan, hindices⟩ := scan_eq_ok_iff.1 ha
  rw [scan, scan, Item.scan_append hscan b]
  cases Item.scan b with
  | ok more =>
      rw [Item.foldr_before_ok]
      exact checkIndices_append hindices more
  | error e => rw [Item.foldr_before_error]

-- Text that a template can be made of, with so many arguments
def Scans (count : Nat) (t : Text) : Prop := ∃ items, scan t count = .ok items

namespace Scans

variable {count : Nat}

theorem append {a b : Text} (ha : Scans count a) (hb : Scans count b) : Scans count (a ++ b) := by
  obtain ⟨items, ha⟩ := ha
  obtain ⟨more, hb⟩ := hb
  exact ⟨items ++ more, by rw [scan_append ha, hb, Item.foldr_before_ok]⟩

theorem of_plain {t : Text} (hopen : '{' ∉ t) (hclose : '}' ∉ t) : Scans count t := by
  refine ⟨t.map .char, scan_eq_ok_iff.2 ⟨Item.scan_of_plain hopen hclose, ?_⟩⟩
  intro index hmem
  obtain ⟨item, hitem, hindex⟩ := List.mem_filterMap.1 hmem
  obtain ⟨c, -, rfl⟩ := List.mem_map.1 hitem
  cases hindex

theorem intercalate {parts : List Text} (h : ∀ part ∈ parts, Scans count part) :
    Scans count (List.intercalate ['\n'] parts) := by
  induction parts with
  | nil => exact of_plain List.not_mem_nil List.not_mem_nil
  | cons part parts ih =>
      have hpart := h part List.mem_cons_self
      have hrest := ih fun p hp => h p (List.mem_cons_of_mem _ hp)
      cases parts with
      | nil => rwa [List.intercalate_singleton]
      | cons next parts =>
          rw [List.intercalate_cons_cons]
          exact (hpart.append (of_plain (by simp) (by simp))).append hrest

theorem exists_ofFormat {t : Text} {args : List α} (h : Scans args.length t) :
    ∃ document, ofFormat t args = .ok document ∧ document.format = t ∧ document.args = args := by
  obtain ⟨items, hitems⟩ := h
  exact ⟨⟨t, args, Segment.ofItems items⟩, by rw [ofFormat, hitems]; rfl, rfl, rfl⟩

end Scans

end Template

end Narrative
