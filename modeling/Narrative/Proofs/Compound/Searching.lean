import Mathlib.Order.Bounds.Basic
import Narrative.Proofs.Compound.Editing

namespace Narrative

variable {α : Type}

-- The first offset from the start on at which a text comes apart
def Text.placeFrom? (start : Nat) (t : Text) : Option Nat :=
  (List.range' start (byteSize t + 1 - start)).find? fun offset => (splitAtByte offset t).isSome

-- It is where some front part of the text ends, and none ends between the start and it.
theorem Text.exists_of_placeFrom? {start place : Nat} {t : Text} (h : placeFrom? start t = some place) :
    start ≤ place ∧ (∃ front back, t = front ++ back ∧ byteSize front = place) ∧
      ∀ front back, t = front ++ back → byteSize front < place → byteSize front < start := by
  obtain ⟨hsome, hmem, hbefore⟩ := List.find?_range'_eq_some.1 h
  obtain ⟨⟨front, back⟩, hsplit⟩ := Option.isSome_iff_exists.1 hsome
  obtain ⟨ht, hplace⟩ := splitAtByte_eq_some hsplit
  refine ⟨(List.mem_range'_1.1 hmem).1, ⟨front, back, ht, hplace.symm⟩, ?_⟩
  intro front back ht hlt
  by_contra hle
  have hnone := hbefore (byteSize front) (Nat.le_of_not_lt hle) hlt
  rw [ht, splitAtByte_byteSize] at hnone
  cases hnone

theorem Text.lt_of_placeFrom?_eq_none {start : Nat} {front back : Text}
    (h : placeFrom? start (front ++ back) = none) : byteSize front < start := by
  by_contra hle
  have hsize := byteSize_append front back
  have hnone := List.find?_range'_eq_none.1 h (byteSize front) (Nat.le_of_not_lt hle) (by omega)
  rw [splitAtByte_byteSize] at hnone
  cases hnone

namespace Compound

-- A marker begins at the offset.
def MarkerAt (c : Compound α) (offset : Nat) : Prop :=
  ∃ front back, c.text = front ++ marker :: back ∧ Text.byteSize front = offset

-- The search as two passes: on to a place between characters, and from there through what
-- stands behind it. A second pass that begins inside a character would break off.
def seek? (c : Compound α) (start : Nat) : Option (Option Nat) :=
  match Text.placeFrom? start c.text with
  | none => some none
  | some place =>
    (Text.splitAtByte place c.text).map fun parts => (markerFrom? 0 0 parts.2).map (· + place)

-- The look at an offset as two passes: whether a marker begins there, and then how many stand
-- in front of it. A second pass to an offset inside a character would break off.
def lookUp? (c : Compound α) (offset : Nat) : Option (Option (Inline α)) :=
  match Text.splitAtByte offset c.text with
  | some (_, d :: _) =>
    if d = marker then
      (Text.splitAtByte offset c.text).map fun parts => c.contents[markerCount parts.1]?
    else some none
  | _ => some none

-- The offsets that searches come to one after the other, each of them from just behind the
-- marker that the one before has found
inductive Finds (c : Compound α) : Nat → List Nat → Prop
  | last {start : Nat} (h : c.nextMarker? start = none) : Finds c start []
  | next {start found : Nat} {others : List Nat} (h : c.nextMarker? start = some found)
      (hothers : Finds c (found + 3) others) : Finds c start (found :: others)

section Offsets

-- A marker stands at the head of a text, or further on.
theorem exists_marked_cons_iff {c : Char} {t : Text} {P : Text → Prop} :
    (∃ front back, c :: t = front ++ marker :: back ∧ P front) ↔
      (c = marker ∧ P []) ∨ ∃ front back, t = front ++ marker :: back ∧ P (c :: front) := by
  constructor
  · rintro ⟨front, back, ht, hfront⟩
    cases front with
    | nil => exact .inl ⟨(List.cons.inj ht).1, hfront⟩
    | cons d front =>
        obtain ⟨rfl, rfl⟩ := List.cons.inj ht
        exact .inr ⟨front, back, rfl, hfront⟩
  · rintro (⟨rfl, hnil⟩ | ⟨front, back, rfl, hfront⟩)
    · exact ⟨[], t, rfl, hnil⟩
    · exact ⟨c :: front, back, rfl, hfront⟩

-- The k-th of the offsets has k markers in front of it.
theorem getElem?_markerOffsets_eq_some_iff {base k offset : Nat} {t : Text} :
    (markerOffsets base t)[k]? = some offset ↔
      ∃ front back, t = front ++ marker :: back ∧
        base + Text.byteSize front = offset ∧ markerCount front = k := by
  induction t generalizing base k with
  | nil => simp [markerOffsets]
  | cons c t ih =>
      rw [markerOffsets, exists_marked_cons_iff]
      simp only [Text.byteSize, ← Nat.add_assoc]
      by_cases hc : c = marker
      · subst hc
        rw [if_pos rfl]
        cases k with
        | zero => simp [markerCount]
        | succ k => simp [ih, markerCount]
      · rw [if_neg hc, ih]
        simp [markerCount, hc]

theorem mem_markerOffsets_iff {base offset : Nat} {t : Text} :
    offset ∈ markerOffsets base t ↔
      ∃ front back, t = front ++ marker :: back ∧ base + Text.byteSize front = offset := by
  rw [List.mem_iff_getElem?]
  simp only [getElem?_markerOffsets_eq_some_iff]
  constructor
  · rintro ⟨_, front, back, ht, hoffset, -⟩
    exact ⟨front, back, ht, hoffset⟩
  · rintro ⟨front, back, ht, hoffset⟩
    exact ⟨_, front, back, ht, hoffset, rfl⟩

theorem length_markerOffsets (base : Nat) (t : Text) :
    (markerOffsets base t).length = markerCount t := by
  induction t generalizing base with
  | nil => rfl
  | cons c t ih =>
      rw [markerOffsets, markerCount]
      split
      · next hc => rw [List.length_cons, ih, hc, List.count_cons_self, markerCount]
      · next hc => rw [ih, List.count_cons_of_ne hc, markerCount]

-- Markers do not overlap.
theorem pairwise_markerOffsets (base : Nat) (t : Text) :
    (markerOffsets base t).Pairwise fun offset next => offset + 3 ≤ next := by
  induction t generalizing base with
  | nil => exact .nil
  | cons c t ih =>
      rw [markerOffsets]
      split
      · next hc =>
        refine List.pairwise_cons.2 ⟨?_, ih _⟩
        intro next hnext
        obtain ⟨front, -, -, rfl⟩ := mem_markerOffsets_iff.1 hnext
        have hsize : c.utf8Size = 3 := by
          rw [hc]
          rfl
        omega
      · exact ih _

theorem markerOffsets_append (base : Nat) (front back : Text) :
    markerOffsets base (front ++ back) =
      markerOffsets base front ++ markerOffsets (base + Text.byteSize front) back := by
  induction front generalizing base with
  | nil => rfl
  | cons c front ih =>
      rw [List.cons_append, markerOffsets, markerOffsets, ih, Text.byteSize, Nat.add_assoc]
      split <;> rfl

theorem markerOffsets_eq_map (base : Nat) (t : Text) :
    markerOffsets base t = (markerOffsets 0 t).map (· + base) := by
  have hshift : ∀ offset, markerOffsets (offset + base) t = (markerOffsets offset t).map (· + base) := by
    induction t with
    | nil => exact fun _ => rfl
    | cons c t ih =>
        intro offset
        rw [markerOffsets, markerOffsets, Nat.add_right_comm, ih]
        split <;> rfl
  simpa only [Nat.zero_add] using hshift 0

-- A search comes to the first of the offsets that is not in front of its start.
theorem markerFrom?_eq_find? (start base : Nat) (t : Text) :
    markerFrom? start base t = (markerOffsets base t).find? (start ≤ ·) := by
  induction t generalizing base with
  | nil => rfl
  | cons c t ih =>
      rw [markerFrom?, markerOffsets, ih]
      by_cases hc : c = marker
      · by_cases hstart : start ≤ base <;> simp [hc, hstart]
      · simp [hc]

-- What is found is the first of the offsets from the start on, and the others follow it with
-- room for its marker.
theorem filter_eq_cons_of_find? {offsets : List Nat} {start found : Nat}
    (hsorted : offsets.Pairwise fun offset next => offset + 3 ≤ next)
    (h : offsets.find? (start ≤ ·) = some found) :
    offsets.filter (start ≤ ·) = found :: offsets.filter (found + 3 ≤ ·) := by
  induction offsets with
  | nil => cases h
  | cons first others ih =>
      obtain ⟨hfirst, hothers⟩ := List.pairwise_cons.1 hsorted
      by_cases hstart : start ≤ first
      · obtain rfl : first = found := by simpa [hstart] using h
        have hall : ∀ bound ≤ first + 3, others.filter (bound ≤ ·) = others := by
          intro bound hbound
          rw [List.filter_eq_self]
          intro next hnext
          have hle := hfirst next hnext
          simp only [decide_eq_true_eq]
          omega
        rw [List.filter_cons_of_pos (by simpa using hstart), List.filter_cons_of_neg (by simp),
          hall start (by omega), hall (first + 3) le_rfl]
      · have hrest : others.find? (start ≤ ·) = some found := by simpa [hstart] using h
        have hfound : start ≤ found := by simpa using List.find?_some hrest
        rw [List.filter_cons_of_neg (by simpa using hstart),
          List.filter_cons_of_neg (by simp only [decide_eq_true_eq]; omega), ih hothers hrest]

end Offsets

variable {c : Compound α}

theorem mem_markerOffsets_iff_markerAt {offset : Nat} :
    offset ∈ markerOffsets 0 c.text ↔ c.MarkerAt offset := by
  simp only [mem_markerOffsets_iff, MarkerAt, Nat.zero_add]

theorem nextMarker?_eq_find? (start : Nat) :
    c.nextMarker? start = (markerOffsets 0 c.text).find? (start ≤ ·) :=
  markerFrom?_eq_find? start 0 c.text

theorem nextMarker?_eq_none_iff {start : Nat} :
    c.nextMarker? start = none ↔ ∀ offset, c.MarkerAt offset → offset < start := by
  simp only [nextMarker?_eq_find?, List.find?_eq_none, mem_markerOffsets_iff_markerAt,
    decide_eq_true_eq, not_le]

theorem filter_markerOffsets {start found : Nat} (h : c.nextMarker? start = some found) :
    (markerOffsets 0 c.text).filter (start ≤ ·) =
      found :: (markerOffsets 0 c.text).filter (found + 3 ≤ ·) := by
  rw [nextMarker?_eq_find?] at h
  exact filter_eq_cons_of_find? (pairwise_markerOffsets 0 c.text) h

theorem isLeast_of_nextMarker? {start found : Nat} (h : c.nextMarker? start = some found) :
    IsLeast {offset | start ≤ offset ∧ c.MarkerAt offset} found := by
  have hmem : ∀ offset, start ≤ offset ∧ c.MarkerAt offset ↔
      offset = found ∨ found + 3 ≤ offset ∧ c.MarkerAt offset := by
    intro offset
    have hiff := List.mem_cons (a := offset) (b := found)
      (l := (markerOffsets 0 c.text).filter (found + 3 ≤ ·))
    rw [← filter_markerOffsets h] at hiff
    simpa [mem_markerOffsets_iff_markerAt, and_comm] using hiff
  refine ⟨(hmem found).2 (.inl rfl), fun offset hoffset => ?_⟩
  rcases (hmem offset).1 hoffset with rfl | ⟨hle, -⟩
  · exact le_rfl
  · omega

theorem nextMarker?_eq_some_iff {start found : Nat} :
    c.nextMarker? start = some found ↔
      IsLeast {offset | start ≤ offset ∧ c.MarkerAt offset} found := by
  refine ⟨isLeast_of_nextMarker?, fun hleast => ?_⟩
  cases hother : c.nextMarker? start with
  | none =>
      obtain ⟨hstart, hmarker⟩ := hleast.1
      have hlt := nextMarker?_eq_none_iff.1 hother found hmarker
      omega
  | some other => rw [(isLeast_of_nextMarker? hother).unique hleast]

-- Searches one after the other come to all offsets from the start on.
theorem finds_iff {start : Nat} {row : List Nat} :
    c.Finds start row ↔ row = (markerOffsets 0 c.text).filter (start ≤ ·) := by
  have hhead : ∀ start, ((markerOffsets 0 c.text).filter (start ≤ ·)).head? = c.nextMarker? start :=
    fun start => List.head?_filter.trans (nextMarker?_eq_find? start).symm
  constructor
  · intro h
    induction h with
    | @last start h =>
        rw [← hhead, List.head?_eq_none_iff] at h
        exact h.symm
    | next h _ ih => rw [filter_markerOffsets h, ih]
  · intro h
    induction row generalizing start with
    | nil => exact .last (by rw [← hhead, ← h, List.head?_nil])
    | cons found others ih =>
        have hfound : c.nextMarker? start = some found := by rw [← hhead, ← h, List.head?_cons]
        rw [filter_markerOffsets hfound] at h
        exact .next hfound (ih (List.cons.inj h).2)

-- The search may go by places: no marker begins inside a character.
theorem seek?_eq (c : Compound α) (start : Nat) : c.seek? start = some (c.nextMarker? start) := by
  unfold seek?
  cases hplace : Text.placeFrom? start c.text with
  | none =>
      have hnone : c.nextMarker? start = none := by
        rw [nextMarker?_eq_none_iff]
        rintro _ ⟨front, back, htext, rfl⟩
        rw [htext] at hplace
        exact Text.lt_of_placeFrom?_eq_none hplace
      rw [hnone]
  | some place =>
      obtain ⟨hstart, ⟨front, back, htext, rfl⟩, hbefore⟩ := Text.exists_of_placeFrom? hplace
      have hfront : (markerOffsets 0 front).find? (start ≤ ·) = none := by
        rw [List.find?_eq_none]
        intro offset hoffset
        obtain ⟨before, behind, rfl, rfl⟩ := mem_markerOffsets_iff.1 hoffset
        have hpos := marker.utf8Size_pos
        have hsize : Text.byteSize before < Text.byteSize (before ++ marker :: behind) := by
          rw [Text.byteSize_append, Text.byteSize]
          omega
        simpa using hbefore before (marker :: behind ++ back) (by rw [htext, List.append_assoc]) hsize
      have hback : (markerOffsets (Text.byteSize front) back).find? (start ≤ ·) =
          (markerFrom? 0 0 back).map (· + Text.byteSize front) := by
        rw [markerOffsets_eq_map, List.find?_map, markerFrom?_eq_find?]
        congr 2
        funext offset
        simp only [Function.comp_apply, decide_eq_decide]
        omega
      dsimp only
      rw [nextMarker?_eq_find?, htext, markerOffsets_append, List.find?_append, hfront, Option.none_or,
        Nat.zero_add, hback, Text.splitAtByte_byteSize, Option.map_some]

theorem contentAt?_of_text_eq {front back : Text} (h : c.text = front ++ marker :: back) :
    c.contentAt? (Text.byteSize front) = c.contents[markerCount front]? := by
  rw [contentAt?, h, Text.splitAtByte_byteSize]
  exact if_pos rfl

theorem contentAt?_eq_none {offset : Nat} (h : ¬ c.MarkerAt offset) : c.contentAt? offset = none := by
  unfold contentAt?
  split
  · next front d back hsplit =>
    obtain ⟨htext, rfl⟩ := Text.splitAtByte_eq_some hsplit
    rw [if_neg]
    rintro rfl
    exact h ⟨front, back, htext, rfl⟩
  · rfl

theorem lookUp?_eq (c : Compound α) (offset : Nat) : c.lookUp? offset = some (c.contentAt? offset) := by
  rcases hsplit : Text.splitAtByte offset c.text with _ | ⟨front, _ | ⟨d, back⟩⟩
  · simp only [lookUp?, contentAt?, hsplit]
  · simp only [lookUp?, contentAt?, hsplit]
  · simp only [lookUp?, contentAt?, hsplit, Option.map_some]
    split <;> rfl

-- The objects of a text are found at the offsets of its markers, one after the other.
theorem map_contentAt? (h : markerCount c.text = c.contents.length) :
    (markerOffsets 0 c.text).map c.contentAt? = c.contents.map some := by
  apply List.ext_getElem?
  intro k
  rw [List.getElem?_map, List.getElem?_map]
  cases hoffset : (markerOffsets 0 c.text)[k]? with
  | none =>
      rw [List.getElem?_eq_none_iff, length_markerOffsets, h] at hoffset
      rw [List.getElem?_eq_none hoffset]
      rfl
  | some offset =>
      have hlt : k < c.contents.length := by
        rw [← h, ← length_markerOffsets 0]
        exact (List.getElem?_eq_some_iff.1 hoffset).1
      obtain ⟨front, back, htext, rfl, rfl⟩ := getElem?_markerOffsets_eq_some_iff.1 hoffset
      rw [Nat.zero_add, Option.map_some, contentAt?_of_text_eq htext, List.getElem?_eq_getElem hlt,
        Option.map_some]

-- Markers are found where they are: a search comes to the first one at or behind its start,
-- wherever that is, searches one after the other come to all of them in order, as many as there
-- are objects, and these are what is found there. No other offset has an object.
theorem reachable_finds_markers (h : c.Reachable) :
    (∀ start, c.seek? start = some (c.nextMarker? start)) ∧
    (∀ start found, c.nextMarker? start = some found ↔
      IsLeast {offset | start ≤ offset ∧ c.MarkerAt offset} found) ∧
    (∀ start, c.nextMarker? start = none ↔ ∀ offset, c.MarkerAt offset → offset < start) ∧
    (∀ offset, c.lookUp? offset = some (c.contentAt? offset)) ∧
    (∀ offset, (c.contentAt? offset).isSome = true ↔ c.MarkerAt offset) ∧
    ∃ offsets : List Nat,
      (∀ row, c.Finds 0 row ↔ row = offsets) ∧ offsets.Pairwise (· < ·) ∧
      (∀ offset, offset ∈ offsets ↔ c.MarkerAt offset) ∧ offsets.length = c.contents.length ∧
      offsets.map c.contentAt? = c.contents.map some := by
  obtain ⟨cells, hshows⟩ := h.exists_shows
  have hcount : markerCount c.text = c.contents.length := hshows.markerCount_eq
  have hcontents := map_contentAt? hcount
  refine ⟨c.seek?_eq, fun _ _ => nextMarker?_eq_some_iff, fun _ => nextMarker?_eq_none_iff, c.lookUp?_eq,
    fun offset => ⟨?_, ?_⟩, markerOffsets 0 c.text, ?_, ?_, fun _ => mem_markerOffsets_iff_markerAt,
    (length_markerOffsets 0 c.text).trans hcount, hcontents⟩
  · intro hsome
    by_contra hmarker
    rw [contentAt?_eq_none hmarker] at hsome
    cases hsome
  · intro hmarker
    have hmem := List.mem_map_of_mem (f := c.contentAt?) (mem_markerOffsets_iff_markerAt.2 hmarker)
    rw [hcontents] at hmem
    obtain ⟨i, -, hi⟩ := List.mem_map.1 hmem
    rw [← hi]
    rfl
  · intro row
    simp [finds_iff]
  · exact (pairwise_markerOffsets 0 c.text).imp fun hle => by omega

-- Two objects behind characters of two bytes and of one, with starts inside the first character,
-- inside the first marker and inside the last one
theorem reachable_finds_markers_wide :
    let c : Compound Nat := .ofTemplate ⟨"é\x7b0\x7dx\x7b1,3\x7d".toList, [7, 8],
      [.literal ['é'], .placeholder ⟨0, none, none⟩, .literal ['x'], .placeholder ⟨1, some 3, none⟩]⟩
    c.Reachable ∧ c.nextMarker? 1 = some 2 ∧ c.seek? 4 = some (some 6) ∧
      IsLeast {offset | 4 ≤ offset ∧ c.MarkerAt offset} 6 ∧
      c.nextMarker? 7 = none ∧ (∀ offset, c.MarkerAt offset → offset < 7) ∧ ¬ c.MarkerAt 3 ∧
      [2, 6].length = c.contents.length ∧
      [2, 6].map c.contentAt? = [some ⟨7, none, none⟩, some ⟨8, some 3, none⟩] := by
  intro c
  have hc : c.Reachable := .ofTemplate _
  obtain ⟨hseek, hsome, hnone, -, hcontent, offsets, hfinds, -, -, hlength, hcontents⟩ :=
    reachable_finds_markers hc
  have hlast : c.nextMarker? 7 = none := rfl
  have hrow : c.Finds 0 [2, 6] := .next rfl (.next rfl (.last rfl))
  obtain rfl := (hfinds _).1 hrow
  have hnoMarker : ¬ c.MarkerAt 3 := by
    rw [← hcontent]
    decide
  exact ⟨hc, rfl, hseek 4, (hsome 4 6).1 rfl, hlast, (hnone 7).1 hlast, hnoMarker, hlength, hcontents⟩

end Compound

end Narrative
