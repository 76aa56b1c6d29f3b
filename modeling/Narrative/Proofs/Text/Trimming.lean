import Mathlib.Data.List.DropRight
import Narrative.Text.Blank

namespace Narrative.Text

theorem splitOn_of_not_mem {sep : Char} {t : Text} (h : sep ∉ t) : splitOn sep t = [t] := by
  induction t with
  | nil => rfl
  | cons c t ih =>
      rw [List.mem_cons, not_or] at h
      rw [splitOn, if_neg (Ne.symm h.1), ih h.2]

theorem splitOn_ne_nil (sep : Char) (t : Text) : splitOn sep t ≠ [] := by
  unfold splitOn
  split
  · simp
  · split
    · simp
    · split <;> simp

theorem not_mem_of_mem_splitOn {sep : Char} {t part : Text} (h : part ∈ splitOn sep t) : sep ∉ part := by
  induction t generalizing part with
  | nil =>
      rw [List.mem_singleton.1 h]
      exact List.not_mem_nil
  | cons c t ih =>
      obtain ⟨first, rest, hparts⟩ := List.exists_cons_of_ne_nil (splitOn_ne_nil sep t)
      rw [hparts] at ih
      rw [splitOn, hparts] at h
      split at h
      · rcases List.mem_cons.1 h with rfl | hmem
        · exact List.not_mem_nil
        · exact ih hmem
      · next hsep =>
        rcases List.mem_cons.1 h with rfl | hmem
        · rw [List.mem_cons, not_or]
          exact ⟨Ne.symm hsep, ih List.mem_cons_self⟩
        · exact ih (List.mem_cons_of_mem first hmem)

theorem splitOn_append (sep : Char) (t rest : Text) :
    splitOn sep (t ++ sep :: rest) = splitOn sep t ++ splitOn sep rest := by
  induction t with
  | nil => simp [splitOn]
  | cons c t ih =>
      obtain ⟨part, parts, hparts⟩ := List.exists_cons_of_ne_nil (splitOn_ne_nil sep t)
      rw [hparts] at ih
      rw [List.cons_append, splitOn, splitOn, ih, hparts]
      split <;> rfl

theorem splitOn_append_cons {sep : Char} {t : Text} (h : sep ∉ t) (rest : Text) :
    splitOn sep (t ++ sep :: rest) = t :: splitOn sep rest := by
  rw [splitOn_append, splitOn_of_not_mem h, List.singleton_append]

theorem lines_append (t rest : Text) : lines (t ++ '\n' :: rest) = lines t ++ lines rest :=
  splitOn_append '\n' t rest

-- Lines that are joined come apart again.
theorem lines_intercalate {parts : List Text} (hne : parts ≠ []) (h : ∀ part ∈ parts, '\n' ∉ part) :
    lines (List.intercalate ['\n'] parts) = parts := by
  induction parts with
  | nil => exact absurd rfl hne
  | cons part parts ih =>
      have hpart := h part List.mem_cons_self
      cases parts with
      | nil =>
          rw [List.intercalate_singleton]
          exact splitOn_of_not_mem hpart
      | cons next parts =>
          have hrest := ih (List.cons_ne_nil _ _) fun p hp => h p (List.mem_cons_of_mem _ hp)
          rw [List.intercalate_cons_cons, List.append_assoc, List.singleton_append, lines,
            splitOn_append_cons hpart]
          exact congrArg (part :: ·) hrest

theorem intercalate_splitOn (sep : Char) (t : Text) : List.intercalate [sep] (splitOn sep t) = t := by
  induction t with
  | nil => rfl
  | cons c t ih =>
      obtain ⟨part, parts, hparts⟩ := List.exists_cons_of_ne_nil (splitOn_ne_nil sep t)
      rw [hparts] at ih
      unfold splitOn
      split
      · next hsep =>
        rw [hparts, List.intercalate_cons_cons, ih, hsep]
        rfl
      · rw [hparts]
        cases parts with
        | nil =>
            rw [List.intercalate_singleton] at ih ⊢
            rw [ih]
        | cons next parts =>
            rw [List.intercalate_cons_cons] at ih ⊢
            rw [← ih]
            rfl

theorem intercalate_lines (t : Text) : List.intercalate ['\n'] (lines t) = t := intercalate_splitOn '\n' t

theorem length_dropEndWhile_le (p : Char → Bool) (t : Text) : (dropEndWhile p t).length ≤ t.length := by
  rw [dropEndWhile, List.length_reverse]
  have hle : (t.reverse.dropWhile p).length ≤ t.reverse.length := (List.dropWhile_suffix p).length_le
  rwa [List.length_reverse] at hle

theorem dropEndWhile_append_singleton {p : Char → Bool} {c : Char} (t : Text) :
    dropEndWhile p (t ++ [c]) = if p c then dropEndWhile p t else t ++ [c] := by
  rw [dropEndWhile, List.reverse_append, List.reverse_singleton, List.singleton_append,
    List.dropWhile_cons]
  split
  · rfl
  · rw [List.reverse_cons, List.reverse_reverse]

-- A text that trimming leaves as it is
theorem trimStart_eq_self {t : Text} (h : trim t = t) : trimStart t = t := by
  have hlength := congrArg List.length h
  have hend := length_dropEndWhile_le isBlank (trimStart t)
  apply (List.dropWhile_suffix isBlank).eq_of_length_le
  rw [← hlength]
  exact hend

theorem trimEnd_eq_self {t : Text} (h : trim t = t) : trimEnd t = t := by
  rw [trim, trimStart_eq_self h] at h
  exact h

theorem isBlank_head {c : Char} {t : Text} (h : trim (c :: t) = c :: t) : isBlank c = false := by
  have hstart := trimStart_eq_self h
  cases hblank : isBlank c with
  | false => rfl
  | true =>
      rw [trimStart, List.dropWhile_cons_of_pos hblank] at hstart
      have hle : (t.dropWhile isBlank).length ≤ t.length := (List.dropWhile_suffix isBlank).length_le
      rw [hstart, List.length_cons] at hle
      omega

theorem trim_cons_of_blank {c : Char} (h : isBlank c = true) (t : Text) : trim (c :: t) = trim t := by
  rw [trim, trimStart, List.dropWhile_cons_of_pos h]
  rfl

theorem dropWhile_isBlank_eq_self {t : Text} (h : ∀ c ∈ t, isBlank c = false) :
    t.dropWhile isBlank = t := by
  rw [List.dropWhile_eq_self_iff]
  intro hpos
  simp [h]

theorem trim_eq_self_of_forall {t : Text} (h : ∀ c ∈ t, isBlank c = false) : trim t = t := by
  have hreverse : ∀ c ∈ t.reverse, isBlank c = false := fun c hc => h c (List.mem_reverse.1 hc)
  rw [trim, trimStart, dropWhile_isBlank_eq_self h, trimEnd, dropEndWhile,
    dropWhile_isBlank_eq_self hreverse, List.reverse_reverse]

-- Blanks in front of a text, and the text
theorem leadingBlanks_append {blanks : Text} {c : Char} (t : Text) (h : ∀ b ∈ blanks, isBlank b = true)
    (hc : isBlank c = false) : leadingBlanks (blanks ++ c :: t) = blanks := by
  rw [leadingBlanks, List.takeWhile_append_of_pos h, List.takeWhile_cons_of_neg (by simp [hc]),
    List.append_nil]

theorem trimStart_append {blanks : Text} {c : Char} (t : Text) (h : ∀ b ∈ blanks, isBlank b = true)
    (hc : isBlank c = false) : trimStart (blanks ++ c :: t) = c :: t := by
  rw [trimStart, List.dropWhile_append_of_pos h, List.dropWhile_cons_of_neg (by simp [hc])]

theorem allBlank_append {blanks : Text} {c : Char} (t : Text) (hc : isBlank c = false) :
    allBlank (blanks ++ c :: t) = false := by
  simp [allBlank, hc]

-- Trimming at one end does not see what is done at the other.
theorem dropWhile_dropEndWhile (p q : Char → Bool) (t : Text) :
    (dropEndWhile q t).dropWhile p = dropEndWhile q (t.dropWhile p) := by
  induction t using List.reverseRecOn with
  | nil => rfl
  | append_singleton t c ih =>
      have hsingle : ∀ part : Text, part = [] ∨ part = [c] →
          dropEndWhile q part = if q c then [] else part := by
        rintro part (rfl | rfl)
        · exact (ite_self _).symm
        · exact List.rdropWhile_singleton q c
      have hlast : [c].dropWhile p = [] ∨ [c].dropWhile p = [c] := by
        rw [List.dropWhile_cons]
        split
        · exact .inl rfl
        · exact .inr rfl
      rw [dropEndWhile_append_singleton, List.dropWhile_append]
      cases hq : q c with
      | true =>
          rw [if_pos rfl, ih]
          split
          · next hnil => rw [hsingle _ hlast, hq, if_pos rfl, List.isEmpty_iff.1 hnil]; rfl
          · rw [dropEndWhile_append_singleton, if_pos hq]
      | false =>
          rw [if_neg Bool.false_ne_true, List.dropWhile_append]
          split
          · rw [hsingle _ hlast, hq, if_neg Bool.false_ne_true]
          · rw [dropEndWhile_append_singleton, hq, if_neg Bool.false_ne_true]

@[simp] theorem trimEnd_trimEnd (t : Text) : trimEnd (trimEnd t) = trimEnd t :=
  List.rdropWhile_idempotent isBlank t

theorem trimStart_trimEnd (t : Text) : trimStart (trimEnd t) = trimEnd (trimStart t) :=
  dropWhile_dropEndWhile isBlank isBlank t

@[simp] theorem trim_trimEnd (t : Text) : trim (trimEnd t) = trim t := by
  rw [trim, trimStart_trimEnd, trimEnd_trimEnd, trim]

theorem trimEnd_isPrefix (t : Text) : trimEnd t <+: t := List.rdropWhile_prefix isBlank t

-- A character that is no blank keeps what is in front of it.
theorem trimEnd_append_cons {c : Char} (hc : isBlank c = false) (front t : Text) :
    trimEnd (front ++ c :: t) = front ++ c :: trimEnd t := by
  induction t using List.reverseRecOn with
  | nil =>
      rw [trimEnd, dropEndWhile_append_singleton, hc, if_neg Bool.false_ne_true]
      rfl
  | append_singleton t d ih =>
      have happend : front ++ c :: (t ++ [d]) = (front ++ c :: t) ++ [d] := by
        rw [List.append_assoc, List.cons_append]
      rw [happend, trimEnd, trimEnd, dropEndWhile_append_singleton, dropEndWhile_append_singleton]
      split
      · exact ih
      · exact happend.symm

@[simp] theorem allBlank_trimEnd (t : Text) : allBlank (trimEnd t) = allBlank t := by
  induction t using List.reverseRecOn with
  | nil => rfl
  | append_singleton t c ih =>
      rw [trimEnd, dropEndWhile_append_singleton]
      split
      · next hc =>
        rw [← trimEnd, ih, allBlank, allBlank, List.all_append]
        simp [hc]
      · rfl

-- A line that is not blank has a first character behind its leading blanks.
theorem exists_of_allBlank_eq_false {t : Text} (h : allBlank t = false) :
    ∃ blanks c rest, t = blanks ++ c :: rest ∧ (∀ b ∈ blanks, isBlank b = true) ∧ isBlank c = false := by
  have hne : trimStart t ≠ [] := by
    intro hnil
    rw [trimStart, List.dropWhile_eq_nil_iff] at hnil
    rw [allBlank, List.all_eq_true.2 hnil] at h
    cases h
  obtain ⟨c, rest, hrest⟩ := List.exists_cons_of_ne_nil hne
  refine ⟨leadingBlanks t, c, rest, ?_, fun b hb => List.mem_takeWhile_imp hb, ?_⟩
  · rw [← hrest, leadingBlanks_append_trimStart]
  · have hhead := List.head_dropWhile_not isBlank hne
    simp only [trimStart] at hrest
    simpa only [hrest, List.head_cons] using hhead

theorem leadingBlanks_trimEnd {t : Text} (h : allBlank t = false) :
    leadingBlanks (trimEnd t) = leadingBlanks t := by
  obtain ⟨blanks, c, rest, rfl, hblanks, hc⟩ := exists_of_allBlank_eq_false h
  rw [trimEnd_append_cons hc, leadingBlanks_append _ hblanks hc, leadingBlanks_append _ hblanks hc]

end Narrative.Text
