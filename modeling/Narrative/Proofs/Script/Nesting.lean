import Mathlib.Data.List.Infix
import Narrative.Script.Parse

namespace Narrative.Draft

variable {α : Type}

def parent? (entries : Array (Entry α)) (id : Nat) : Option Nat :=
  entries[id]?.bind (·.parent)

-- A node and all that it hangs under, innermost first
def path (entries : Array (Entry α)) (id : Nat) : List Nat :=
  id :: match parent? entries id with
    | some p => if p < id then path entries p else []
    | none => []
termination_by id

theorem getElem?_push_of_some {entries : Array (Entry α)} {id : Nat} {o : Entry α} (e : Entry α)
    (h : entries[id]? = some o) : (entries.push e)[id]? = some o := by
  have hid := (Array.getElem?_eq_some_iff.1 h).1
  rw [Array.getElem?_push_lt hid, ← Array.getElem?_eq_getElem hid, h]

theorem parent?_eq_some_iff {entries : Array (Entry α)} {id p : Nat} :
    parent? entries id = some p ↔ ∃ e, entries[id]? = some e ∧ e.parent = some p := by
  simp only [parent?, Option.bind_eq_some_iff]

theorem parent?_push_of_lt {entries : Array (Entry α)} {id : Nat} (e : Entry α)
    (h : id < entries.size) : parent? (entries.push e) id = parent? entries id := by
  simp only [parent?, Array.getElem?_push_lt h, Array.getElem?_eq_getElem h]

theorem parent?_push_size (entries : Array (Entry α)) (e : Entry α) :
    parent? (entries.push e) entries.size = e.parent := by
  simp only [parent?, Array.getElem?_push_size, Option.bind_some]

theorem mem_childrenOf {entries : Array (Entry α)} {id child : Nat} :
    child ∈ childrenOf entries id ↔ parent? entries child = some id := by
  simp only [childrenOf, parent?, List.mem_filter, List.mem_range, decide_eq_true_eq,
    and_iff_right_iff_imp, Option.bind_eq_some_iff]
  rintro ⟨e, he, -⟩
  exact (Array.getElem?_eq_some_iff.1 he).1

theorem childrenOf_sorted (entries : Array (Entry α)) (id : Nat) :
    (childrenOf entries id).Pairwise (· < ·) :=
  List.Pairwise.filter _ List.pairwise_lt_range

theorem path_of_parent {entries : Array (Entry α)} {id p : Nat} (h : parent? entries id = some p)
    (hlt : p < id) : path entries id = id :: path entries p := by
  rw [path, h]
  simp only [if_pos hlt]

theorem path_of_none {entries : Array (Entry α)} {id : Nat} (h : parent? entries id = none) :
    path entries id = [id] := by
  rw [path, h]

theorem self_mem_path (entries : Array (Entry α)) (id : Nat) : id ∈ path entries id := by
  rw [path]
  exact List.mem_cons_self

-- A path ends, or goes on with the path of the parent.
theorem path_cases (entries : Array (Entry α)) (id : Nat) :
    path entries id = [id] ∨
      ∃ p : Nat, parent? entries id = some p ∧ p < id ∧ path entries id = id :: path entries p := by
  rw [path]
  split
  · next p h =>
    by_cases hlt : p < id
    · exact .inr ⟨p, h, hlt, by rw [if_pos hlt]⟩
    · exact .inl (by rw [if_neg hlt])
  · exact .inl rfl

theorem le_of_mem_path {entries : Array (Entry α)} {id q : Nat} (h : q ∈ path entries id) :
    q ≤ id := by
  induction id using Nat.strongRecOn with
  | ind id ih =>
      rcases path_cases entries id with hp | ⟨p, -, hlt, hp⟩
      · rw [hp] at h
        exact (List.mem_singleton.1 h).le
      · rw [hp] at h
        rcases List.mem_cons.1 h with rfl | hq
        · exact Nat.le_refl _
        · exact (ih p hlt hq).trans hlt.le

-- Whatever ends a path is a path itself.
theorem eq_path_of_suffix {entries : Array (Entry α)} {id q : Nat} {rest : List Nat}
    (h : q :: rest <:+ path entries id) : q :: rest = path entries q := by
  induction id using Nat.strongRecOn with
  | ind id ih =>
      rcases path_cases entries id with hp | ⟨p, -, hlt, hp⟩
      · rw [hp] at h
        rcases List.suffix_cons_iff.1 h with he | hnil
        · rw [he, (List.cons.inj he).1, hp]
        · exact absurd (List.suffix_nil.1 hnil) (List.cons_ne_nil _ _)
      · have h' := h
        rw [hp] at h'
        rcases List.suffix_cons_iff.1 h' with he | hs
        · rw [he, (List.cons.inj he).1, hp]
        · exact ih p hlt hs

theorem path_suffix_of_mem {entries : Array (Entry α)} {id q : Nat} (h : q ∈ path entries id) :
    path entries q <:+ path entries id := by
  obtain ⟨front, rest, he⟩ := List.append_of_mem h
  have hs : q :: rest <:+ path entries id := ⟨front, he.symm⟩
  rwa [← eq_path_of_suffix hs]

theorem path_push_of_lt {entries : Array (Entry α)} {id : Nat} (e : Entry α)
    (h : id < entries.size) : path (entries.push e) id = path entries id := by
  induction id using Nat.strongRecOn with
  | ind id ih =>
      rw [path, path, parent?_push_of_lt e h]
      split
      · next p hp =>
        by_cases hlt : p < id
        · rw [if_pos hlt, if_pos hlt, ih p hlt (hlt.trans h)]
        · rw [if_neg hlt, if_neg hlt]
      · rfl

-- Every node hangs under one that was open when it was read: it is on the path of the
-- node before, and may have lines below it. Scopes hang under nothing.
structure Nested (isGate : α → Bool) (entries : Array (Entry α)) : Prop where
  parent_none_iff : ∀ {id : Nat} {e : Entry α}, entries[id]? = some e →
    (e.parent = none ↔ e.kind.isScope = true)
  owner : ∀ {id p : Nat}, parent? entries id = some p →
    p < id ∧ p ∈ path entries (id - 1) ∧ ∃ o, entries[p]? = some o ∧ o.kind.canOwn isGate = true

namespace Nested

variable {isGate : α → Bool} {entries : Array (Entry α)}

theorem parent?_eq_none_iff (h : Nested isGate entries) {id : Nat} {e : Entry α}
    (he : entries[id]? = some e) : parent? entries id = none ↔ e.kind.isScope = true := by
  rw [parent?, he, Option.bind_some, h.parent_none_iff he]

theorem path_eq (h : Nested isGate entries) {id p : Nat} (hp : parent? entries id = some p) :
    path entries id = id :: path entries p :=
  path_of_parent hp (h.owner hp).1

theorem canOwn_of_mem_tail (h : Nested isGate entries) {id q : Nat}
    (hq : q ∈ (path entries id).tail) : ∃ o, entries[q]? = some o ∧ o.kind.canOwn isGate = true := by
  induction id using Nat.strongRecOn with
  | ind id ih =>
      rcases path_cases entries id with hp | ⟨p, hparent, hlt, hp⟩
      · simp [hp] at hq
      · rw [hp, List.tail_cons] at hq
        rcases path_cases entries p with hp' | ⟨p', -, -, hp'⟩
        · rw [hp', List.mem_singleton] at hq
          subst hq
          exact (h.owner hparent).2.2
        · rw [hp'] at hq
          rcases List.mem_cons.1 hq with rfl | hq
          · exact (h.owner hparent).2.2
          · exact ih p hlt (by rw [hp', List.tail_cons]; exact hq)

-- What hangs under a node stands together, right behind it: a node that a later path
-- leads through is on all paths in between.
theorem mem_path_between (h : Nested isGate entries) {top middle last : Nat}
    (hlast : top ∈ path entries last) (htop : top ≤ middle) (hmiddle : middle ≤ last) :
    top ∈ path entries middle := by
  induction last using Nat.strongRecOn with
  | ind last ih =>
      rcases Nat.eq_or_lt_of_le hmiddle with rfl | hlt
      · exact hlast
      · rcases path_cases entries last with hp | ⟨p, hparent, -, hp⟩
        · rw [hp, List.mem_singleton] at hlast
          omega
        · rw [hp] at hlast
          rcases List.mem_cons.1 hlast with rfl | hmem
          · omega
          · have hbefore := (path_suffix_of_mem (h.owner hparent).2.1).subset hmem
            exact ih (last - 1) (by omega) hbefore (by omega)

theorem push (h : Nested isGate entries) (e : Entry α)
    (hscope : e.parent = none ↔ e.kind.isScope = true)
    (howner : ∀ p : Nat, e.parent = some p → p ∈ path entries (entries.size - 1) ∧
      ∃ o, entries[p]? = some o ∧ o.kind.canOwn isGate = true) :
    Nested isGate (entries.push e) where
  parent_none_iff := by
    intro id e' he'
    rw [Array.getElem?_push] at he'
    split at he'
    · cases he'
      exact hscope
    · exact h.parent_none_iff he'
  owner := by
    intro id p hp
    obtain ⟨e', he', -⟩ := parent?_eq_some_iff.1 hp
    have hid : id < (entries.push e).size := (Array.getElem?_eq_some_iff.1 he').1
    rw [Array.size_push] at hid
    -- old entries keep their parents and paths, the new one hangs under the last path
    by_cases hlt : id < entries.size
    · rw [parent?_push_of_lt e hlt] at hp
      obtain ⟨hpid, hpath, o, ho, hown⟩ := h.owner hp
      rw [path_push_of_lt e (by omega)]
      exact ⟨hpid, hpath, o, getElem?_push_of_some e ho, hown⟩
    · obtain rfl : id = entries.size := by omega
      rw [parent?_push_size] at hp
      obtain ⟨hpath, o, ho, hown⟩ := howner p hp
      have hpsize := (Array.getElem?_eq_some_iff.1 ho).1
      rw [path_push_of_lt e (by omega)]
      exact ⟨hpsize, hpath, o, getElem?_push_of_some e ho, hown⟩

end Nested

end Narrative.Draft
