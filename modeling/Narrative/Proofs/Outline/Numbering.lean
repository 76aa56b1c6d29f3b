import Narrative.Proofs.Outline.Reread
import Narrative.Proofs.Script.Forest

namespace Narrative

variable {α : Type} {args : List α}

namespace Draft

-- The places of the nodes that hang under one, among entries of which the first has the
-- given place
def childrenFrom (id : Nat) : Nat → List (Entry α) → List Nat
  | _, [] => []
  | start, e :: rest =>
    if e.parent = some id then start :: childrenFrom id (start + 1) rest
    else childrenFrom id (start + 1) rest

theorem childrenFrom_append (id start : Nat) (front rest : List (Entry α)) :
    childrenFrom id start (front ++ rest) =
      childrenFrom id start front ++ childrenFrom id (start + front.length) rest := by
  induction front generalizing start with
  | nil => rfl
  | cons e front ih =>
      rw [List.cons_append, childrenFrom, childrenFrom, ih, List.length_cons,
        show start + 1 + front.length = start + (front.length + 1) by omega]
      split <;> rfl

theorem childrenFrom_eq_nil {id : Nat} {entries : List (Entry α)}
    (h : ∀ e ∈ entries, e.parent ≠ some id) (start : Nat) : childrenFrom id start entries = [] := by
  induction entries generalizing start with
  | nil => rfl
  | cons e rest ih =>
      rw [childrenFrom, if_neg (h e List.mem_cons_self)]
      exact ih (fun e he => h e (List.mem_cons_of_mem _ he)) (start + 1)

theorem childrenOf_eq (entries : Array (Entry α)) (id : Nat) :
    childrenOf entries id = childrenFrom id 0 entries.toList := by
  have hrange : ∀ (l : List (Entry α)) (start : Nat),
      ((List.range l.length).filter fun child => (l[child]?.bind (·.parent)) = some id).map (start + ·) =
        childrenFrom id start l := by
    intro l
    induction l with
    | nil => exact fun _ => rfl
    | cons e rest ih =>
        intro start
        have htail : (((List.range rest.length).map Nat.succ).filter fun child =>
            ((e :: rest)[child]?.bind (·.parent)) = some id).map (start + ·) =
              childrenFrom id (start + 1) rest := by
          rw [← ih (start + 1), List.filter_map, List.map_map]
          apply List.map_congr_left
          intro child _
          simp only [Function.comp_apply]
          omega
        rw [List.length_cons, List.range_succ_eq_map, List.filter_cons, childrenFrom, ← htail]
        simp only [List.getElem?_cons_zero, Option.bind_some, decide_eq_true_eq]
        split <;> rfl
  have hall := hrange entries.toList 0
  simp only [Nat.zero_add, List.map_id'] at hall
  rw [← hall, childrenOf, Array.length_toList]
  simp only [Array.getElem?_toList]

-- The nodes of some of the entries, of which the first has the given place
def nodesFrom (entries : Array (Entry α)) : Nat → List (Entry α) → List (Node α)
  | _, [] => []
  | id, e :: rest =>
    ⟨id, resolve entries e.kind, e.line, childrenOf entries id⟩ :: nodesFrom entries (id + 1) rest

theorem nodesFrom_append (entries : Array (Entry α)) (id : Nat) (front rest : List (Entry α)) :
    nodesFrom entries id (front ++ rest) =
      nodesFrom entries id front ++ nodesFrom entries (id + front.length) rest := by
  induction front generalizing id with
  | nil => rfl
  | cons e front ih =>
      rw [List.cons_append, nodesFrom, nodesFrom, ih, List.cons_append, List.length_cons,
        show id + 1 + front.length = id + (front.length + 1) by omega]

theorem nodes_tree (d : Draft α) : d.tree.nodes = (nodesFrom d.entries 0 d.entries.toList).toArray := by
  have hlist : ∀ (l : List (Entry α)) (start : Nat),
      l.mapIdx (fun i e => (⟨start + i, resolve d.entries e.kind, e.line,
        childrenOf d.entries (start + i)⟩ : Node α)) = nodesFrom d.entries start l := by
    intro l
    induction l with
    | nil => exact fun _ => rfl
    | cons e rest ih =>
        intro start
        rw [List.mapIdx_cons, nodesFrom, ← ih (start + 1)]
        simp only [Nat.add_zero, Nat.add_assoc, Nat.add_comm 1]
  have hall := hlist d.entries.toList 0
  simp only [Nat.zero_add] at hall
  apply Array.ext'
  rw [tree, Array.toList_mapIdx, ← hall]

end Draft

namespace Beats

-- Beats hang under the node that they are given, or under each other.
theorem parent_of_mem_entries {beats : Beats args} {m : Margin} {level parent id line : Nat}
    {e : Entry α} (h : e ∈ beats.entries m level parent id line) :
    ∃ q : Nat, e.parent = some q ∧ (q = parent ∨ id ≤ q ∧ q < id + beats.size) := by
  induction beats generalizing level parent id line with
  | nil => cases h
  | cons beat below rest ihbelow ihrest =>
      rw [entries, List.mem_cons, List.mem_append] at h
      rw [size]
      rcases h with rfl | hmem | hmem
      · exact ⟨parent, rfl, .inl rfl⟩
      · obtain ⟨q, hq, hplace⟩ := ihbelow hmem
        exact ⟨q, hq, .inr (by omega)⟩
      · obtain ⟨q, hq, hplace⟩ := ihrest hmem
        exact ⟨q, hq, by omega⟩

theorem childrenFrom_eq_nil (beats : Beats args) {m : Margin} {level parent id line q : Nat}
    (hparent : q ≠ parent) (hplace : q < id ∨ id + beats.size ≤ q) (start : Nat) :
    Draft.childrenFrom q start (beats.entries m level parent id line) = [] := by
  apply Draft.childrenFrom_eq_nil
  intro e he hq
  obtain ⟨p, hp, hcases⟩ := parent_of_mem_entries he
  have hpq : p = q := Option.some.inj (hp.symm.trans hq)
  omega

-- The beats at the top are the children of the node that all of them are below.
theorem childrenFrom_parent (beats : Beats args) (m : Margin) (level : Nat) {parent id : Nat}
    (line : Nat) (h : parent < id) :
    Draft.childrenFrom parent id (beats.entries m level parent id line) = beats.ids id := by
  induction beats generalizing id line with
  | nil => rfl
  | cons beat below rest _ ihrest =>
      rw [entries, Draft.childrenFrom, if_pos rfl, Draft.childrenFrom_append, length_entries,
        below.childrenFrom_eq_nil (by omega) (by omega), List.nil_append, ihrest _ (by omega), ids]

-- Nodes of beats, when the children of each of them are found among the beats
theorem nodesFrom_entries {entries : Array (Entry α)} {destination : Text → Option NodeId}
    (hdestination : ∀ name ≠ [], Draft.findScope? entries name = destination name)
    (beats : Beats args) (m : Margin) (level : Nat) {parent id : Nat} (line : Nat) (h : parent < id)
    (hchildren : ∀ q, id ≤ q → q < id + beats.size → Draft.childrenOf entries q =
      Draft.childrenFrom q id (beats.entries m level parent id line)) :
    Draft.nodesFrom entries id (beats.entries m level parent id line) =
      beats.nodes destination id line := by
  induction beats generalizing level parent id line with
  | nil => rfl
  | cons beat below rest ihbelow ihrest =>
      have hkind : Draft.resolve entries (beat.kind fun _ => none) = beat.kind destination := by
        cases beat with
        | goTo target => exact congrArg (NodeKind.goTo target.text) (hdestination _ target.ne_nil)
        | _ => rfl
      rw [size] at hchildren
      -- a node looks for its children below it
      have hsplit : ∀ q, id ≤ q → q < id + (1 + below.size + rest.size) →
          Draft.childrenOf entries q =
            Draft.childrenFrom q (id + 1) (below.entries m (level + 1) id (id + 1) (line + 1)) ++
              Draft.childrenFrom q (id + 1 + below.size) (rest.entries m level parent
                (id + 1 + below.size) (line + 1 + below.size)) := by
        intro q hle hlt
        have hne : (some parent : Option Nat) ≠ some q := by
          intro he
          have hq : parent = q := Option.some.inj he
          omega
        rw [hchildren q hle hlt, Beats.entries, Draft.childrenFrom, if_neg hne,
          Draft.childrenFrom_append, length_entries]
      have hself : Draft.childrenOf entries id = below.ids (id + 1) := by
        rw [hsplit id (Nat.le_refl id) (by omega), childrenFrom_parent _ _ _ _ (Nat.lt_succ_self id),
          rest.childrenFrom_eq_nil (by omega) (by omega), List.append_nil]
      rw [Beats.entries, Draft.nodesFrom, hkind, hself, Draft.nodesFrom_append, length_entries, nodes,
        ihbelow _ _ (Nat.lt_succ_self id), ihrest _ _ (by omega)]
      · intro q hle hlt
        rw [hsplit q (by omega) (by omega), below.childrenFrom_eq_nil (by omega) (by omega),
          List.nil_append]
      · intro q hle hlt
        rw [hsplit q (by omega) (by omega), rest.childrenFrom_eq_nil (by omega) (by omega),
          List.append_nil]

-- A scope and the beats in it
theorem nodesFrom_scope {entries : Array (Entry α)} {destination : Text → Option NodeId}
    (hdestination : ∀ name ≠ [], Draft.findScope? entries name = destination name)
    (beats : Beats args) (m : Margin) (id line first : Nat) (name raw : Text)
    (hchildren : ∀ q, id ≤ q → q < id + 1 + beats.size → Draft.childrenOf entries q =
      Draft.childrenFrom q id (⟨.scope name, line, raw, none⟩ :: beats.entries m 0 id (id + 1) first)) :
    Draft.nodesFrom entries id
        (⟨.scope name, line, raw, none⟩ :: beats.entries m 0 id (id + 1) first) =
      ⟨id, .scope name, line, beats.ids (id + 1)⟩ :: beats.nodes destination (id + 1) first := by
  have hinner : ∀ q, id ≤ q → q < id + 1 + beats.size → Draft.childrenOf entries q =
      Draft.childrenFrom q (id + 1) (beats.entries m 0 id (id + 1) first) := by
    intro q hle hlt
    rw [hchildren q hle hlt, Draft.childrenFrom, if_neg (by simp)]
  rw [Draft.nodesFrom, hinner id (Nat.le_refl id) (by omega),
    beats.childrenFrom_parent m 0 first (Nat.lt_succ_self id),
    nodesFrom_entries hdestination beats m 0 first (Nat.lt_succ_self id)]
  · rfl
  · exact fun q hle hlt => hinner q (by omega) hlt

-- Only the scope and its beats have children there.
theorem childrenFrom_scope_eq_nil (beats : Beats args) (m : Margin) {id first q : Nat} (line : Nat)
    (name raw : Text) (hplace : q < id ∨ id + 1 + beats.size ≤ q) (start : Nat) :
    Draft.childrenFrom q start
      (⟨.scope name, line, raw, none⟩ :: beats.entries m 0 id (id + 1) first) = [] := by
  rw [Draft.childrenFrom, if_neg (by simp)]
  exact beats.childrenFrom_eq_nil (by omega) (by omega) (start + 1)

end Beats

namespace Chapter

theorem childrenFrom_eq_nil (m : Margin) {id line q : Nat} (chapters : List (Chapter args))
    (hplace : q < id) (start : Nat) :
    Draft.childrenFrom q start (entries m id line chapters) = [] := by
  induction chapters generalizing id line start with
  | nil => rfl
  | cons c rest ih =>
      rw [entries, ← List.cons_append, Draft.childrenFrom_append,
        c.beats.childrenFrom_scope_eq_nil m line _ _ (.inl hplace), List.nil_append]
      exact ih (by omega) _

theorem nodesFrom_entries {all : Array (Entry α)} {destination : Text → Option NodeId}
    (hdestination : ∀ name ≠ [], Draft.findScope? all name = destination name) (m : Margin)
    (id line : Nat) (chapters : List (Chapter args))
    (hchildren : ∀ q, id ≤ q →
      Draft.childrenOf all q = Draft.childrenFrom q id (entries m id line chapters)) :
    Draft.nodesFrom all id (entries m id line chapters) = nodes destination id line chapters := by
  induction chapters generalizing id line with
  | nil => rfl
  | cons c rest ih =>
      have hsplit : ∀ q, id ≤ q → Draft.childrenOf all q =
          Draft.childrenFrom q id
            (⟨.scope c.name.text, line, c.header, none⟩ :: c.beats.entries m 0 id (id + 1) (line + 1)) ++
          Draft.childrenFrom q (id + 1 + c.beats.size)
            (entries m (id + 1 + c.beats.size) (line + 1 + c.beats.size) rest) := by
        intro q hle
        rw [hchildren q hle, entries, ← List.cons_append, Draft.childrenFrom_append, List.length_cons,
          Beats.length_entries, show id + (c.beats.size + 1) = id + 1 + c.beats.size by omega]
      rw [entries, ← List.cons_append, Draft.nodesFrom_append, List.length_cons, Beats.length_entries,
        show id + (c.beats.size + 1) = id + 1 + c.beats.size by omega,
        c.beats.nodesFrom_scope hdestination, nodes, List.cons_append, ih]
      · intro q hle
        rw [hsplit q (by omega), c.beats.childrenFrom_scope_eq_nil m line _ _ (.inr hle),
          List.nil_append]
      · intro q hle hlt
        rw [hsplit q hle, childrenFrom_eq_nil m rest hlt, List.append_nil]

end Chapter

end Narrative
