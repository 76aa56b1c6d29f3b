import Mathlib.Data.List.Sort
import Mathlib.Logic.Relation
import Narrative.Proofs.Script.Spine

namespace Narrative

variable {α : Type} {isGate : α → Bool}

namespace Tree

-- Depth-first order of the nodes below a list of nodes: a node, then all that is below
-- its children, then what is below its next siblings
inductive Traverses (t : Tree α) : List NodeId → List NodeId → Prop
  | nil : Traverses t [] []
  | cons {id : NodeId} {ids inner rest : List NodeId} (hinner : Traverses t (t.children id) inner)
      (hrest : Traverses t ids rest) : Traverses t (id :: ids) (id :: inner ++ rest)

theorem Traverses.unique {t : Tree α} {ids order other : List NodeId} (h : t.Traverses ids order)
    (h' : t.Traverses ids other) : order = other := by
  induction h generalizing other with
  | nil =>
      cases h'
      rfl
  | cons _ _ ihinner ihrest =>
      cases h' with
      | cons hinner hrest => rw [ihinner hinner, ihrest hrest]

def scopeIds (t : Tree α) : List NodeId := (List.range t.nodes.size).filter t.isScope

-- A document forest: one tree for each scope, numbered in the order of the text, and a
-- table of the named scopes.
structure WellFormed (isGate : α → Bool) (t : Tree α) : Prop where
  id_eq : ∀ {id : Nat} {node : Node α}, t.get? id = some node → node.id = id
  root_eq : t.root = 0
  isScope_root : t.isScope t.root = true
  -- scopes are no children, and all else is a child once
  count_children : ∀ id : Nat, id < t.nodes.size →
    (t.nodes.toList.flatMap (·.children)).count id = if t.isScope id then 0 else 1
  children_sorted : ∀ {id : Nat} {node : Node α}, t.get? id = some node →
    node.children.Pairwise (· < ·)
  child_between : ∀ {id child : Nat} {node : Node α}, t.get? id = some node →
    child ∈ node.children → id < child ∧ child < t.nodes.size
  canOwn_of_children : ∀ {id : Nat} {node : Node α}, t.get? id = some node → node.children ≠ [] →
    node.kind.canOwn isGate = true
  traverses : t.Traverses t.scopeIds (List.range t.nodes.size)
  mem_scopes_iff : ∀ {name : Text} {id : Nat}, (name, id) ∈ t.scopes ↔
    name ≠ [] ∧ ∃ node, t.get? id = some node ∧ node.kind = .scope name
  scopes_distinct : t.scopes.Pairwise fun a b => a.1 ≠ b.1 ∧ a.2 ≠ b.2
  scope?_eq_some_iff : ∀ {name : Text} {id : Nat}, t.scope? name = some id ↔ (name, id) ∈ t.scopes
  anonymous : ∀ {id : Nat} {node : Node α}, t.get? id = some node → node.kind = .scope [] →
    id = t.root

end Tree

namespace Draft

-- All nodes that hang under a node, the node first
def below (entries : Array (Entry α)) (id : Nat) : List Nat :=
  (List.range entries.size).filter fun k => id ∈ path entries k

theorem mem_below {entries : Array (Entry α)} {id k : Nat} :
    k ∈ below entries id ↔ k < entries.size ∧ id ∈ path entries k := by
  simp only [below, List.mem_filter, List.mem_range, decide_eq_true_eq]

theorem below_sorted (entries : Array (Entry α)) (id : Nat) :
    (below entries id).Pairwise (· < ·) :=
  List.Pairwise.filter _ List.pairwise_lt_range

-- A path reaches a node at its start or through one of the node's children.
theorem eq_or_child_mem_path {entries : Array (Entry α)} {id k : Nat} (h : id ∈ path entries k) :
    k = id ∨ ∃ c, parent? entries c = some id ∧ c ∈ path entries k := by
  induction k using Nat.strongRecOn with
  | ind k ih =>
      rcases path_cases entries k with hp | ⟨p, hparent, hlt, hp⟩
      · rw [hp, List.mem_singleton] at h
        exact .inl h.symm
      · rw [hp] at h ⊢
        rcases List.mem_cons.1 h with rfl | hmem
        · exact .inl rfl
        · right
          rcases ih p hlt hmem with rfl | ⟨c, hc, hpath⟩
          · exact ⟨k, hparent, List.mem_cons_self⟩
          · exact ⟨c, hc, List.mem_cons_of_mem _ hpath⟩

namespace Nested

variable {entries : Array (Entry α)}

-- A later node that hangs under another one is not above it.
theorem lt_of_below (h : Nested isGate entries) {a b x y : Nat} (hab : a < b)
    (hb : a ∉ path entries b) (hx : x ∈ below entries a) (hy : y ∈ below entries b) : x < y := by
  obtain ⟨-, hx⟩ := mem_below.1 hx
  obtain ⟨-, hy⟩ := mem_below.1 hy
  by_contra hle
  exact hb (h.mem_path_between hx hab.le ((le_of_mem_path hy).trans (by omega)))

theorem not_mem_path_sibling (h : Nested isGate entries) {p a b : Nat} (ha : parent? entries a = some p)
    (hb : parent? entries b = some p) (hab : a < b) : a ∉ path entries b := by
  intro hmem
  rw [h.path_eq hb] at hmem
  rcases List.mem_cons.1 hmem with rfl | hmem
  · omega
  · have hle := le_of_mem_path hmem
    have hlt := (h.owner ha).1
    omega

theorem below_eq (h : Nested isGate entries) {id : Nat} (hid : id < entries.size) :
    below entries id = id :: (childrenOf entries id).flatMap (below entries) := by
  have hchild : ∀ {c k : Nat}, c ∈ childrenOf entries id → k ∈ below entries c → id < k := by
    intro c k hc hk
    have hlt := (h.owner (mem_childrenOf.1 hc)).1
    have hle := le_of_mem_path (mem_below.1 hk).2
    omega
  -- both sides are sorted and have the same members
  apply List.Pairwise.eq_of_mem_iff (below_sorted entries id)
  · rw [List.pairwise_cons, List.pairwise_flatMap]
    refine ⟨?_, fun c _ => below_sorted entries c, ?_⟩
    · intro k hk
      obtain ⟨c, hc, hk⟩ := List.mem_flatMap.1 hk
      exact hchild hc hk
    · apply (childrenOf_sorted entries id).imp_of_mem
      intro a b ha hb hab x hx y hy
      exact h.lt_of_below hab
        (h.not_mem_path_sibling (mem_childrenOf.1 ha) (mem_childrenOf.1 hb) hab) hx hy
  · intro k
    rw [List.mem_cons, List.mem_flatMap]
    constructor
    · intro hk
      obtain ⟨hk, hpath⟩ := mem_below.1 hk
      rcases eq_or_child_mem_path hpath with rfl | ⟨c, hc, hmem⟩
      · exact .inl rfl
      · exact .inr ⟨c, mem_childrenOf.2 hc, mem_below.2 ⟨hk, hmem⟩⟩
    · rintro (rfl | ⟨c, hc, hk⟩)
      · exact mem_below.2 ⟨hid, self_mem_path entries _⟩
      · obtain ⟨hk, hpath⟩ := mem_below.1 hk
        refine mem_below.2 ⟨hk, (path_suffix_of_mem hpath).subset ?_⟩
        rw [h.path_eq (mem_childrenOf.1 hc)]
        exact List.mem_cons_of_mem _ (self_mem_path entries id)

-- Every node hangs under one scope, and the scopes follow each other.
theorem range_eq_flatMap_below (h : Nested isGate entries) :
    List.range entries.size =
      ((List.range entries.size).filter fun id => (parent? entries id).isNone).flatMap
        (below entries) := by
  apply List.Pairwise.eq_of_mem_iff List.pairwise_lt_range
  · rw [List.pairwise_flatMap]
    refine ⟨fun id _ => below_sorted entries id, ?_⟩
    apply (List.Pairwise.filter _ List.pairwise_lt_range).imp_of_mem
    intro a b _ hb hab x hx y hy
    have hnone : parent? entries b = none := by simpa using (List.mem_filter.1 hb).2
    refine h.lt_of_below hab ?_ hx hy
    rw [path_of_none hnone, List.mem_singleton]
    omega
  · intro k
    rw [List.mem_flatMap, List.mem_range]
    constructor
    · intro hk
      induction k using Nat.strongRecOn with
      | ind k ih =>
          cases hparent : parent? entries k with
          | none =>
              exact ⟨k, List.mem_filter.2 ⟨List.mem_range.2 hk, by simp [hparent]⟩,
                mem_below.2 ⟨hk, self_mem_path entries k⟩⟩
          | some p =>
              have hlt := (h.owner hparent).1
              obtain ⟨id, hid, hp⟩ := ih p hlt (by omega)
              refine ⟨id, hid, mem_below.2 ⟨hk, ?_⟩⟩
              rw [h.path_eq hparent]
              exact List.mem_cons_of_mem _ (mem_below.1 hp).2
    · rintro ⟨id, -, hk⟩
      exact (mem_below.1 hk).1

end Nested

section Tree

variable {d : Draft α}

@[simp] theorem isScope_resolve (entries : Array (Entry α)) (kind : NodeKind α) :
    (resolve entries kind).isScope = kind.isScope := by
  cases kind <;> rfl

@[simp] theorem canOwn_resolve (entries : Array (Entry α)) (kind : NodeKind α) :
    (resolve entries kind).canOwn isGate = kind.canOwn isGate := by
  cases kind <;> rfl

theorem resolve_eq_scope_iff {entries : Array (Entry α)} {kind : NodeKind α} {name : Text} :
    resolve entries kind = .scope name ↔ kind = .scope name := by
  cases kind <;> simp [resolve]

theorem resolve_eq_goTo_iff {entries : Array (Entry α)} {kind : NodeKind α} {target : Text}
    {destination : Option NodeId} :
    resolve entries kind = .goTo target destination ↔
      (∃ written, kind = .goTo target written) ∧ destination = findScope? entries target := by
  cases kind with
  | goTo name written =>
      simp only [resolve, NodeKind.goTo.injEq]
      constructor
      · rintro ⟨rfl, rfl⟩
        exact ⟨⟨written, rfl, rfl⟩, rfl⟩
      · rintro ⟨⟨other, rfl, rfl⟩, rfl⟩
        exact ⟨rfl, rfl⟩
  | _ => simp [resolve]

@[simp] theorem size_tree (d : Draft α) : d.tree.nodes.size = d.entries.size := by
  simp [tree]

theorem get?_tree (d : Draft α) (id : Nat) :
    d.tree.get? id = d.entries[id]?.map fun e =>
      ⟨id, resolve d.entries e.kind, e.line, childrenOf d.entries id⟩ := by
  simp only [Tree.get?, tree, Array.getElem?_mapIdx]

theorem get?_tree_eq_some_iff {id : Nat} {node : Node α} :
    d.tree.get? id = some node ↔ ∃ e, d.entries[id]? = some e ∧
      node = ⟨id, resolve d.entries e.kind, e.line, childrenOf d.entries id⟩ := by
  rw [get?_tree, Option.map_eq_some_iff]
  simp only [eq_comm]

theorem childrenOf_eq_nil {entries : Array (Entry α)} (h : Nested isGate entries) {id : Nat}
    (hid : entries[id]? = none) : childrenOf entries id = [] := by
  rw [List.eq_nil_iff_forall_not_mem]
  intro c hc
  obtain ⟨-, -, o, ho, -⟩ := h.owner (mem_childrenOf.1 hc)
  rw [hid] at ho
  cases ho

theorem children_tree (h : Nested isGate d.entries) (id : Nat) :
    d.tree.children id = childrenOf d.entries id := by
  rw [Tree.children, get?_tree]
  cases hid : d.entries[id]? with
  | none => exact (childrenOf_eq_nil h hid).symm
  | some e => rfl

theorem isScope_tree (d : Draft α) (id : Nat) :
    d.tree.isScope id = d.entries[id]?.any (·.kind.isScope) := by
  rw [Tree.isScope, get?_tree]
  cases d.entries[id]? <;> simp

theorem isScope_tree_iff (h : Nested isGate d.entries) {id : Nat} (hid : id < d.entries.size) :
    d.tree.isScope id = (parent? d.entries id).isNone := by
  have he := Array.getElem?_eq_getElem hid
  rw [isScope_tree, he, Option.any_some, Bool.eq_iff_iff, Option.isNone_iff_eq_none,
    h.parent?_eq_none_iff he]

theorem scopeIds_tree (h : Nested isGate d.entries) :
    d.tree.scopeIds = (List.range d.entries.size).filter fun id => (parent? d.entries id).isNone := by
  rw [Tree.scopeIds, size_tree]
  apply List.filter_congr
  intro id hid
  exact isScope_tree_iff h (List.mem_range.1 hid)

theorem traverses_flatMap_below {ids : List Nat}
    (h : ∀ id ∈ ids, ∃ inner, d.tree.Traverses (d.tree.children id) inner ∧
      below d.entries id = id :: inner) :
    d.tree.Traverses ids (ids.flatMap (below d.entries)) := by
  induction ids with
  | nil => exact .nil
  | cons id ids ih =>
      obtain ⟨inner, hinner, hbelow⟩ := h id List.mem_cons_self
      rw [List.flatMap_cons, hbelow]
      exact .cons hinner (ih fun id hid => h id (List.mem_cons_of_mem _ hid))

theorem traverses_children (h : Nested isGate d.entries) (id : Nat) (hid : id < d.entries.size) :
    d.tree.Traverses (d.tree.children id) ((childrenOf d.entries id).flatMap (below d.entries)) := by
  -- children come later, so that the rest of the arena gets shorter
  induction hn : d.entries.size - id using Nat.strongRecOn generalizing id with
  | ind n ih =>
      rw [children_tree h]
      apply traverses_flatMap_below
      intro c hc
      have hlt := (h.owner (mem_childrenOf.1 hc)).1
      obtain ⟨e, he, -⟩ := parent?_eq_some_iff.1 (mem_childrenOf.1 hc)
      have hsize := (Array.getElem?_eq_some_iff.1 he).1
      exact ⟨_, ih (d.entries.size - c) (by omega) c hsize rfl, h.below_eq hsize⟩

theorem traverses_tree (h : Nested isGate d.entries) :
    d.tree.Traverses d.tree.scopeIds (List.range d.tree.nodes.size) := by
  rw [scopeIds_tree h, size_tree]
  have hscopes : ∀ id ∈ (List.range d.entries.size).filter fun id => (parent? d.entries id).isNone,
      ∃ inner, d.tree.Traverses (d.tree.children id) inner ∧ below d.entries id = id :: inner := by
    intro id hid
    have hlt := List.mem_range.1 (List.mem_filter.1 hid).1
    exact ⟨_, traverses_children h id hlt, h.below_eq hlt⟩
  have hall := traverses_flatMap_below hscopes
  rwa [← h.range_eq_flatMap_below] at hall

theorem flatMap_children_tree (d : Draft α) :
    d.tree.nodes.toList.flatMap (·.children) =
      (List.range d.entries.size).flatMap (childrenOf d.entries) := by
  have hmap : d.tree.nodes.toList.map (·.children) =
      (List.range d.entries.size).map (childrenOf d.entries) := by
    apply List.ext_getElem
    · simp
    · intro i hi _
      simp [tree]
  rw [List.flatMap_def, List.flatMap_def, hmap]

theorem count_children_tree (h : Nested isGate d.entries) {id : Nat} (hid : id < d.entries.size) :
    (d.tree.nodes.toList.flatMap (·.children)).count id = if d.tree.isScope id then 0 else 1 := by
  rw [flatMap_children_tree, isScope_tree_iff h hid]
  cases hparent : parent? d.entries id with
  | none =>
      apply List.count_eq_zero.2
      rw [List.mem_flatMap]
      rintro ⟨p, -, hc⟩
      rw [mem_childrenOf, hparent] at hc
      cases hc
  | some p =>
      apply List.count_eq_one_of_mem
      · rw [List.nodup_flatMap]
        refine ⟨fun p _ => (childrenOf_sorted d.entries p).imp Nat.ne_of_lt, ?_⟩
        apply List.pairwise_lt_range.imp
        intro a b hab c ha hb
        have he := (mem_childrenOf.1 ha).symm.trans (mem_childrenOf.1 hb)
        cases he
        exact Nat.lt_irrefl _ hab
      · obtain ⟨-, -, o, ho, -⟩ := h.owner hparent
        have hp := (Array.getElem?_eq_some_iff.1 ho).1
        exact List.mem_flatMap.2 ⟨p, List.mem_range.2 hp, mem_childrenOf.2 hparent⟩

end Tree

end Draft

end Narrative
