import Narrative.Proofs.Script.Forest

namespace Narrative

variable {α : Type} {isGate : α → Bool}

namespace Tree

theorem namedScope?_eq_some_iff {node : Node α} {name : Text} {id : Nat} :
    namedScope? node = some (name, id) ↔ name ≠ [] ∧ node.kind = .scope name ∧ node.id = id := by
  unfold namedScope?
  cases node.kind with
  | scope other =>
      by_cases h : other = []
      · simp only [if_pos h, reduceCtorEq, NodeKind.scope.injEq, false_iff]
        rintro ⟨hname, rfl, -⟩
        exact hname h
      · simp only [if_neg h, Option.some.injEq, Prod.mk.injEq, NodeKind.scope.injEq]
        constructor
        · rintro ⟨rfl, rfl⟩
          exact ⟨h, rfl, rfl⟩
        · rintro ⟨-, rfl, rfl⟩
          exact ⟨rfl, rfl⟩
  | _ => simp

theorem lookup_eq_some_iff_of_distinct {table : List (Text × NodeId)}
    (h : table.Pairwise fun a b => a.1 ≠ b.1) {name : Text} {id : Nat} :
    table.lookup name = some id ↔ (name, id) ∈ table := by
  induction table with
  | nil => simp
  | cons head table ih =>
      obtain ⟨hhead, htable⟩ := List.pairwise_cons.1 h
      rw [List.lookup_cons, List.mem_cons]
      by_cases he : name = head.1
      · subst he
        simp only [BEq.rfl, Option.some.injEq]
        constructor
        · rintro rfl
          exact .inl rfl
        · rintro (he | hmem)
          · exact (congrArg Prod.snd he).symm
          · exact absurd rfl (hhead (head.1, id) hmem)
      · rw [beq_eq_false_iff_ne.2 he]
        simp only [ih htable]
        constructor
        · exact .inr
        · rintro (he' | hmem)
          · exact absurd (congrArg Prod.fst he') he
          · exact hmem

end Tree

namespace Draft

variable {d : Draft α}

theorem kind_tree_eq_scope_iff {id : Nat} {name : Text} :
    (∃ node, d.tree.get? id = some node ∧ node.kind = .scope name) ↔
      ∃ e, d.entries[id]? = some e ∧ e.kind = .scope name := by
  constructor
  · rintro ⟨node, hnode, hkind⟩
    obtain ⟨e, he, rfl⟩ := get?_tree_eq_some_iff.1 hnode
    exact ⟨e, he, resolve_eq_scope_iff.1 hkind⟩
  · rintro ⟨e, he, hkind⟩
    exact ⟨_, get?_tree_eq_some_iff.2 ⟨e, he, rfl⟩, resolve_eq_scope_iff.2 hkind⟩

theorem mem_scopes_tree {name : Text} {id : Nat} :
    (name, id) ∈ d.tree.scopes ↔
      name ≠ [] ∧ ∃ node, d.tree.get? id = some node ∧ node.kind = .scope name := by
  simp only [Tree.scopes, List.mem_filterMap, Tree.namedScope?_eq_some_iff]
  constructor
  · rintro ⟨node, hmem, hname, hkind, hid⟩
    obtain ⟨i, hi⟩ := Array.mem_iff_getElem?.1 (Array.mem_toList_iff.1 hmem)
    obtain ⟨e, -, rfl⟩ := get?_tree_eq_some_iff.1 hi
    obtain rfl : i = id := hid
    exact ⟨hname, _, hi, hkind⟩
  · rintro ⟨hname, node, hnode, hkind⟩
    refine ⟨node, Array.mem_toList_iff.2 (Array.mem_of_getElem? hnode), hname, hkind, ?_⟩
    obtain ⟨e, -, rfl⟩ := get?_tree_eq_some_iff.1 hnode
    rfl

theorem scopes_tree_distinct (h : Named d.entries) :
    d.tree.scopes.Pairwise fun a b => a.1 ≠ b.1 ∧ a.2 ≠ b.2 := by
  rw [Tree.scopes, List.pairwise_filterMap, List.pairwise_iff_getElem]
  rintro i j hi hj hij ⟨a, m⟩ ha ⟨b, n⟩ hb
  obtain ⟨-, hakind, hm⟩ := Tree.namedScope?_eq_some_iff.1 ha
  obtain ⟨-, hbkind, hn⟩ := Tree.namedScope?_eq_some_iff.1 hb
  rw [Array.length_toList, size_tree] at hi hj
  simp only [tree, Array.getElem_toList, Array.getElem_mapIdx, resolve_eq_scope_iff] at hakind hbkind hm hn
  subst hm hn
  refine ⟨?_, Nat.ne_of_lt hij⟩
  rintro rfl
  exact Nat.ne_of_lt hij
    (h.unique (Array.getElem?_eq_getElem hi) (Array.getElem?_eq_getElem hj) hakind hbkind)

theorem Sound.wellFormed (h : Sound isGate d) (hspine : d.spine ≠ none) :
    d.tree.WellFormed isGate where
  id_eq := by
    intro id node hnode
    obtain ⟨e, -, rfl⟩ := get?_tree_eq_some_iff.1 hnode
    rfl
  root_eq := rfl
  isScope_root := by
    -- the first node has no node in front to hang under
    obtain ⟨s, hs⟩ := Option.ne_none_iff_exists'.1 hspine
    obtain ⟨e, he, -⟩ := (h.tracks hs).scope
    have hsize : 0 < d.entries.size := Nat.zero_lt_of_lt (Array.getElem?_eq_some_iff.1 he).1
    rw [show d.tree.root = 0 from rfl, isScope_tree_iff h.nested hsize, Option.isNone_iff_eq_none]
    by_contra hparent
    obtain ⟨p, hp⟩ := Option.ne_none_iff_exists'.1 hparent
    exact Nat.not_lt_zero _ (h.nested.owner hp).1
  count_children := fun id hid => count_children_tree h.nested (by rwa [size_tree] at hid)
  children_sorted := by
    intro id node hnode
    obtain ⟨e, -, rfl⟩ := get?_tree_eq_some_iff.1 hnode
    exact childrenOf_sorted d.entries id
  child_between := by
    intro id child node hnode hchild
    obtain ⟨e, -, rfl⟩ := get?_tree_eq_some_iff.1 hnode
    have hparent := mem_childrenOf.1 hchild
    obtain ⟨e', he', -⟩ := parent?_eq_some_iff.1 hparent
    rw [size_tree]
    exact ⟨(h.nested.owner hparent).1, (Array.getElem?_eq_some_iff.1 he').1⟩
  canOwn_of_children := by
    intro id node hnode hchildren
    obtain ⟨e, he, rfl⟩ := get?_tree_eq_some_iff.1 hnode
    obtain ⟨c, hc⟩ := List.exists_mem_of_ne_nil _ hchildren
    obtain ⟨-, -, o, ho, hown⟩ := h.nested.owner (mem_childrenOf.1 hc)
    cases he.symm.trans ho
    rw [canOwn_resolve]
    exact hown
  traverses := traverses_tree h.nested
  mem_scopes_iff := mem_scopes_tree
  scopes_distinct := scopes_tree_distinct h.named
  scope?_eq_some_iff :=
    Tree.lookup_eq_some_iff_of_distinct ((scopes_tree_distinct h.named).imp fun hab => hab.1)
  anonymous := by
    intro id node hnode hkind
    obtain ⟨e, he, hkind⟩ := kind_tree_eq_scope_iff.1 ⟨node, hnode, hkind⟩
    exact h.named.anonymous he hkind

theorem sound_of_readLines {document : Template α} {options : ParseOptions} {lines : List Text}
    {d : Draft α} {issues : List Issue}
    (h : readLines isGate document options .empty 0 lines = (issues, .ok d)) : Sound isGate d :=
  readLines_induction isGate document options (P := fun _ _ d => Sound isGate d) .empty
    (fun _ _ _ _ _ _ hd hreads => hreads.sound hd) h

end Draft

-- A tree that is read is the tree of the draft that its lines leave.
theorem parse_eq_ok_iff {document : Template α} {options : ParseOptions} {issues : List Issue}
    {tree : Tree α} :
    parse isGate document options = (issues, .ok tree) ↔
      ∃ found d, Draft.readLines isGate document options .empty 0 (Text.lines document.format) =
          (found, .ok d) ∧
        issues = found ++ d.closed.entries.toList.filterMap (Draft.unknownScope? d.closed.entries) ∧
        tree = d.closed.tree := by
  unfold parse
  rcases Draft.readLines isGate document options .empty 0 (Text.lines document.format) with
    ⟨found, e | d⟩
  · simp
  · simp only [Prod.mk.injEq, Except.ok.injEq]
    constructor
    · rintro ⟨rfl, rfl⟩
      exact ⟨found, d, ⟨rfl, rfl⟩, rfl, rfl⟩
    · rintro ⟨found', d', ⟨rfl, rfl⟩, rfl, rfl⟩
      exact ⟨rfl, rfl⟩

theorem wellFormed_of_parse {document : Template α} {options : ParseOptions} {issues : List Issue}
    {tree : Tree α} (h : parse isGate document options = (issues, .ok tree)) :
    tree.WellFormed isGate := by
  obtain ⟨found, d, hd, -, rfl⟩ := parse_eq_ok_iff.1 h
  apply ((Draft.sound_of_readLines hd).withScope 0 []).wellFormed
  obtain ⟨s, hs⟩ := d.exists_spine_withScope 0 []
  simp [hs]

end Narrative
