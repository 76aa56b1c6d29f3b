import Narrative.Proofs.Script.Arena

namespace Narrative

variable {α : Type}

namespace Node

-- A go-to with where it leads, once the table of the scopes is known
def led (scopes : List (Text × NodeId)) (node : Node α) : Node α :=
  match node.kind with
  | .goTo target destination =>
    { node with kind := .goTo target ((scopes.lookup target).or destination) }
  | _ => node

-- What is reported for a node then, with the text of its line
def missed (scopes : List (Text × NodeId)) (raw : Text) (node : Node α) : List Issue :=
  match node.kind with
  | .goTo target _ =>
    if (scopes.lookup target).isNone then [.ofFault node.line raw (.unknownScope target)] else []
  | _ => []

theorem led_of_not_isGoTo (scopes : List (Text × NodeId)) {node : Node α}
    (h : ¬ node.kind.isGoTo = true) : node.led scopes = node := by
  obtain ⟨id, kind, line, children⟩ := node
  cases kind with
  | goTo target destination => exact absurd rfl h
  | _ => rfl

theorem led_led (scopes : List (Text × NodeId)) (node : Node α) :
    (node.led scopes).led scopes = node.led scopes := by
  obtain ⟨id, kind, line, children⟩ := node
  cases kind with
  | goTo target destination =>
      simp only [led]
      cases scopes.lookup target <;> rfl
  | _ => rfl

theorem missed_led (scopes : List (Text × NodeId)) (raw : Text) (node : Node α) :
    (node.led scopes).missed scopes raw = node.missed scopes raw := by
  obtain ⟨id, kind, line, children⟩ := node
  cases kind <;> rfl

end Node

namespace Arena

theorem modify_congr {β : Type} {xs : Array β} {i : Nat} {f g : β → β}
    (h : ∀ x, xs[i]? = some x → f x = g x) : xs.modify i f = xs.modify i g := by
  apply Array.ext_getElem?
  intro j
  rw [Array.getElem?_modify, Array.getElem?_modify]
  split
  · next hij =>
    subst hij
    exact Option.map_congr h
  · rfl

theorem modify_id {β : Type} (xs : Array β) (i : Nat) : xs.modify i id = xs := by
  apply Array.ext_getElem?
  intro j
  rw [Array.getElem?_modify, Option.map_id, id, ite_self]

-- Resolving is one change at the node of the go-to, which does nothing to any other node and
-- nothing to a go-to that leads nowhere.
theorem resolve_eq (a : Arena α) (goTo : NodeId × Text) :
    a.resolve goTo =
      ((a.nodes[goTo.1]?.map (Node.missed a.scopes goTo.2)).getD [],
        { a with nodes := a.nodes.modify goTo.1 (Node.led a.scopes) }) := by
  have hkeep (h : ∀ node, a.nodes[goTo.1]? = some node → node.led a.scopes = node) :
      { a with nodes := a.nodes.modify goTo.1 (Node.led a.scopes) } = a := by
    rw [modify_congr (g := id) h, modify_id]
  unfold resolve
  split
  · next id target destination line children hnode =>
    simp only [hnode, Option.map_some, Option.getD_some, Node.missed]
    cases hscope : a.scopes.lookup target with
    | some scope =>
        have hled : a.nodes.modify goTo.1 (Node.led a.scopes) =
            a.nodes.modify goTo.1 fun node => { node with kind := .goTo target (some scope) } := by
          apply modify_congr
          intro node hnode'
          cases hnode.symm.trans hnode'
          simp only [Node.led, hscope, Option.some_or]
        rw [hled]
        rfl
    | none =>
        rw [hkeep]
        · rfl
        · intro node hnode'
          cases hnode.symm.trans hnode'
          simp only [Node.led, hscope, Option.none_or]
  · next hother =>
    -- only go-tos are led somewhere or reported
    have hplain (node : Node α) (hnode : a.nodes[goTo.1]? = some node) :
        node.led a.scopes = node ∧ node.missed a.scopes goTo.2 = [] := by
      obtain ⟨id, kind, line, children⟩ := node
      cases kind with
      | goTo target destination => exact absurd hnode (hother id target destination line children)
      | _ => exact ⟨rfl, rfl⟩
    rw [hkeep fun node hnode => (hplain node hnode).1]
    cases hnode : a.nodes[goTo.1]? with
    | none => rfl
    | some node => rw [Option.map_some, Option.getD_some, (hplain node hnode).2]

-- What is reported for a go-to does not depend on which have been resolved before.
theorem resolve_resolve (a : Arena α) (goTo other : NodeId × Text) :
    ((a.resolve other).2.resolve goTo).1 = (a.resolve goTo).1 := by
  simp only [resolve_eq, Array.getElem?_modify]
  split
  · rw [Option.map_map]
    congr 2
    funext node
    exact Node.missed_led a.scopes goTo.2 node
  · rfl

theorem issues_resolveAll (a : Arena α) (goTos : List (NodeId × Text)) :
    (a.resolveAll goTos).1 = goTos.flatMap fun goTo => (a.resolve goTo).1 := by
  induction goTos generalizing a with
  | nil => rfl
  | cons goTo goTos ih => simp only [resolveAll, ih, List.flatMap_cons, resolve_resolve]

theorem getElem?_resolveAll (a : Arena α) (goTos : List (NodeId × Text)) (id : NodeId) :
    (a.resolveAll goTos).2.nodes[id]? =
      a.nodes[id]?.map fun node => if id ∈ goTos.map (·.1) then node.led a.scopes else node := by
  induction goTos generalizing a with
  | nil => simp [resolveAll]
  | cons goTo goTos ih =>
      simp only [resolveAll, ih, resolve_eq, Array.getElem?_modify, List.map_cons, List.mem_cons]
      by_cases hid : goTo.1 = id
      · rw [if_pos hid, Option.map_map]
        congr 1
        funext node
        simp only [Function.comp_apply, Node.led_led, ite_self, hid.symm, true_or, if_true]
      · simp only [if_neg hid, Ne.symm hid, false_or]

theorem scopes_resolveAll (a : Arena α) (goTos : List (NodeId × Text)) :
    (a.resolveAll goTos).2.scopes = a.scopes := by
  induction goTos generalizing a with
  | nil => rfl
  | cons goTo goTos ih => simp only [resolveAll, ih, resolve_eq]

theorem root_resolveAll (a : Arena α) (goTos : List (NodeId × Text)) :
    (a.resolveAll goTos).2.root = a.root := by
  induction goTos generalizing a with
  | nil => rfl
  | cons goTo goTos ih => simp only [resolveAll, ih, resolve_eq]

section

variable {isGate : α → Bool} {d : Draft α}

theorem led_of_waiting (h : d.Sound isGate) (hwaiting : Draft.Waiting d.entries) {id : NodeId}
    {e : Entry α} (he : d.entries[id]? = some e) (children : List NodeId) :
    Node.led (Draft.scopesOf d.entries) ⟨id, e.kind, e.line, children⟩ =
      ⟨id, Draft.resolve d.entries e.kind, e.line, children⟩ := by
  cases hkind : e.kind with
  | goTo target destination =>
      obtain ⟨htarget, rfl⟩ := hwaiting id e target destination he hkind
      simp only [Node.led, Draft.lookup_scopesOf h.named htarget, Option.or_none, Draft.resolve]
  | _ => rfl

theorem missed_of_waiting (h : d.Sound isGate) (hwaiting : Draft.Waiting d.entries) {id : NodeId}
    {e : Entry α} (he : d.entries[id]? = some e) (children : List NodeId) :
    Node.missed (Draft.scopesOf d.entries) e.raw ⟨id, e.kind, e.line, children⟩ =
      (Draft.unknownScope? d.entries e).toList := by
  cases hkind : e.kind with
  | goTo target destination =>
      obtain ⟨htarget, -⟩ := hwaiting id e target destination he hkind
      simp only [Node.missed, Draft.lookup_scopesOf h.named htarget, Draft.unknownScope?, hkind]
      split <;> rfl
  | _ => simp only [Node.missed, Draft.unknownScope?, hkind, Option.toList_none]

theorem nodes_resolveAll_ofDraft (h : d.Sound isGate) (hwaiting : Draft.Waiting d.entries) :
    ((ofDraft d).resolveAll (ofDraft d).goTos).2.nodes = d.tree.nodes := by
  apply Array.ext_getElem?
  intro id
  have htree := d.get?_tree id
  rw [Tree.get?] at htree
  have hnodes := Draft.getElem?_nodesOf d.entries id
  rw [getElem?_resolveAll, htree, nodes_ofDraft, scopes_ofDraft, hnodes, Option.map_map]
  apply Option.map_congr
  intro e he
  rw [Function.comp_apply, ← led_of_waiting h hwaiting he]
  by_cases hkind : e.kind.isGoTo = true
  · exact if_pos (List.mem_map.2 ⟨(id, e.raw), Draft.mem_goTosOf he hkind, rfl⟩)
  · rw [Node.led_of_not_isGoTo _ hkind, ite_self]

theorem issues_resolveAll_ofDraft (h : d.Sound isGate) (hwaiting : Draft.Waiting d.entries) :
    ((ofDraft d).resolveAll (ofDraft d).goTos).1 =
      d.entries.toList.filterMap (Draft.unknownScope? d.entries) := by
  have hentries : d.entries.toList.filterMap (Draft.unknownScope? d.entries) =
      d.entries.toList.zipIdx.flatMap fun x => (Draft.unknownScope? d.entries x.1).toList := by
    conv_lhs => rw [← List.zipIdx_map_fst 0 d.entries.toList]
    rw [List.filterMap_map, List.filterMap_eq_flatMap_toList]
    rfl
  rw [issues_resolveAll, hentries, ofDraft, Draft.goTosOf, List.filterMap_eq_flatMap_toList, List.flatMap_assoc]
  apply List.flatMap_congr
  rintro ⟨e, id⟩ hmem
  have he : d.entries[id]? = some e := by
    rw [← Array.getElem?_toList]
    exact List.mk_mem_zipIdx_iff_getElem?.1 hmem
  rw [← missed_of_waiting h hwaiting he (Draft.childrenOf d.entries id)]
  cases hkind : e.kind with
  | goTo target destination =>
      simp [NodeKind.isGoTo, resolve_eq, Draft.getElem?_nodesOf, he, hkind]
  | _ => rfl

end

-- Reading a script into the arena comes to the story that is read from it, with the same issues,
-- and to the table of its scopes.
theorem parse_eq (isGate : α → Bool) (document : Template α) (options : ParseOptions) :
    Arena.parse isGate document options =
      (Narrative.parse isGate document options).map fun tree => (tree, tree.scopes) := by
  have hempty : (empty : Arena α) = ofDraft .empty := rfl
  rw [parse, Narrative.parse, hempty, readLines_ofDraft isGate document options .empty]
  rcases hread : Draft.readLines isGate document options .empty 0 (Text.lines document.format) with
    ⟨issues, e | d⟩
  · rfl
  · have hsound := Draft.sound_of_readLines hread
    have hclosed : d.closed.Sound isGate := hsound.withScope 0 []
    have hwaiting : Draft.Waiting d.closed.entries := (Draft.waiting_of_readLines hread).withScope 0 []
    have hzero : (ofDraft d.closed).root.getD 0 = 0 := by
      rw [ofDraft]
      cases d.closed.spine <;> rfl
    have hensure : (ofDraft d).ensureRoot 0 = ofDraft d.closed := ensureRoot_ofDraft hsound 0 []
    simp only [Reported.map, Except.map, hensure, issues_resolveAll_ofDraft hclosed hwaiting,
      nodes_resolveAll_ofDraft hclosed hwaiting, scopes_resolveAll, root_resolveAll, hzero,
      Draft.scopes_tree]
    rfl

end Arena

-- A story that is read is a forest of one tree for each scope, numbered in the order of the text, and
-- it comes to be stored as that forest with the table of its named scopes.
theorem parse_wellFormed {isGate : α → Bool} {document : Template α} {options : ParseOptions}
    {issues : List Issue} {tree : Tree α} (h : parse isGate document options = (issues, .ok tree)) :
    tree.WellFormed isGate ∧
      Arena.parse isGate document options = (issues, .ok (tree, tree.scopes)) := by
  refine ⟨wellFormed_of_parse h, ?_⟩
  rw [Arena.parse_eq, h]
  rfl

-- A scope without a name, with two levels below a choice, and a scope that is named
theorem wellFormed_nested_choice :
    ∃ tree : Tree Nat,
      parse (fun _ => false) ⟨"> a\n  b\n   > c\n== S".toList, [], []⟩ .default =
        ([.ofFault 2 "   > c".toList .partialUnit], .ok tree) ∧
      tree.nodes.size = 5 ∧ (tree.WellFormed fun _ => false) ∧
      Arena.parse (fun _ => false) ⟨"> a\n  b\n   > c\n== S".toList, [], []⟩ .default =
        ([.ofFault 2 "   > c".toList .partialUnit], .ok (tree, [(['S'], 4)])) := by
  have h : parse (fun _ => false) ⟨"> a\n  b\n   > c\n== S".toList, ([] : List Nat), []⟩ .default =
      ([.ofFault 2 "   > c".toList .partialUnit],
        .ok ⟨#[⟨0, .scope [], 0, [1]⟩, ⟨1, .choice ⟨['a'], [], [.literal ['a']]⟩, 0, [2, 3]⟩,
          ⟨2, .line ⟨['b'], [], [.literal ['b']]⟩, 1, []⟩,
          ⟨3, .choice ⟨['c'], [], [.literal ['c']]⟩, 2, []⟩, ⟨4, .scope ['S'], 3, []⟩], 0⟩) := by
    decide +kernel
  exact ⟨_, h, rfl, parse_wellFormed h⟩

end Narrative
