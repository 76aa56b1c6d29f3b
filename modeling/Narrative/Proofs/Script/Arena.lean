import Narrative.Proofs.Script.Resolution

namespace Narrative

variable {α : Type}

def Reported.map {β γ : Type} (f : β → γ) (report : Reported β) : Reported γ :=
  (report.1, report.2.map f)

def NodeKind.isGoTo : NodeKind α → Bool
  | goTo _ _ => true
  | _ => false

-- A story while its lines are read, in the form that it is stored in. Nodes have lists of their
-- children, and named scopes stand in a table. The stack has the open nodes from the scope
-- inwards, and go-tos wait with the text of their lines for the last line to be read.
structure Arena (α : Type) where
  nodes : Array (Node α)
  scopes : List (Text × NodeId)
  root : Option NodeId
  stack : List NodeId
  indent : Option Indent
  goTos : List (NodeId × Text)

namespace Arena

def empty : Arena α := ⟨#[], [], none, [], none, []⟩

def pushNode (a : Arena α) (kind : NodeKind α) (line : Nat) : Arena α :=
  { a with nodes := a.nodes.push ⟨a.nodes.size, kind, line, []⟩ }

-- Opens a scope without a name if nothing has opened one yet.
def ensureRoot (a : Arena α) (line : Nat) : Arena α :=
  if a.root.isNone then
    { a.pushNode (.scope []) line with root := some a.nodes.size, stack := [a.nodes.size] }
  else a

def openScope (a : Arena α) (name : Text) (line : Nat) : Arena α :=
  { a.pushNode (.scope name) line with
    scopes := a.scopes ++ [(name, a.nodes.size)]
    root := a.root.or (some a.nodes.size)
    stack := [a.nodes.size] }

def measure (a : Arena α) (blanks : Text) : Measure × Arena α :=
  if blanks = [] then (.flush, a)
  else
    let indent := a.indent.getD ⟨blanks⟩
    (indent.measure blanks, { a with indent := some indent })

def withStack (a : Arena α) (stack : List NodeId) : Arena α := { a with stack := stack }

def lastChild? (a : Arena α) (id : NodeId) : Option NodeId :=
  a.nodes[id]?.bind (·.children.getLast?)

-- Whether a line at that depth finds a node to hang under, which node it is hung under, and what
-- is open then. Inner levels are closed, and one level further in than is open only the last
-- child of the innermost node can be opened. The scope at least is open.
def parentFor (a : Arena α) (isGate : α → Bool) (depth : Nat) : Bool × NodeId × List NodeId :=
  let stack := a.stack.take (depth + 1)
  let top := stack.getLastD 0
  if depth = stack.length then
    match a.lastChild? top with
    | some last =>
      if a.nodes[last]?.any (·.kind.canOwn isGate) then (true, last, stack ++ [last])
      else (false, top, stack)
    | none => (false, top, stack)
  else (true, top, stack)

def attach (a : Arena α) (parent : NodeId) (kind : NodeKind α) (line : Nat) (raw : Text) : Arena α :=
  let id := a.nodes.size
  { a with
    nodes := (a.pushNode kind line).nodes.modify parent fun node =>
      { node with children := node.children ++ [id] }
    goTos := a.goTos ++ if kind.isGoTo then [(id, raw)] else [] }

def readHeader (a : Arena α) (name : Text) (line : Nat) (raw : Text) : Reported (Arena α) :=
  let height := a.stack.length
  let (m, a) := a.measure (Text.leadingBlanks raw)
  let indented := if 0 < min m.depth height ∧ ¬ m.blamed height then [Fault.indentedHeader] else []
  let issues := (m.faults height ++ indented ++ (Statement.header name).faults).map (.ofFault line raw)
  if name = [] then (issues, .ok a)
  else if (a.scopes.lookup name).isSome then (issues, .error (.duplicateScope name line))
  else (issues, .ok (a.openScope name line))

def readStatement (a : Arena α) (isGate : α → Bool) (document : Template α) (s : Statement)
    (line : Nat) (raw : Text) : Reported (Arena α) :=
  let a := a.ensureRoot line
  let height := a.stack.length
  let (m, a) := a.measure (Text.leadingBlanks raw)
  let faults := m.faults height
  match s.node? document with
  | .error e => (faults.map (.ofFault line raw), .error (.format e))
  | .ok none => ((faults ++ s.faults).map (.ofFault line raw), .ok a)
  | .ok (some kind) =>
    let (fits, parent, stack) := a.parentFor isGate (min m.depth height)
    let unowned := if fits || m.blamed height then [] else [Fault.cannotOwn]
    ((faults ++ s.faults ++ unowned).map (.ofFault line raw),
      .ok ((a.withStack stack).attach parent kind line raw))

def readLine (a : Arena α) (isGate : α → Bool) (document : Template α) (options : ParseOptions)
    (line : Nat) (raw : Text) : Reported (Arena α) :=
  match Statement.ofLine? options raw with
  | none => ([], .ok a)
  | some (.header name) => a.readHeader name line raw
  | some s => a.readStatement isGate document s line raw

def readLines (isGate : α → Bool) (document : Template α) (options : ParseOptions) :
    Arena α → Nat → List Text → Reported (Arena α)
  | a, _, [] => ([], .ok a)
  | a, line, raw :: rest =>
    match a.readLine isGate document options line raw with
    | (issues, .error e) => (issues, .error e)
    | (issues, .ok a) =>
      let (more, outcome) := readLines isGate document options a (line + 1) rest
      (issues ++ more, outcome)

-- Leads a go-to to the scope that it names, or reports that there is none.
def resolve (a : Arena α) (goTo : NodeId × Text) : List Issue × Arena α :=
  match a.nodes[goTo.1]? with
  | some ⟨_, .goTo target _, line, _⟩ =>
    match a.scopes.lookup target with
    | some scope =>
      ([], { a with
        nodes := a.nodes.modify goTo.1 fun node => { node with kind := .goTo target (some scope) } })
    | none => ([.ofFault line goTo.2 (.unknownScope target)], a)
  | _ => ([], a)

def resolveAll : Arena α → List (NodeId × Text) → List Issue × Arena α
  | a, [] => ([], a)
  | a, goTo :: rest =>
    let (issues, a) := a.resolve goTo
    let (more, a) := resolveAll a rest
    (issues ++ more, a)

-- The story with the table of its named scopes
def parse (isGate : α → Bool) (document : Template α) (options : ParseOptions) :
    Reported (Tree α × List (Text × NodeId)) :=
  match readLines isGate document options .empty 0 (Text.lines document.format) with
  | (issues, .error e) => (issues, .error e)
  | (issues, .ok a) =>
    let a := a.ensureRoot 0
    let (unknown, a) := a.resolveAll a.goTos
    (issues ++ unknown, .ok (⟨a.nodes, a.root.getD 0⟩, a.scopes))

end Arena

-- The open nodes from the scope inwards
def Spine.stack (s : Spine) : List NodeId := s.scope :: s.nested.reverse

namespace Spine

@[simp] theorem length_stack (s : Spine) : s.stack.length = s.height := by
  simp [stack, height]

theorem getLastD_stack (s : Spine) : s.stack.getLastD 0 = s.parent := by
  unfold stack parent
  cases s.nested with
  | nil => rfl
  | cons id rest =>
      rw [List.reverse_cons, ← List.cons_append, List.getLastD_concat]
      rfl

theorem stack_openAt_of_lt {s : Spine} {depth : Nat} (h : depth < s.height) :
    (s.openAt depth).stack = s.stack.take (depth + 1) := by
  rw [openAt, if_pos h, stack, stack, List.take_succ_cons, List.take_reverse]

end Spine

namespace Draft

variable {isGate : α → Bool} {entries : Array (Entry α)}

-- The nodes as they are stored before go-tos are resolved
def nodesOf (entries : Array (Entry α)) : Array (Node α) :=
  entries.mapIdx fun id e => ⟨id, e.kind, e.line, childrenOf entries id⟩

def scopesOf (entries : Array (Entry α)) : List (Text × NodeId) :=
  entries.toList.zipIdx.filterMap fun x => Tree.namedScope? ⟨x.2, x.1.kind, x.1.line, []⟩

def goTosOf (entries : Array (Entry α)) : List (NodeId × Text) :=
  entries.toList.zipIdx.filterMap fun x => if x.1.kind.isGoTo then some (x.2, x.1.raw) else none

@[simp] theorem size_nodesOf (entries : Array (Entry α)) : (nodesOf entries).size = entries.size :=
  Array.size_mapIdx

theorem getElem?_nodesOf (entries : Array (Entry α)) (id : Nat) :
    (nodesOf entries)[id]? =
      entries[id]?.map fun e => ⟨id, e.kind, e.line, childrenOf entries id⟩ :=
  Array.getElem?_mapIdx

theorem filterMap_zipIdx_push {β : Type} (entries : Array (Entry α)) (e : Entry α)
    (f : Entry α × Nat → Option β) :
    (entries.push e).toList.zipIdx.filterMap f =
      entries.toList.zipIdx.filterMap f ++ (f (e, entries.size)).toList := by
  rw [Array.toList_push, List.zipIdx_append, List.filterMap_append, Nat.zero_add, Array.length_toList,
    List.zipIdx_singleton, List.filterMap_cons, List.filterMap_nil]
  cases f (e, entries.size) <;> rfl

theorem childrenOf_push (entries : Array (Entry α)) (e : Entry α) (id : Nat) :
    childrenOf (entries.push e) id =
      childrenOf entries id ++ if e.parent = some id then [entries.size] else [] := by
  have hold : ∀ child ∈ List.range entries.size,
      decide (((entries.push e)[child]?.bind (·.parent)) = some id) =
        decide ((entries[child]?.bind (·.parent)) = some id) := by
    intro child hchild
    rw [Array.getElem?_push_lt (List.mem_range.1 hchild), Array.getElem?_eq_getElem]
  rw [childrenOf, Array.size_push, List.range_succ, List.filter_append, List.filter_congr hold, childrenOf]
  simp [List.filter_cons]

-- A new node has no children, and its parent gets it as the last.
theorem getElem?_nodesOf_push (h : Nested isGate entries) (e : Entry α) (id : Nat) :
    (nodesOf (entries.push e))[id]? =
      ((nodesOf entries).push ⟨entries.size, e.kind, e.line, []⟩)[id]?.map fun node =>
        if e.parent = some id then { node with children := node.children ++ [entries.size] }
        else node := by
  rw [getElem?_nodesOf, Array.getElem?_push, Array.getElem?_push, size_nodesOf, getElem?_nodesOf,
    childrenOf_push]
  by_cases hid : id = entries.size
  · subst hid
    rw [if_pos rfl, if_pos rfl, Option.map_some, Option.map_some,
      childrenOf_eq_nil h (Array.getElem?_eq_none (Nat.le_refl _))]
    split <;> rfl
  · rw [if_neg hid, if_neg hid, Option.map_map]
    congr 1
    funext o
    rw [Function.comp_apply]
    split
    · rfl
    · rw [List.append_nil]

theorem nodesOf_push_of_none (h : Nested isGate entries) {e : Entry α} (hparent : e.parent = none) :
    nodesOf (entries.push e) = (nodesOf entries).push ⟨entries.size, e.kind, e.line, []⟩ := by
  apply Array.ext_getElem?
  intro id
  rw [getElem?_nodesOf_push h, hparent]
  simp

theorem nodesOf_push_of_some (h : Nested isGate entries) {e : Entry α} {p : Nat}
    (hparent : e.parent = some p) :
    nodesOf (entries.push e) =
      ((nodesOf entries).push ⟨entries.size, e.kind, e.line, []⟩).modify p fun node =>
        { node with children := node.children ++ [entries.size] } := by
  apply Array.ext_getElem?
  intro id
  rw [getElem?_nodesOf_push h, hparent, Array.getElem?_modify]
  by_cases hid : p = id
  · simp [hid]
  · simp [hid]

theorem scopesOf_push (entries : Array (Entry α)) (e : Entry α) :
    scopesOf (entries.push e) =
      scopesOf entries ++ (Tree.namedScope? ⟨entries.size, e.kind, e.line, []⟩).toList :=
  filterMap_zipIdx_push entries e _

theorem goTosOf_push (entries : Array (Entry α)) (e : Entry α) :
    goTosOf (entries.push e) =
      goTosOf entries ++ if e.kind.isGoTo then [(entries.size, e.raw)] else [] := by
  rw [goTosOf, filterMap_zipIdx_push, goTosOf]
  split <;> rfl

theorem mem_goTosOf {id : NodeId} {e : Entry α} (he : entries[id]? = some e)
    (hkind : e.kind.isGoTo = true) : (id, e.raw) ∈ goTosOf entries := by
  have hmem : (e, id) ∈ entries.toList.zipIdx := by
    rw [List.mk_mem_zipIdx_iff_getElem?, Array.getElem?_toList, he]
  exact List.mem_filterMap.2 ⟨(e, id), hmem, if_pos hkind⟩

theorem scopes_tree (d : Draft α) : d.tree.scopes = scopesOf d.entries := by
  have hnamed : ∀ x : Entry α × Nat,
      Tree.namedScope? (⟨x.2, resolve d.entries x.1.kind, x.1.line, childrenOf d.entries x.2⟩ : Node α) =
        Tree.namedScope? (⟨x.2, x.1.kind, x.1.line, []⟩ : Node α) := by
    rintro ⟨e, id⟩
    unfold Tree.namedScope?
    cases e.kind <;> rfl
  rw [Tree.scopes, tree, Array.toList_mapIdx, List.mapIdx_eq_zipIdx_map, List.filterMap_map, scopesOf]
  congr 1
  funext x
  exact hnamed x

-- The table has the first scope of every name, which is the only one.
theorem lookup_scopesOf {d : Draft α} (h : Named d.entries) {name : Text} (hname : name ≠ []) :
    (scopesOf d.entries).lookup name = findScope? d.entries name := by
  rw [← scopes_tree]
  ext id
  rw [Tree.lookup_eq_some_iff_of_distinct ((scopes_tree_distinct h).imp fun hab => hab.1),
    mem_scopes_tree, kind_tree_eq_scope_iff, findScope?_eq_some_iff h]
  exact and_iff_right hname

theorem parent?_of_path {id p : Nat} {rest : List Nat} (h : path entries id = id :: p :: rest) :
    parent? entries id = some p := by
  rcases path_cases entries id with hp | ⟨q, hparent, -, hp⟩
  · rw [hp] at h
    cases h
  · rw [hp, List.cons.injEq, path] at h
    rw [hparent, (List.cons.inj h.2).1]

-- The last child of the innermost node that is open is the node that was read last.
theorem getLast?_childrenOf_parent {s : Spine} (h : s.Tracks isGate entries)
    (hn : Nested isGate entries) :
    (childrenOf entries s.parent).getLast? = s.last.map (·.1) := by
  obtain ⟨e, he, -⟩ := h.scope
  have hscope := (Array.getElem?_eq_some_iff.1 he).1
  have hp := h.path_eq
  cases hlast : s.last with
  | none =>
      have hnil := h.nested_nil hlast
      have hparent : s.parent = s.scope := by rw [Spine.parent, hnil]; rfl
      rw [hlast, hnil] at hp
      have hself := Draft.self_mem_path entries (entries.size - 1)
      rw [hp] at hself
      have hlastEntry : entries.size - 1 = s.scope := List.mem_singleton.1 hself
      -- the scope is the last entry, and children come later than what they hang under
      have hchildren : childrenOf entries s.scope = [] := by
        rw [List.eq_nil_iff_forall_not_mem]
        intro c hc
        rw [mem_childrenOf] at hc
        obtain ⟨o, ho, -⟩ := parent?_eq_some_iff.1 hc
        have hlt := (hn.owner hc).1
        have hsize := (Array.getElem?_eq_some_iff.1 ho).1
        omega
      rw [hparent, hchildren]
      rfl
  | some last =>
      obtain ⟨id, owns⟩ := last
      obtain ⟨rest, hrest⟩ := s.parent_cons
      have hid := h.last_eq hlast
      rw [hlast, List.append_assoc, hrest, ← hid] at hp
      have hparent := parent?_of_path hp
      have hrange : List.range entries.size = List.range id ++ [id] := by
        rw [← List.range_succ, hid, Nat.succ_eq_add_one, Nat.sub_add_cancel (Nat.zero_lt_of_lt hscope)]
      unfold parent? at hparent
      rw [childrenOf, hrange, List.filter_append, List.filter_singleton, hparent, decide_eq_true rfl]
      exact List.getLast?_concat

-- Go-tos name a scope, and they lead nowhere as long as lines are read.
def Waiting (entries : Array (Entry α)) : Prop :=
  ∀ (id : Nat) (e : Entry α) (target : Text) (destination : Option NodeId), entries[id]? = some e →
    e.kind = .goTo target destination → target ≠ [] ∧ destination = none

theorem Waiting.push (h : Waiting entries) {e : Entry α}
    (he : ∀ target destination, e.kind = .goTo target destination → target ≠ [] ∧ destination = none) :
    Waiting (entries.push e) := by
  intro id o target destination ho hkind
  rw [Array.getElem?_push] at ho
  split at ho
  · cases ho
    exact he target destination hkind
  · exact h id o target destination ho hkind

theorem Waiting.withScope {d : Draft α} (h : Waiting d.entries) (line : Nat) (raw : Text) :
    Waiting (d.withScope line raw).entries := by
  unfold Draft.withScope
  split
  · exact h.push (by simp)
  · exact h

end Draft

theorem Statement.goTo_of_node? {document : Template α} {s : Statement} {target : Text}
    {destination : Option NodeId} (h : s.node? document = .ok (some (.goTo target destination))) :
    target ≠ [] ∧ destination = none := by
  cases s with
  | goTo name =>
      simp only [node?, Except.ok.injEq] at h
      split at h
      · cases h
      · next hname =>
        cases h
        exact ⟨hname, rfl⟩
  | header name | ret content | closeChoice content => cases h
  | choice content | comment content | line content =>
      simp only [node?, Except.map] at h
      split at h <;> cases h

namespace Draft

variable {isGate : α → Bool} {document : Template α} {options : ParseOptions} {line : Nat} {raw : Text}
  {d d' : Draft α} {issues : List Issue}

theorem Reads.waiting (h : Reads isGate document options line raw d issues d')
    (hd : Waiting d.entries) : Waiting d'.entries := by
  cases h with
  | silent => exact hd
  | nameless =>
      rw [entries_measured]
      exact hd
  | opened name =>
      rw [addScope, entries_measured]
      exact hd.push (by simp)
  | unplaced s =>
      rw [entries_measured]
      exact hd.withScope line raw
  | placed s kind spine _ hnode =>
      rw [addNode, entries_measured]
      apply (hd.withScope line raw).push
      rintro target destination rfl
      exact Statement.goTo_of_node? hnode

theorem waiting_of_readLines {lines : List Text}
    (h : readLines isGate document options .empty 0 lines = (issues, .ok d)) : Waiting d.entries :=
  readLines_induction isGate document options (P := fun _ _ d => Waiting d.entries)
    (by simp [Waiting, Draft.empty]) (fun _ _ _ _ _ _ hd hreads => hreads.waiting hd) h

end Draft

namespace Arena

-- How a draft is stored
def ofDraft (d : Draft α) : Arena α where
  nodes := Draft.nodesOf d.entries
  scopes := Draft.scopesOf d.entries
  root := d.spine.map fun _ => 0
  stack := (d.spine.map Spine.stack).getD []
  indent := d.indent
  goTos := Draft.goTosOf d.entries

variable {isGate : α → Bool} {document : Template α} {options : ParseOptions} {d : Draft α}

@[simp] theorem nodes_ofDraft (d : Draft α) : (ofDraft d).nodes = Draft.nodesOf d.entries := rfl

@[simp] theorem scopes_ofDraft (d : Draft α) : (ofDraft d).scopes = Draft.scopesOf d.entries := rfl

@[simp] theorem length_stack_ofDraft (d : Draft α) : (ofDraft d).stack.length = d.height := by
  unfold ofDraft Draft.height
  cases d.spine with
  | none => rfl
  | some s => exact s.length_stack

theorem measure_ofDraft (d : Draft α) (raw : Text) :
    (ofDraft d).measure (Text.leadingBlanks raw) = (d.measureOf raw, ofDraft (d.measured raw)) := by
  unfold measure Draft.measureOf Draft.measured Draft.measure
  split <;> rfl

-- A scope is added to the nodes, and to the table if it has a name.
theorem ofDraft_addScope (h : d.Sound isGate) (name : Text) (line : Nat) (raw : Text) :
    ofDraft (d.addScope name line raw) =
      { ofDraft d with
        nodes := (Draft.nodesOf d.entries).push ⟨d.entries.size, .scope name, line, []⟩
        scopes := Draft.scopesOf d.entries ++ if name = [] then [] else [(name, d.entries.size)]
        root := some 0
        stack := [d.entries.size] } := by
  have hnamed : (Tree.namedScope? (⟨d.entries.size, .scope name, line, []⟩ : Node α)).toList =
      if name = [] then [] else [(name, d.entries.size)] := by
    simp only [Tree.namedScope?]
    split <;> rfl
  simp only [ofDraft, Draft.addScope, Draft.nodesOf_push_of_none h.nested, Draft.scopesOf_push,
    Draft.goTosOf_push, hnamed, NodeKind.isGoTo, Bool.false_eq_true, if_false, List.append_nil]
  rfl

theorem openScope_ofDraft (h : d.Sound isGate) {name : Text} (hname : name ≠ []) (line : Nat) (raw : Text) :
    (ofDraft d).openScope name line = ofDraft (d.addScope name line raw) := by
  have hroot : (d.spine.map fun _ => 0).or (some d.entries.size) = some 0 := by
    cases hs : d.spine with
    | none => rw [h.blank hs]; rfl
    | some s => rfl
  rw [ofDraft_addScope h, if_neg hname]
  simp only [openScope, pushNode, ofDraft, Draft.size_nodesOf, hroot]

theorem ensureRoot_ofDraft (h : d.Sound isGate) (line : Nat) (raw : Text) :
    (ofDraft d).ensureRoot line = ofDraft (d.withScope line raw) := by
  cases hs : d.spine with
  | some s => simp [ensureRoot, ofDraft, hs]
  | none =>
      have hsize : d.entries.size = 0 := by rw [h.blank hs]; rfl
      rw [Draft.withScope, hs, Option.isNone_none, if_pos rfl, ofDraft_addScope h, if_pos rfl]
      simp [ensureRoot, pushNode, ofDraft, hs, hsize]

theorem lastChild?_ofDraft (h : d.Sound isGate) (id : NodeId) :
    (ofDraft d).lastChild? id = (Draft.childrenOf d.entries id).getLast? := by
  rw [lastChild?, ofDraft, Draft.getElem?_nodesOf]
  cases hid : d.entries[id]? with
  | none => rw [Draft.childrenOf_eq_nil h.nested hid]; rfl
  | some e => rfl

theorem parentFor_ofDraft (h : d.Sound isGate) {s : Spine} (hs : d.spine = some s) {depth : Nat}
    (hdepth : depth ≤ s.height) :
    (ofDraft d).parentFor isGate depth = (s.fits depth, (s.openAt depth).parent, (s.openAt depth).stack) := by
  have hstack : (ofDraft d).stack = s.stack := by simp [ofDraft, hs]
  by_cases hlt : depth < s.height
  · have hopen := Spine.stack_openAt_of_lt hlt
    have hlength : (s.stack.take (depth + 1)).length ≠ depth := by
      rw [List.length_take, s.length_stack]
      omega
    simp only [parentFor, hstack, ← hopen, Spine.getLastD_stack]
    rw [hopen, if_neg hlength.symm, Spine.fits, decide_eq_true hlt, Bool.true_or]
  · -- one level further in than is open, where the last child decides
    obtain rfl : depth = s.height := Nat.le_antisymm hdepth (Nat.not_lt.1 hlt)
    have htracks := h.tracks hs
    have htake : s.stack.take (s.height + 1) = s.stack :=
      List.take_of_length_le (by rw [s.length_stack]; exact Nat.le_succ _)
    have hlast : (ofDraft d).lastChild? s.parent = s.last.map (·.1) := by
      rw [lastChild?_ofDraft h, Draft.getLast?_childrenOf_parent htracks h.nested]
    simp only [parentFor, hstack, htake, s.length_stack, s.getLastD_stack, hlast, if_true]
    rw [Spine.fits, decide_eq_false hlt, Bool.false_or, Spine.openAt, if_neg hlt]
    cases hl : s.last with
    | none => rfl
    | some last =>
        obtain ⟨id, owns⟩ := last
        obtain ⟨e, he, -, rfl⟩ := htracks.owns hl
        simp only [Option.map_some, ofDraft, Draft.getElem?_nodesOf, he, Option.any_some]
        cases e.kind.canOwn isGate with
        | false => rfl
        | true => simp [Spine.parent, Spine.stack]

theorem attach_ofDraft (h : d.Sound isGate) (hd : d.spine ≠ none) (s : Spine) {kind : NodeKind α}
    (hkind : kind.isScope = false) (line : Nat) (raw : Text) :
    ((ofDraft d).withStack s.stack).attach s.parent kind line raw =
      ofDraft (d.addNode isGate s kind line raw) := by
  obtain ⟨current, hcurrent⟩ := Option.ne_none_iff_exists'.1 hd
  have hnamed : Tree.namedScope? (⟨d.entries.size, kind, line, []⟩ : Node α) = none := by
    unfold Tree.namedScope?
    cases kind with
    | scope name => cases hkind
    | _ => rfl
  have hnodes := Draft.nodesOf_push_of_some h.nested
    (e := ⟨kind, line, raw, some s.parent⟩) (p := s.parent) rfl
  simp only [attach, withStack, pushNode, ofDraft, Draft.addNode, hnodes, Draft.goTosOf_push,
    Draft.scopesOf_push, hnamed, Draft.size_nodesOf, hcurrent, Option.toList_none, List.append_nil]
  rfl

section

variable (isGate document options)

theorem readHeader_ofDraft (h : d.Sound isGate) (name : Text) (line : Nat) (raw : Text) :
    (ofDraft d).readHeader name line raw = (d.readHeader name line raw).map ofDraft := by
  have hlookup : name ≠ [] → ((ofDraft (d.measured raw)).scopes.lookup name).isSome = d.hasScope name := by
    intro hname
    rw [scopes_ofDraft, Draft.entries_measured, Draft.lookup_scopesOf h.named hname,
      Draft.isSome_findScope?]
  rw [Draft.readHeader_eq, readHeader, length_stack_ofDraft, measure_ofDraft]
  by_cases hname : name = []
  · simp only [if_pos hname]
    rfl
  · simp only [if_neg hname, hlookup hname, openScope_ofDraft (h.measured raw) hname line raw]
    split <;> rfl

theorem readStatement_ofDraft (h : d.Sound isGate) (s : Statement) (line : Nat) (raw : Text) :
    (ofDraft d).readStatement isGate document s line raw =
      (d.readStatement isGate document s line raw).map ofDraft := by
  obtain ⟨spine, hspine⟩ := d.exists_spine_withScope line raw
  have hsound := h.withScope line raw
  rw [Draft.readStatement_eq isGate document line raw d s hspine, readStatement, ensureRoot_ofDraft h line raw]
  simp only [length_stack_ofDraft, measure_ofDraft]
  rcases hnode : s.node? document with e | _ | kind
  · rfl
  · rfl
  · have hmeasured : ((d.withScope line raw).measured raw).spine = some spine := by
      rw [Draft.spine_measured, hspine]
    have hheight : (d.withScope line raw).height = spine.height := by
      rw [Draft.height, hspine]
      rfl
    have hparent := parentFor_ofDraft (hsound.measured raw) hmeasured
      (Nat.min_le_right ((d.withScope line raw).measureOf raw).depth spine.height)
    simp only [hheight, hparent]
    rw [attach_ofDraft (hsound.measured raw) (by simp [hspine]) _ (Statement.isScope_of_node? hnode)]
    simp only [Reported.map, Except.map, Draft.nodeFaults, Draft.depthOf, hheight]

theorem readLine_ofDraft (h : d.Sound isGate) (line : Nat) (raw : Text) :
    (ofDraft d).readLine isGate document options line raw =
      (d.readLine isGate document options line raw).map ofDraft := by
  rw [readLine, Draft.readLine_eq]
  cases Statement.ofLine? options raw with
  | none => rfl
  | some s =>
      cases s with
      | header name => exact readHeader_ofDraft isGate h name line raw
      | _ => exact readStatement_ofDraft isGate document h _ line raw

theorem readLines_ofDraft (h : d.Sound isGate) (line : Nat) (lines : List Text) :
    readLines isGate document options (ofDraft d) line lines =
      (Draft.readLines isGate document options d line lines).map ofDraft := by
  induction lines generalizing d line with
  | nil => rfl
  | cons raw lines ih =>
      rw [readLines, Draft.readLines, readLine_ofDraft isGate document options h]
      rcases hline : d.readLine isGate document options line raw with ⟨issues, e | next⟩
      · rfl
      · have hreads := (Draft.readLine_eq_ok_iff isGate document options line raw d issues next).1 hline
        simp only [Reported.map, Except.map, ih (hreads.sound h)]

end

end Arena

end Narrative
