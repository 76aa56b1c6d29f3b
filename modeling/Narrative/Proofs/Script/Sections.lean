import Narrative.Proofs.Outline.Numbering
import Narrative.Proofs.Script.Root
import Narrative.Proofs.Script.Targets

namespace Narrative

variable {α : Type} {isGate : α → Bool} {document own : Template α} {options : ParseOptions}

-- The same issue behind so many lines
def Issue.shift (lines : Nat) (issue : Issue) : Issue := { issue with line := issue.line + lines }

-- The same entry behind so many nodes and lines
def Entry.shift (nodes lines : Nat) (e : Entry α) : Entry α :=
  { e with line := e.line + lines, parent := e.parent.map (· + nodes) }

namespace Spine

def shift (nodes : Nat) (s : Spine) : Spine :=
  ⟨s.scope + nodes, s.nested.map (· + nodes), s.last.map fun last => (last.1 + nodes, last.2)⟩

variable (nodes : Nat) (s : Spine)

@[simp] theorem height_shift : (s.shift nodes).height = s.height := by
  simp [height, shift]

@[simp] theorem parent_shift : (s.shift nodes).parent = s.parent + nodes := by
  unfold parent shift
  cases s.nested <;> rfl

@[simp] theorem fits_shift (depth : Nat) : (s.shift nodes).fits depth = s.fits depth := by
  unfold fits
  rw [height_shift]
  cases hlast : s.last <;> simp [shift, hlast]

@[simp] theorem openAt_shift (depth : Nat) :
    (s.shift nodes).openAt depth = (s.openAt depth).shift nodes := by
  unfold openAt
  rw [height_shift]
  split
  · simp [shift, List.map_drop]
  · rcases hlast : s.last with _ | ⟨id, _ | _⟩ <;> simp [shift, hlast]

end Spine

-- What a statement makes is told by the arguments of the document.
theorem Statement.node?_eq_of_args (h : own.args = document.args) (s : Statement) :
    s.node? own = s.node? document := by
  have hcompact : ∀ line, own.compactLine line = document.compactLine line := by
    intro line
    simp only [Template.compactLine, h]
  cases s with
  | choice content | comment content | line content => simp only [node?, hcompact]
  | _ => rfl

theorem Indent.ofLines?_cons (options : ParseOptions) (raw : Text) (rest : List Text) :
    ofLines? options (raw :: rest) =
      (if (Statement.ofLine? options raw).isSome ∧ Text.leadingBlanks raw ≠ [] then
        some ⟨Text.leadingBlanks raw⟩ else none).or (ofLines? options rest) := by
  rw [← List.singleton_append, ofLines?_append, ofLines?_singleton]

namespace Draft

-- A draft behind the entries of another one. Both go on alike, but names that are taken in
-- front are taken behind them, and so is the unit.
structure Behind (front : List (Entry α)) (lines : Nat) (given : Option Indent) (d alone : Draft α) :
    Prop where
  entries_eq : d.entries.toList = front ++ alone.entries.toList.map (Entry.shift front.length lines)
  indent_eq : d.indent = alone.indent.or given
  spine_eq : ∃ s, alone.spine = some s ∧ d.spine = some (s.shift front.length)

-- The unit that was given is the one of the lines that are still to come, if they have one.
def Agrees (options : ParseOptions) (given : Option Indent) (alone : Draft α) (rest : List Text) : Prop :=
  ∀ unit ∈ given, ∀ other ∈ alone.indent.or (Indent.ofLines? options rest), other = unit

section Agrees

variable {given : Option Indent} {alone : Draft α} {raw : Text} {rest : List Text} {s : Statement}

theorem Agrees.getD_eq (h : Agrees options given alone (raw :: rest))
    (hs : Statement.ofLine? options raw = some s) (hblanks : Text.leadingBlanks raw ≠ []) :
    (alone.indent.or given).getD ⟨Text.leadingBlanks raw⟩ = alone.indent.getD ⟨Text.leadingBlanks raw⟩ := by
  cases hindent : alone.indent with
  | some unit => rfl
  | none =>
      cases given with
      | none => rfl
      | some unit =>
          have hfirst : Indent.ofLines? options (raw :: rest) = some ⟨Text.leadingBlanks raw⟩ := by
            rw [Indent.ofLines?_cons, hs, if_pos ⟨rfl, hblanks⟩, Option.some_or]
          exact (h unit rfl _ (by rw [hindent, hfirst]; rfl)).symm

theorem Agrees.skip (h : Agrees options given alone (raw :: rest))
    (hs : Statement.ofLine? options raw = none) : Agrees options given alone rest := by
  unfold Agrees at h
  rwa [Indent.ofLines?_cons, hs, if_neg (by simp), Option.none_or] at h

theorem Agrees.measured (h : Agrees options given alone (raw :: rest))
    (hs : Statement.ofLine? options raw = some s) : Agrees options given (alone.measured raw) rest := by
  have hrest : alone.indent.or (Indent.ofLines? options (raw :: rest)) =
      (alone.measured raw).indent.or (Indent.ofLines? options rest) := by
    rw [Indent.ofLines?_cons, ← Option.or_assoc, indent_measured, hs]
    by_cases hblanks : Text.leadingBlanks raw = [] <;> simp [hblanks]
  unfold Agrees at h
  rwa [hrest] at h

end Agrees

namespace Behind

variable {front : List (Entry α)} {lines line : Nat} {given : Option Indent} {d d' alone : Draft α}
  {raw : Text} {rest : List Text} {issues : List Issue} {s : Statement}

theorem size_eq (h : Behind front lines given d alone) :
    d.entries.size = alone.entries.size + front.length := by
  have hlength := congrArg List.length h.entries_eq
  rwa [List.length_append, List.length_map, Array.length_toList, Array.length_toList, Nat.add_comm] at hlength

theorem height_eq (h : Behind front lines given d alone) : d.height = alone.height := by
  obtain ⟨s, hs, hshift⟩ := h.spine_eq
  simp [height, hs, hshift]

theorem withScope_eq (h : Behind front lines given d alone) (m n : Nat) (raw : Text) :
    d.withScope m raw = d ∧ alone.withScope n raw = alone := by
  obtain ⟨s, hs, hshift⟩ := h.spine_eq
  exact ⟨withScope_of_spine hshift m raw, withScope_of_spine hs n raw⟩

theorem hasScope_eq_false (h : Behind front lines given d alone) {name : Text}
    (hnew : d.hasScope name = false) : alone.hasScope name = false := by
  rw [hasScope, ← Array.any_toList] at hnew ⊢
  rw [h.entries_eq, List.any_append, List.any_map, Bool.or_eq_false_iff] at hnew
  exact hnew.2

theorem measureOf_eq (h : Behind front lines given d alone)
    (hagrees : Agrees options given alone (raw :: rest)) (hs : Statement.ofLine? options raw = some s) :
    d.measureOf raw = alone.measureOf raw := by
  unfold measureOf measure
  by_cases hblanks : Text.leadingBlanks raw = []
  · rw [if_pos hblanks, if_pos hblanks]
  · rw [if_neg hblanks, if_neg hblanks, h.indent_eq, hagrees.getD_eq hs hblanks]

theorem measured (h : Behind front lines given d alone)
    (hagrees : Agrees options given alone (raw :: rest)) (hs : Statement.ofLine? options raw = some s) :
    Behind front lines given (d.measured raw) (alone.measured raw) where
  entries_eq := by simpa using h.entries_eq
  indent_eq := by
    rw [indent_measured, indent_measured, h.indent_eq]
    by_cases hblanks : Text.leadingBlanks raw = []
    · rw [if_pos hblanks, Option.or_none, Option.or_none]
    · have hunit := hagrees.getD_eq hs hblanks
      rw [if_neg hblanks]
      cases hindent : alone.indent with
      | some unit => rfl
      | none =>
          rw [hindent] at hunit
          cases given with
          | none => rfl
          | some unit => exact congrArg some hunit
  spine_eq := by simpa using h.spine_eq

theorem addScope (h : Behind front lines given d alone) (name : Text) (line : Nat) (raw : Text) :
    Behind front lines given (d.addScope name (line + lines) raw) (alone.addScope name line raw) where
  entries_eq := by
    rw [Draft.addScope, Draft.addScope, Array.toList_push, Array.toList_push, h.entries_eq, List.map_append,
      List.append_assoc]
    rfl
  indent_eq := h.indent_eq
  spine_eq := ⟨_, rfl, congrArg (some <| Spine.ofScope ·) h.size_eq⟩

theorem addNode (h : Behind front lines given d alone) (isGate : α → Bool) (spine : Spine)
    (kind : NodeKind α) (line : Nat) (raw : Text) :
    Behind front lines given (d.addNode isGate (spine.shift front.length) kind (line + lines) raw)
      (alone.addNode isGate spine kind line raw) where
  entries_eq := by
    rw [Draft.addNode, Draft.addNode, Array.toList_push, Array.toList_push, h.entries_eq, List.map_append,
      List.append_assoc, Spine.parent_shift]
    rfl
  indent_eq := h.indent_eq
  spine_eq := by
    refine ⟨_, rfl, ?_⟩
    rw [Draft.addNode, h.size_eq]
    rfl

-- A line does behind other entries what it does alone.
theorem reads (h : Behind front lines given d alone) (hargs : own.args = document.args)
    (hagrees : Agrees options given alone (raw :: rest))
    (hreads : Reads isGate document options (line + lines) raw d issues d') :
    ∃ found alone', Reads isGate own options line raw alone found alone' ∧
      Behind front lines given d' alone' ∧ Agrees options given alone' rest ∧
      issues = found.map (Issue.shift lines) := by
  obtain ⟨hscope, hscopeAlone⟩ := h.withScope_eq (line + lines) line raw
  cases hreads with
  | silent hs => exact ⟨[], alone, .silent hs, h, hagrees.skip hs, rfl⟩
  | nameless hs =>
      refine ⟨_, _, .nameless hs, h.measured hagrees hs, hagrees.measured hs, ?_⟩
      rw [headerFaults, h.measureOf_eq hagrees hs, h.height_eq, List.map_map]
      rfl
  | opened name hs hname hnew =>
      refine ⟨_, _, .opened name hs hname (h.hasScope_eq_false hnew),
        (h.measured hagrees hs).addScope name line raw, hagrees.measured hs, ?_⟩
      rw [headerFaults, h.measureOf_eq hagrees hs, h.height_eq, List.map_map]
      rfl
  | unplaced s hs hheader hnode =>
      rw [hscope]
      refine ⟨_, _, .unplaced s hs hheader ((s.node?_eq_of_args hargs).trans hnode), ?_⟩
      rw [hscopeAlone]
      refine ⟨h.measured hagrees hs, hagrees.measured hs, ?_⟩
      rw [h.measureOf_eq hagrees hs, h.height_eq, List.map_map]
      rfl
  | placed s kind spine hs hnode hspine =>
      rw [hscope] at hspine ⊢
      obtain ⟨spineAlone, hspineAlone, hshift⟩ := h.spine_eq
      obtain rfl := Option.some.inj (hspine.symm.trans hshift)
      refine ⟨_, _, .placed s kind spineAlone hs ((s.node?_eq_of_args hargs).trans hnode)
        (by rw [hscopeAlone]; exact hspineAlone), ?_⟩
      have hdepth : d.depthOf raw = alone.depthOf raw := by
        rw [depthOf, h.measureOf_eq hagrees hs, h.height_eq]
        rfl
      rw [hscopeAlone, Spine.openAt_shift, hdepth]
      refine ⟨(h.measured hagrees hs).addNode isGate _ kind line raw, hagrees.measured hs, ?_⟩
      rw [nodeFaults, nodeFaults, Spine.fits_shift, hdepth, h.measureOf_eq hagrees hs, h.height_eq,
        List.map_map]
      rfl

-- Lines leave behind other entries what they leave alone.
theorem readLines (h : Behind front lines given d alone) (hargs : own.args = document.args)
    (hagrees : Agrees options given alone rest)
    (hread : Draft.readLines isGate document options d (line + lines) rest = (issues, .ok d')) :
    ∃ found alone', Draft.readLines isGate own options alone line rest = (found, .ok alone') ∧
      Behind front lines given d' alone' ∧ issues = found.map (Issue.shift lines) := by
  induction rest generalizing line d alone issues with
  | nil =>
      cases hread
      exact ⟨[], alone, rfl, h, rfl⟩
  | cons raw rest ih =>
      rw [Draft.readLines] at hread
      rcases hline : d.readLine isGate document options (line + lines) raw with ⟨found, e | next⟩
      · rw [hline] at hread
        cases hread
      · rw [hline] at hread
        obtain ⟨rfl, hrest⟩ := Prod.mk.inj hread
        obtain ⟨own', alone', hreads, hnext, hagrees', rfl⟩ :=
          h.reads hargs hagrees ((readLine_eq_ok_iff ..).1 hline)
        rw [Nat.add_right_comm] at hrest
        obtain ⟨more, last, hmore, hlast, hissues⟩ := ih hnext hagrees' (Prod.ext rfl hrest)
        refine ⟨own' ++ more, last, ?_, hlast, ?_⟩
        · rw [Draft.readLines, (readLine_eq_ok_iff ..).2 hreads]
          simp only [hmore]
        · rw [List.map_append, ← hissues, Nat.add_right_comm]

end Behind

end Draft

-- A node but for where it leads
def NodeKind.undirected : NodeKind α → NodeKind α
  | .goTo target _ => .goTo target none
  | kind => kind

def Node.undirected (node : Node α) : Node α := { node with kind := node.kind.undirected }

-- The same node behind so many nodes and lines
def Node.shift (nodes lines : Nat) (node : Node α) : Node α :=
  ⟨node.id + nodes, node.kind, node.line + lines, node.children.map (· + nodes)⟩

namespace Draft

@[simp] theorem undirected_resolve (entries : Array (Entry α)) (kind : NodeKind α) :
    (resolve entries kind).undirected = kind.undirected := by
  cases kind <;> rfl

theorem childrenFrom_shift (nodes lines id start : Nat) (entries : List (Entry α)) :
    childrenFrom (id + nodes) (start + nodes) (entries.map (Entry.shift nodes lines)) =
      (childrenFrom id start entries).map (· + nodes) := by
  induction entries generalizing start with
  | nil => rfl
  | cons e rest ih =>
      have hparent : (e.shift nodes lines).parent = some (id + nodes) ↔ e.parent = some id := by
        simp [Entry.shift]
      rw [List.map_cons, childrenFrom, childrenFrom, Nat.add_right_comm, ih]
      by_cases h : e.parent = some id
      · rw [if_pos h, if_pos (hparent.2 h), List.map_cons]
      · rw [if_neg h, if_neg (mt hparent.1 h)]

theorem mem_nodesFrom_line {all : Array (Entry α)} {id : Nat} {entries : List (Entry α)} {node : Node α}
    (h : node ∈ nodesFrom all id entries) : ∃ e ∈ entries, node.line = e.line := by
  induction entries generalizing id with
  | nil => cases h
  | cons e rest ih =>
      rw [nodesFrom, List.mem_cons] at h
      rcases h with rfl | hmem
      · exact ⟨e, List.mem_cons_self, rfl⟩
      · obtain ⟨o, ho, hline⟩ := ih hmem
        exact ⟨o, List.mem_cons_of_mem e ho, hline⟩

namespace Behind

variable {front : List (Entry α)} {lines : Nat} {given : Option Indent} {d alone : Draft α}

-- No node in front hangs under one behind it.
theorem childrenOf_eq (h : Behind front lines given d alone) (hnested : Nested isGate d.entries) (id : Nat) :
    childrenOf d.entries (id + front.length) = (childrenOf alone.entries id).map (· + front.length) := by
  have hfront : ∀ e ∈ front, e.parent ≠ some (id + front.length) := by
    intro e hmem hparent
    obtain ⟨i, hi⟩ := List.mem_iff_getElem?.1 hmem
    have hlt := (List.getElem?_eq_some_iff.1 hi).1
    have he : d.entries[i]? = some e := by
      rw [← Array.getElem?_toList, h.entries_eq, List.getElem?_append_left hlt, hi]
    have howner := (hnested.owner (parent?_eq_some_iff.2 ⟨e, he, hparent⟩)).1
    omega
  rw [Draft.childrenOf_eq, h.entries_eq, childrenFrom_append, childrenFrom_eq_nil hfront, List.nil_append,
    Draft.childrenOf_eq, childrenFrom_shift]

theorem nodesFrom_eq (h : Behind front lines given d alone) (hnested : Nested isGate d.entries) (id : Nat)
    (entries : List (Entry α)) :
    (nodesFrom d.entries (id + front.length) (entries.map (Entry.shift front.length lines))).map
        Node.undirected =
      (nodesFrom alone.entries id entries).map fun node => (node.shift front.length lines).undirected := by
  induction entries generalizing id with
  | nil => rfl
  | cons e rest ih =>
      rw [List.map_cons, nodesFrom, nodesFrom, List.map_cons, List.map_cons, Nat.add_right_comm, ih,
        h.childrenOf_eq hnested]
      congr 1
      simp [Node.undirected, Node.shift, Entry.shift]

theorem closed_eq (h : Behind front lines given d alone) : d.closed = d ∧ alone.closed = alone :=
  h.withScope_eq 0 0 []

-- The nodes that stand on lines behind those in front
theorem nodes_eq (h : Behind front lines given d alone) (hnested : Nested isGate d.entries)
    (hfront : ∀ e ∈ front, e.line < lines) :
    (d.tree.nodes.toList.filter (lines ≤ ·.line)).map Node.undirected =
      alone.tree.nodes.toList.map fun node => (node.shift front.length lines).undirected := by
  have hbefore : (nodesFrom d.entries 0 front).filter (lines ≤ ·.line) = [] := by
    rw [List.filter_eq_nil_iff]
    intro node hmem
    obtain ⟨e, he, hline⟩ := mem_nodesFrom_line hmem
    have hlt := hfront e he
    simp only [decide_eq_true_eq]
    omega
  have hbehind : ∀ entries : List (Entry α),
      (nodesFrom d.entries front.length (entries.map (Entry.shift front.length lines))).filter
          (lines ≤ ·.line) =
        nodesFrom d.entries front.length (entries.map (Entry.shift front.length lines)) := by
    intro entries
    rw [List.filter_eq_self]
    intro node hmem
    obtain ⟨e, he, hline⟩ := mem_nodesFrom_line hmem
    obtain ⟨o, -, rfl⟩ := List.mem_map.1 he
    simp only [decide_eq_true_eq, hline, Entry.shift]
    exact Nat.le_add_left lines o.line
  have hnodes := h.nodesFrom_eq hnested 0 alone.entries.toList
  rw [Nat.zero_add] at hnodes
  rw [nodes_tree, nodes_tree, h.entries_eq, nodesFrom_append, List.filter_append, hbefore, Nat.zero_add,
    hbehind, List.nil_append, hnodes]

end Behind

-- A header that is not indented does nothing but open its scope, and nothing is wrong with it.
theorem measured_of_flush (d : Draft α) {raw : Text} (h : Text.leadingBlanks raw = []) :
    d.measured raw = d := by
  rw [Draft.measured, measure, if_pos h]

theorem headerFaults_of_flush (d : Draft α) {name raw : Text} (h : Text.leadingBlanks raw = [])
    (hname : name ≠ []) : d.headerFaults name raw = [] := by
  rw [headerFaults, measureOf, measure, if_pos h, Statement.faults, if_neg hname]
  simp [Measure.flush, Measure.faults]

theorem readLine_of_flush_header {line : Nat} {raw name : Text} {d : Draft α}
    (hflush : Text.leadingBlanks raw = []) (hraw : Statement.headerName? raw = some name)
    (hnew : d.hasScope name = false) :
    d.readLine isGate document options line raw = ([], .ok (d.addScope name line raw)) := by
  obtain ⟨hs, hname⟩ := (Statement.headerName?_eq_some_iff options).1 hraw
  rw [readLine_eq, hs]
  simp only [readHeader_eq, if_neg hname, hnew, Bool.false_eq_true, if_false,
    headerFaults_of_flush d hflush hname, measured_of_flush d hflush, List.map_nil]

theorem Behind.of_header (d : Draft α) (name : Text) (line : Nat) (raw : Text) :
    Behind d.entries.toList line d.indent (d.addScope name line raw)
      ((.empty : Draft α).addScope name 0 raw) where
  entries_eq := by
    rw [Draft.addScope, Array.toList_push]
    simp [Draft.addScope, empty, Entry.shift]
  indent_eq := rfl
  spine_eq := ⟨_, rfl, by simp [Draft.addScope, empty, Spine.ofScope, Spine.shift]⟩

-- From a header on, lines are read as they are read alone.
theorem exists_behind_of_readLines {before rest : List Text} {header name : Text} {found : List Issue}
    {d : Draft α}
    (h : readLines isGate document options .empty 0 (before ++ header :: rest) = (found, .ok d))
    (hargs : own.args = document.args) (hflush : Text.leadingBlanks header = [])
    (hheader : Statement.headerName? header = some name)
    (hunit : ∀ unit ∈ Indent.ofLines? options before,
      ∀ other ∈ Indent.ofLines? options (header :: rest), other = unit) :
    ∃ earlier mid ownFound alone, readLines isGate document options .empty 0 before = (earlier, .ok mid) ∧
      readLines isGate own options .empty 0 (header :: rest) = (ownFound, .ok alone) ∧
      Behind mid.entries.toList before.length mid.indent d alone ∧
      found = earlier ++ ownFound.map (Issue.shift before.length) := by
  obtain ⟨earlier, mid, own', next, hbefore, hline⟩ :=
    exists_readLine_of_readLines isGate document options h
  obtain ⟨hnone, hnext⟩ := (readLine_eq_ok_iff ..).1 hline |>.opened_of_header hheader
  obtain ⟨-, hname⟩ := (Statement.headerName?_eq_some_iff options).1 hheader
  rw [headerFaults_of_flush mid hflush hname, List.map_nil] at hnone
  rw [measured_of_flush mid hflush, Nat.zero_add] at hnext
  subst hnone hnext
  rw [readLines_of_readLine isGate document options hbefore hline, Prod.mk.injEq, Nat.zero_add,
    List.length_append, List.length_singleton, Nat.add_comm, List.nil_append] at h
  obtain ⟨rfl, hrest⟩ := h
  have hagrees : Agrees options mid.indent ((.empty : Draft α).addScope name 0 header) rest := by
    intro unit hmem other hother
    rw [indent_eq_ofLines? hbefore] at hmem
    refine hunit unit hmem other ?_
    rw [Indent.ofLines?_cons, if_neg (fun hblanks => hblanks.2 hflush)]
    exact hother
  obtain ⟨more, alone, hmore, hbehind, hissues⟩ :=
    (Behind.of_header mid name before.length header).readLines hargs hagrees (Prod.ext rfl hrest)
  refine ⟨earlier, mid, more, alone, hbefore, ?_, hbehind, congrArg (earlier ++ ·) hissues⟩
  rw [readLines, readLine_of_flush_header hflush hheader (by simp [hasScope, empty])]
  exact hmore

end Draft

-- An issue that is found when its line is read
def Issue.isFirstPass (issue : Issue) : Bool := issue.kind ≠ .unknownScope

namespace Draft

theorem isFirstPass_of_mem_readLines {lines : List Text} {d : Draft α} {line : Nat} {issue : Issue}
    (h : issue ∈ (readLines isGate document options d line lines).1) : issue.isFirstPass = true := by
  obtain ⟨i, raw, fault, -, rfl, hkind⟩ := fault_of_mem_readLines isGate document options h
  exact decide_eq_true hkind

-- Scopes that go-tos do not find are told when all lines are read.
theorem filter_isFirstPass {lines : List Text} {d d' : Draft α} {found : List Issue}
    (h : readLines isGate document options d 0 lines = (found, .ok d')) (entries : Array (Entry α)) :
    (found ++ entries.toList.filterMap (unknownScope? entries)).filter Issue.isFirstPass = found := by
  have hfound : found.filter Issue.isFirstPass = found := by
    rw [List.filter_eq_self]
    intro issue hmem
    exact isFirstPass_of_mem_readLines (show issue ∈ (readLines ..).1 by rwa [h])
  have hunknown : (entries.toList.filterMap (unknownScope? entries)).filter Issue.isFirstPass = [] := by
    rw [List.filter_eq_nil_iff]
    intro issue hmem
    obtain ⟨e, -, he⟩ := List.mem_filterMap.1 hmem
    simp [Issue.isFirstPass, kind_of_unknownScope? he]
  rw [List.filter_append, hfound, hunknown, List.append_nil]

end Draft

-- What stands behind a header is read as it is read alone, whatever stands before it, as long
-- as both are indented by the same unit: all of it is found again, so many nodes and lines
-- further on. Only where go-tos lead may differ.
theorem parse_section_alone {issues : List Issue} {tree : Tree α} (hdocument : document.Built)
    (h : parse isGate document options = (issues, .ok tree)) {front back header name : Text}
    {rest : List Text} (hformat : document.format = front ++ '\n' :: back)
    (hback : Text.lines back = header :: rest) (hflush : Text.leadingBlanks header = [])
    (hheader : Statement.headerName? header = some name)
    (hunit : ∀ unit ∈ Indent.ofLines? options (Text.lines front),
      ∀ other ∈ Indent.ofLines? options (Text.lines back), other = unit) :
    let lines := (Text.lines front).length
    ∃ own ownIssues ownTree nodes, Template.ofFormat back document.args = .ok own ∧
      parse isGate own options = (ownIssues, .ok ownTree) ∧
      tree.nodes.size = nodes + ownTree.nodes.size ∧
      (tree.nodes.toList.filter (lines ≤ ·.line)).map Node.undirected =
        ownTree.nodes.toList.map (fun node => (node.shift nodes lines).undirected) ∧
      (issues.filter fun issue => lines ≤ issue.line && issue.isFirstPass) =
        (ownIssues.filter Issue.isFirstPass).map (Issue.shift lines) := by
  intro lines
  obtain ⟨found, d, hd, rfl, rfl⟩ := parse_eq_ok_iff.1 h
  have hscans := hdocument.scans
  rw [hformat] at hd hscans
  obtain ⟨items, hitems⟩ := Template.scans_iff_exists_splits.1 hscans
  obtain ⟨-, behind, -, -, hbehind⟩ := hitems.cut
  obtain ⟨own, hown, hownFormat, hargs⟩ :=
    (Template.scans_iff_exists_splits.2 ⟨behind, hbehind⟩).exists_ofFormat
  rw [Text.lines_append, hback] at hd
  rw [hback] at hunit
  have hsound := Draft.sound_of_readLines hd
  obtain ⟨earlier, mid, ownFound, alone, hfront, hread, hbehind, rfl⟩ :=
    Draft.exists_behind_of_readLines hd hargs hflush hheader hunit
  obtain ⟨hclosed, hclosedAlone⟩ := hbehind.closed_eq
  have hparse : parse isGate own options =
      (ownFound ++ alone.closed.entries.toList.filterMap (Draft.unknownScope? alone.closed.entries),
        .ok alone.closed.tree) := by
    refine parse_eq_ok_iff.2 ⟨ownFound, alone, ?_, rfl, rfl⟩
    rw [hownFormat, hback]
    exact hread
  refine ⟨own, _, _, mid.entries.size, hown, hparse, ?_, ?_, ?_⟩
  · rw [hclosed, hclosedAlone, Draft.size_tree, Draft.size_tree, hbehind.size_eq, Array.length_toList,
      Nat.add_comm]
  · rw [hclosed, hclosedAlone]
    refine hbehind.nodes_eq hsound.nested fun e hmem => ?_
    obtain ⟨id, he⟩ := Array.mem_iff_getElem?.1 (Array.mem_toList_iff.1 hmem)
    exact (List.getElem?_eq_some_iff.1 (Draft.quotes_of_readLines hfront id e he)).1
  · rw [← List.filter_filter, Draft.filter_isFirstPass hd, Draft.filter_isFirstPass hread, List.filter_append]
    have hbefore : earlier.filter (fun issue => decide (lines ≤ issue.line)) = [] := by
      rw [List.filter_eq_nil_iff]
      intro issue hmem
      have hlt := (Draft.line_of_mem_readLines isGate document options
        (show issue ∈ (Draft.readLines ..).1 by rwa [hfront])).2
      simp only [decide_eq_true_eq]
      omega
    have hafter : (ownFound.map (Issue.shift lines)).filter (fun issue => decide (lines ≤ issue.line)) =
        ownFound.map (Issue.shift lines) := by
      rw [List.filter_eq_self]
      intro issue hmem
      obtain ⟨o, -, rfl⟩ := List.mem_map.1 hmem
      exact decide_eq_true (Nat.le_add_left lines o.line)
    rw [hbefore, hafter, List.nil_append]

-- A go-to that is found in the whole story only, and spaces among tabs
theorem parse_section_alone_mixed :
    let back : Text := "== B\n> c\n\t-> A\n    \x7b0\x7d".toList
    let document : Template Nat := ⟨"-> B\n> a\n\tb\n== A".toList ++ '\n' :: back, [7],
      [.literal "-> B\n> a\n\tb\n== A\n== B\n> c\n\t-> A\n    ".toList, .placeholder ⟨0, none, none⟩]⟩
    document.Built ∧
      ∃ own ownIssues ownTree, Template.ofFormat back document.args = .ok own ∧
        parse (fun _ => false) own .default = (ownIssues, .ok ownTree) ∧ ownTree.nodes.size = 4 ∧
        ownTree.nodes.toList.map (fun node => (node.shift 5 4).undirected) =
          [⟨5, .scope ['B'], 4, [6]⟩, ⟨6, .choice ⟨['c'], [], [.literal ['c']]⟩, 5, [7, 8]⟩,
            ⟨7, .goTo ['A'] none, 6, []⟩,
            ⟨8, .line ⟨"\x7b0\x7d".toList, [7], [.placeholder ⟨0, none, none⟩]⟩, 7, []⟩] ∧
        (ownIssues.filter Issue.isFirstPass).map (Issue.shift 4) =
          [.ofFault 7 "    \x7b0\x7d".toList .mixedIndentation] := by
  intro back document
  have hbuilt : document.Built :=
    .format (show Template.ofFormat document.format document.args = .ok document by decide +kernel)
  have hparse : parse (fun _ => false) document .default =
      ([.ofFault 7 "    \x7b0\x7d".toList .mixedIndentation],
        .ok ⟨#[⟨0, .scope [], 0, [1, 2]⟩, ⟨1, .goTo ['B'] (some 5), 0, []⟩,
          ⟨2, .choice ⟨['a'], [], [.literal ['a']]⟩, 1, [3]⟩,
          ⟨3, .line ⟨['b'], [], [.literal ['b']]⟩, 2, []⟩, ⟨4, .scope ['A'], 3, []⟩,
          ⟨5, .scope ['B'], 4, [6]⟩, ⟨6, .choice ⟨['c'], [], [.literal ['c']]⟩, 5, [7, 8]⟩,
          ⟨7, .goTo ['A'] (some 4), 6, []⟩,
          ⟨8, .line ⟨"\x7b0\x7d".toList, [7], [.placeholder ⟨0, none, none⟩]⟩, 7, []⟩], 0⟩) := by
    decide +kernel
  have hunit : ∀ unit ∈ Indent.ofLines? .default (Text.lines "-> B\n> a\n\tb\n== A".toList),
      ∀ other ∈ Indent.ofLines? .default (Text.lines back), other = unit := by
    have hfront : Indent.ofLines? .default (Text.lines "-> B\n> a\n\tb\n== A".toList) = some ⟨['\t']⟩ := by
      decide
    have hback : Indent.ofLines? .default (Text.lines back) = some ⟨['\t']⟩ := by decide
    rw [hfront, hback]
    rintro unit ⟨⟩ other ⟨⟩
    rfl
  have hlines : Text.lines back = "== B".toList :: ["> c".toList, "\t-> A".toList, "    \x7b0\x7d".toList] := by
    decide
  have hheader : Statement.headerName? "== B".toList = some ['B'] := by decide
  obtain ⟨own, ownIssues, ownTree, nodes, hown, hparse', hsize, hnodes, hissues⟩ :=
    parse_section_alone hbuilt hparse rfl hlines rfl hheader hunit
  have hlength : 4 = ownTree.nodes.size := (congrArg List.length hnodes).trans (by simp)
  obtain rfl : nodes = 5 := by
    have hall : 9 = nodes + ownTree.nodes.size := hsize
    omega
  exact ⟨hbuilt, own, ownIssues, ownTree, hown, hparse', hlength.symm, hnodes.symm, hissues.symm⟩

end Narrative
