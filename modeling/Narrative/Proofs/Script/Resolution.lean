import Narrative.Proofs.Script.Lines
import Narrative.Proofs.Script.Targets

namespace Narrative

variable {α : Type} {isGate : α → Bool} {document : Template α} {options : ParseOptions}

-- The scope that a header of that name has opened, on the line of that header
def Tree.Opens (tree : Tree α) (lines : List Text) (name : Text) (id : NodeId) : Prop :=
  ∃ raw node, lines[node.line]? = some raw ∧ Statement.headerName? raw = some name ∧
    tree.get? id = some node ∧ node.kind = .scope name

def NodeKind.isDangling : NodeKind α → Bool
  | goTo _ none => true
  | _ => false

-- The go-tos that lead nowhere, in the order of their ids
def Tree.dangling (tree : Tree α) : List (Node α) :=
  tree.nodes.toList.filter fun node => node.kind.isDangling

-- A go-to that leads nowhere, and what is reported for it
def Node.Misses (lines : List Text) (node : Node α) (issue : Issue) : Prop :=
  ∃ target raw, node.kind = .goTo target none ∧ lines[node.line]? = some raw ∧
    issue = .ofFault node.line raw (.unknownScope target)

theorem exists_mem_of_forall₂ {β γ : Type} {R : β → γ → Prop} {l : List β} {m : List γ}
    (h : List.Forall₂ R l m) {c : γ} (hmem : c ∈ m) : ∃ b ∈ l, R b c := by
  obtain ⟨i, hi, rfl⟩ := List.getElem_of_mem hmem
  have hlt : i < l.length := h.length_eq.symm ▸ hi
  exact ⟨l[i], List.getElem_mem hlt, h.get hlt hi⟩

theorem map_eq_map_of_forall₂ {β γ δ : Type} {R : β → γ → Prop} {f : β → δ} {g : γ → δ}
    (hR : ∀ {b c}, R b c → f b = g c) {l : List β} {m : List γ} (h : List.Forall₂ R l m) :
    l.map f = m.map g := by
  have hmap : List.Forall₂ (· = ·) (l.map f) (m.map g) := by
    rw [List.forall₂_map_left_iff, List.forall₂_map_right_iff]
    exact h.imp fun _ _ => hR
  rwa [List.forall₂_eq_eq_eq] at hmap

namespace Statement

theorem pairwise_makers (options : ParseOptions) (lines : List Text) :
    (makers options lines).Pairwise fun a b => a.2 < b.2 := by
  apply List.Pairwise.filter
  rw [← List.pairwise_map (f := Prod.snd), List.zipIdx_map_snd]
  exact List.pairwise_lt_range' 1

end Statement

namespace Draft

theorem findScope?_eq_some_iff {entries : Array (Entry α)} (h : Named entries) {name : Text} {id : Nat} :
    findScope? entries name = some id ↔ ∃ e, entries[id]? = some e ∧ e.kind = .scope name := by
  have hfind : findScope? entries name = entries.findIdx? (Entry.isNamed name) := rfl
  rw [hfind, Array.findIdx?_eq_some_iff_getElem]
  simp only [Entry.isNamed_eq_true_iff]
  constructor
  · rintro ⟨hlt, hkind, -⟩
    exact ⟨_, Array.getElem?_eq_getElem hlt, hkind⟩
  · rintro ⟨e, he, hkind⟩
    obtain ⟨hlt, rfl⟩ := Array.getElem?_eq_some_iff.1 he
    refine ⟨hlt, hkind, fun j hj hother => ?_⟩
    exact hj.ne (h.unique (Array.getElem?_eq_getElem (hj.trans hlt)) he hother hkind)

theorem isSome_findScope? (d : Draft α) (name : Text) :
    (findScope? d.entries name).isSome = d.hasScope name :=
  Array.findIdx?_isSome

theorem unknownScope?_goTo {entries : Array (Entry α)} {e : Entry α} {target : Text}
    {written : Option NodeId} (hkind : e.kind = .goTo target written) :
    unknownScope? entries e =
      if findScope? entries target = none then some (.ofFault e.line e.raw (.unknownScope target))
      else none := by
  simp only [unknownScope?, hkind, Option.isNone_iff_eq_none]

-- What is reported when a story is closed goes with the go-tos that lead nowhere.
theorem forall₂_misses {lines : List Text} {d : Draft α} (h : Quotes lines d.entries) :
    List.Forall₂ (Node.Misses lines) d.closed.tree.dangling
      (d.closed.entries.toList.filterMap (unknownScope? d.closed.entries)) := by
  have hquoted : ∀ e ∈ d.closed.entries.toList, e.kind.isScope = false →
      lines[e.line]? = some e.raw := by
    intro e hmem hkind
    obtain ⟨id, he⟩ := Array.mem_iff_getElem?.1 (Array.mem_toList_iff.1 hmem)
    exact h id e (getElem?_of_closed he hkind)
  rw [Tree.dangling, ← List.filterMap_eq_filter]
  refine List.rel_filterMap ?_ ((List.forall₂_and_left _ _).2 ⟨hquoted, d.closed.forall₂_tree⟩).flip
  rintro node e ⟨hraw, hline, hkind⟩
  cases he : e.kind with
  | goTo target written =>
      rw [he] at hraw hkind
      rw [unknownScope?_goTo he]
      cases hfind : findScope? d.closed.entries target with
      | none =>
          rw [resolve, hfind] at hkind
          simp only [Option.guard, hkind, NodeKind.isDangling, if_true]
          exact .some ⟨target, e.raw, hkind, hline ▸ hraw rfl, by rw [hline]⟩
      | some scope =>
          rw [resolve, hfind] at hkind
          simp only [Option.guard, hkind, NodeKind.isDangling, if_false, Bool.false_eq_true, reduceCtorEq]
          exact .none
  | _ =>
      rw [he, resolve] at hkind
      · simp only [Option.guard, hkind, NodeKind.isDangling, if_false, Bool.false_eq_true,
          unknownScope?, he]
        exact .none
      · simp

end Draft

theorem NodeKind.template?_eq_some_iff {kind : NodeKind α} {t : Template α} :
    kind.template? = some t ↔ kind = .line t ∨ kind = .choice t ∨ kind = .comment t := by
  cases kind <;> simp [template?]

theorem Node.Written.headerName?_eq {source : Text × Nat} {node : Node α}
    (h : node.Written document source) {name : Text} (hkind : node.kind = .scope name) :
    Statement.headerName? source.1 = some name := by
  obtain ⟨s, hsays, hmakes⟩ := h.makes
  rw [hkind] at hmakes
  cases hmakes with
  | header hname =>
      rw [Statement.headerName?, Statement.says_iff.1 hsays]
      exact if_neg hname

theorem Node.Written.target_ne_nil {source : Text × Nat} {node : Node α}
    (h : node.Written document source) {target : Text} {destination : Option NodeId}
    (hkind : node.kind = .goTo target destination) : target ≠ [] := by
  obtain ⟨s, -, hmakes⟩ := h.makes
  rw [hkind] at hmakes
  cases hmakes with
  | goTo _ htarget => exact htarget

section

variable {issues : List Issue} {tree : Tree α}

theorem exists_written_of_parse (h : parse isGate document options = (issues, .ok tree)) {id : NodeId}
    {node : Node α} (hnode : tree.get? id = some node) (hkind : node.kind.isAnonymous = false) :
    ∃ raw, (Text.lines document.format)[node.line]? = some raw ∧ node.Written document (raw, node.line) := by
  have hmem : node ∈ tree.written := by
    rw [Tree.written, List.mem_filter, hkind]
    exact ⟨Array.mem_toList_iff.2 (Array.mem_of_getElem? hnode), rfl⟩
  obtain ⟨⟨raw, line⟩, hsource, hwritten⟩ := exists_mem_of_forall₂ (forall₂_written_of_parse h) hmem
  obtain rfl : node.line = line := hwritten.line_eq
  exact ⟨raw, (Statement.mem_makers_iff.1 hsource).1, hwritten⟩

-- What a node shows was made from the text of a line.
theorem Tree.ofFormat_of_parse (h : parse isGate document options = (issues, .ok tree)) {id : NodeId}
    {t : Template α} (ht : tree.template? id = some t) : Template.ofFormat t.format t.args = .ok t := by
  obtain ⟨node, hnode, hkind⟩ := Option.bind_eq_some_iff.1 ht
  rw [NodeKind.template?_eq_some_iff] at hkind
  have hnamed : node.kind.isAnonymous = false := by
    rcases hkind with he | he | he <;> rw [he] <;> rfl
  obtain ⟨raw, -, hwritten⟩ := exists_written_of_parse h hnode hnamed
  obtain ⟨s, -, hmakes⟩ := hwritten.makes
  rcases hkind with he | he | he
  all_goals
    rw [he] at hmakes
    cases hmakes with
    | _ hline => exact Template.ofFormat_of_compactLine hline

theorem opens_of_parse (h : parse isGate document options = (issues, .ok tree)) {id : NodeId}
    {node : Node α} (hnode : tree.get? id = some node) {name : Text} (hkind : node.kind = .scope name)
    (hname : name ≠ []) : tree.Opens (Text.lines document.format) name id := by
  have hmakes : Statement.Makes document (.header name) node.kind := hkind ▸ .header hname
  obtain ⟨raw, hraw, hwritten⟩ := exists_written_of_parse h hnode hmakes.isAnonymous_eq
  exact ⟨raw, node, hraw, hwritten.headerName?_eq hkind, hnode, hkind⟩

-- A go-to leads to the scope of the one header that has its target as name, wherever that
-- header stands, and nowhere if there is none.
theorem destination_of_parse (h : parse isGate document options = (issues, .ok tree)) {id : NodeId}
    {node : Node α} (hnode : tree.get? id = some node) {target : Text} {destination : Option NodeId}
    (hkind : node.kind = .goTo target destination) :
    (destination.isSome = true ↔ target ∈ Statement.headerNames (Text.lines document.format)) ∧
      ∀ scope, destination = some scope ↔ tree.Opens (Text.lines document.format) target scope := by
  obtain ⟨_, _, hwritten⟩ := exists_written_of_parse h hnode (by rw [hkind]; rfl)
  have htarget := hwritten.target_ne_nil hkind
  obtain ⟨found, d, hd, -, rfl⟩ := parse_eq_ok_iff.1 h
  obtain ⟨e, he, rfl⟩ := Draft.get?_tree_eq_some_iff.1 hnode
  obtain ⟨-, rfl⟩ := Draft.resolve_eq_goTo_iff.1 hkind
  constructor
  · rw [Draft.isSome_findScope?, Draft.closed, Draft.hasScope_withScope d htarget,
      (Draft.collects_of_readLines hd).hasScope_iff htarget]
  · intro scope
    have hnamed : Draft.Named d.closed.entries :=
      ((Draft.sound_of_readLines hd).withScope 0 []).named
    rw [Draft.findScope?_eq_some_iff hnamed, ← Draft.kind_tree_eq_scope_iff]
    constructor
    · rintro ⟨other, hother, hscope⟩
      exact opens_of_parse h hother hscope htarget
    · rintro ⟨raw, other, -, -, hother, hscope⟩
      exact ⟨other, hother, hscope⟩

-- Nodes that stand for lines follow each other as their lines do.
theorem pairwise_line_written (h : parse isGate document options = (issues, .ok tree)) :
    tree.written.Pairwise fun a b => a.line < b.line := by
  have hlines : (Statement.makers options (Text.lines document.format)).map (·.2) =
      tree.written.map (·.line) :=
    map_eq_map_of_forall₂ (fun hwritten => hwritten.line_eq.symm) (forall₂_written_of_parse h)
  rw [← List.pairwise_map (f := fun node : Node α => node.line), ← hlines, List.pairwise_map]
  exact Statement.pairwise_makers options _

theorem Tree.dangling_eq (tree : Tree α) :
    tree.dangling = tree.written.filter fun node => node.kind.isDangling := by
  rw [written, List.filter_filter, dangling]
  refine List.filter_congr fun node _ => ?_
  cases node.kind <;> simp [NodeKind.isDangling, NodeKind.isAnonymous]

theorem quotes_of_parse (h : parse isGate document options = (issues, .ok tree)) {issue : Issue}
    (hmem : issue ∈ issues) :
    ∃ raw, (Text.lines document.format)[issue.line]? = some raw ∧ issue.text = some raw := by
  obtain ⟨found, d, hd, rfl, -⟩ := parse_eq_ok_iff.1 h
  rcases List.mem_append.1 hmem with hfound | hunknown
  · obtain ⟨raw, fault, hraw, he, -⟩ := Draft.exists_fault_of_readLines hd hfound
    exact ⟨raw, hraw, by rw [he]; rfl⟩
  · obtain ⟨node, -, target, raw, -, hraw, rfl⟩ :=
      exists_mem_of_forall₂ (Draft.forall₂_misses (Draft.quotes_of_readLines hd)) hunknown
    exact ⟨raw, hraw, rfl⟩

-- Go-tos are resolved when all lines have been read. What the lines are reported for comes
-- first and in their order, no line being blamed twice for one thing, and then the go-tos
-- that lead nowhere, one by one and in their order. All that is reported quotes its line.
theorem parse_resolves_in_order (h : parse isGate document options = (issues, .ok tree)) :
    let lines := Text.lines document.format
    (∀ id node target destination, tree.get? id = some node → node.kind = .goTo target destination →
      (destination.isSome = true ↔ target ∈ Statement.headerNames lines) ∧
        ∀ scope, destination = some scope ↔ tree.Opens lines target scope) ∧
    (∃ found unknown, issues = found ++ unknown ∧
      found = (Draft.readLines isGate document options .empty 0 lines).1 ∧
      (found.Pairwise fun a b => a.line ≤ b.line) ∧
      (∀ issue ∈ found, issue.kind ≠ .unknownScope) ∧
      (∀ line, Draft.Sparing (found.filter fun issue => issue.line = line)) ∧
      List.Forall₂ (Node.Misses lines) tree.dangling unknown ∧
      unknown.Pairwise fun a b => a.line < b.line) ∧
    ∀ issue ∈ issues, ∃ raw, lines[issue.line]? = some raw ∧ issue.text = some raw := by
  intro lines
  refine ⟨fun _ _ _ _ hnode hkind => destination_of_parse h hnode hkind, ?_,
    fun _ hmem => quotes_of_parse h hmem⟩
  have hsorted : tree.dangling.Pairwise fun a b => a.line < b.line := by
    rw [Tree.dangling_eq]
    exact (pairwise_line_written h).filter _
  obtain ⟨found, d, hd, rfl, rfl⟩ := parse_eq_ok_iff.1 h
  have hmisses := Draft.forall₂_misses (Draft.quotes_of_readLines hd)
  refine ⟨found, _, rfl, by rw [hd], Draft.pairwise_line_of_readLines hd, ?_,
    Draft.sparing_of_readLines hd, hmisses, ?_⟩
  · intro issue hmem
    obtain ⟨raw, fault, -, he, hkind⟩ := Draft.exists_fault_of_readLines hd hmem
    rw [he]
    exact hkind
  · have hlines := map_eq_map_of_forall₂ (f := fun node : Node α => node.line)
      (g := fun issue : Issue => issue.line) (by rintro node issue ⟨_, _, _, _, rfl⟩; rfl) hmisses
    rw [← List.pairwise_map (f := fun issue : Issue => issue.line), ← hlines, List.pairwise_map]
    exact hsorted

-- A go-to to a header that follows, one that leads nowhere, and a return that is reported for
-- its content and for both faults of its indentation
theorem parse_resolves_later_header :
    let document : Template Nat := ⟨"-> B\n\t  -> X\n <- c\n== B".toList, [], []⟩
    ∃ issues tree, parse (fun _ => false) document .default = (issues, .ok tree) ∧
      tree.Opens (Text.lines document.format) ['B'] 4 ∧
      ∃ found issue, issues = found ++ [issue] ∧ found.length = 5 ∧
        Draft.Sparing (found.filter fun issue => issue.line = 2) ∧
        Node.Misses (Text.lines document.format) (⟨2, .goTo ['X'] none, 1, []⟩ : Node Nat) issue := by
  intro document
  have hparse : parse (fun _ => false) document .default =
      ([.ofFault 1 "\t  -> X".toList .mixedIndentation, .ofFault 1 "\t  -> X".toList .cannotOwn,
          .ofFault 2 " <- c".toList .mixedIndentation, .ofFault 2 " <- c".toList .partialUnit,
          .ofFault 2 " <- c".toList (.returnContent ['c']),
          .ofFault 1 "\t  -> X".toList (.unknownScope ['X'])],
        .ok ⟨#[⟨0, .scope [], 0, [1, 2, 3]⟩, ⟨1, .goTo ['B'] (some 4), 0, []⟩,
          ⟨2, .goTo ['X'] none, 1, []⟩, ⟨3, .ret, 2, []⟩, ⟨4, .scope ['B'], 3, []⟩], 0⟩) := by
    decide +kernel
  obtain ⟨hgoTo, ⟨found, unknown, hissues, -, -, -, hsparing, hmisses, -⟩, -⟩ :=
    parse_resolves_in_order hparse
  have hopens := ((hgoTo 1 _ ['B'] (some 4) rfl rfl).2 4).1 rfl
  obtain ⟨issue, _, hmiss, ⟨⟩, rfl⟩ := List.forall₂_cons_left_iff.1 hmisses
  have hlength := congrArg List.length hissues
  rw [List.length_append] at hlength
  exact ⟨_, _, hparse, hopens, found, issue, hissues, (Nat.succ.inj hlength).symm, hsparing 2, hmiss⟩

end

end Narrative
