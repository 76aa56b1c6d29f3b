import Mathlib.Data.List.Forall2
import Narrative.Proofs.Outline.Printed
import Narrative.Proofs.Script.Outcome
import Narrative.Proofs.Script.Reports

namespace Narrative

variable {α : Type} {isGate : α → Bool} {document : Template α} {options : ParseOptions}

namespace Statement

-- What a line without its indentation says, told by the mark that it begins with. What is
-- in front of the content and behind it does not count.
inductive Says (body : Text) : Statement → Prop
  | header {rest : Text} (h : body = "==".toList ++ rest) : Says body (.header (headerName rest))
  | goTo {rest : Text} (h : body = "->".toList ++ rest) : Says body (.goTo (Text.trim rest))
  | ret {rest : Text} (h : body = "<-".toList ++ rest) : Says body (.ret (Text.trim rest))
  | choice {rest : Text} (h : body = ">".toList ++ rest) : Says body (.choice (Text.trim rest))
  | closeChoice {rest : Text} (h : body = "<".toList ++ rest) (hret : ¬ "<-".toList <+: body) :
      Says body (.closeChoice (Text.trim rest))
  | comment {rest : Text} (h : body = "//".toList ++ rest) : Says body (.comment (Text.trim rest))
  | line (h : ∀ mark ∈ Phrase.marks, ¬ mark <+: body) : Says body (.line (Text.trimEnd body))

-- Every line says one thing.
theorem says_iff {body : Text} {s : Statement} : Says body s ↔ ofBody body = s := by
  constructor
  · intro h
    cases h with
    | header h | goTo h | ret h | choice h | comment h =>
        subst h
        rfl
    | @closeChoice rest h hret =>
        subst h
        unfold ofBody
        split
        · next he => cases he
        · next he => cases he
        · next more he =>
          obtain rfl : rest = '-' :: more := (List.cons.inj he).2
          exact absurd ⟨more, rfl⟩ hret
        · next he => cases he
        · next more _ he =>
          obtain rfl : rest = more := (List.cons.inj he).2
          rfl
        · next he => cases he
        · next hclose _ => exact absurd rfl (hclose rest)
    | line h => exact ofBody_of_marks h
  · rintro rfl
    unfold ofBody
    split
    · exact .header rfl
    · exact .goTo rfl
    · exact .ret rfl
    · exact .choice rfl
    · next rest hret =>
      refine .closeChoice rfl ?_
      rintro ⟨more, he⟩
      exact hret more (List.cons.inj he).2.symm
    · exact .comment rfl
    · next hheader hgoTo _ hchoice hclose hcomment =>
      apply Says.line
      rintro mark hmark ⟨rest, rfl⟩
      simp only [Phrase.marks, List.mem_cons, List.not_mem_nil, or_false] at hmark
      rcases hmark with rfl | rfl | rfl | rfl | rfl
      · exact hheader rest rfl
      · exact hgoTo rest rfl
      · exact hclose rest rfl
      · exact hchoice rest rfl
      · exact hcomment rest rfl

-- The node that a statement makes. Where a go-to leads is not told by it.
inductive Makes (document : Template α) : Statement → NodeKind α → Prop
  | header {name : Text} (h : name ≠ []) : Makes document (.header name) (.scope name)
  | goTo {target : Text} (destination : Option NodeId) (h : target ≠ []) :
      Makes document (.goTo target) (.goTo target destination)
  | ret (content : Text) : Makes document (.ret content) .ret
  | closeChoice (content : Text) : Makes document (.closeChoice content) .closeChoice
  | choice {label : Text} {t : Template α} (h : document.compactLine label = .ok t) :
      Makes document (.choice label) (.choice t)
  | comment {note : Text} {t : Template α} (h : document.compactLine note = .ok t) :
      Makes document (.comment note) (.comment t)
  | line {shown : Text} {t : Template α} (h : document.compactLine shown = .ok t) :
      Makes document (.line shown) (.line t)

-- Whether a line makes a node: headers and go-tos that name something, comments that are
-- kept, and all else that is not blank.
def makesNode (options : ParseOptions) (raw : Text) : Bool :=
  !Text.allBlank raw &&
    match ofBody (Text.trimStart raw) with
    | header name => name ≠ []
    | goTo target => target ≠ []
    | comment _ => options.keepComments
    | _ => true

-- The lines of a script that make nodes, each with its number
def makers (options : ParseOptions) (lines : List Text) : List (Text × Nat) :=
  lines.zipIdx.filter fun source => makesNode options source.1

theorem makers_append (options : ParseOptions) (lines : List Text) (raw : Text) :
    makers options (lines ++ [raw]) =
      makers options lines ++ if makesNode options raw then [(raw, lines.length)] else [] := by
  rw [makers, List.zipIdx_append, List.filter_append, Nat.zero_add]
  cases hmakes : makesNode options raw <;> simp [makers, hmakes]

theorem mem_makers_iff {options : ParseOptions} {lines : List Text} {raw : Text} {line : Nat} :
    (raw, line) ∈ makers options lines ↔ lines[line]? = some raw ∧ makesNode options raw = true := by
  rw [makers, List.mem_filter, List.mk_mem_zipIdx_iff_getElem?]

-- Whether a statement has the name that it needs
def named : Statement → Bool
  | header name => name ≠ []
  | goTo target => target ≠ []
  | _ => true

theorem makesNode_of_ofLine?_eq_none {raw : Text} (h : ofLine? options raw = none) :
    makesNode options raw = false := by
  unfold ofLine? at h
  unfold makesNode
  split at h
  · next hblank => rw [hblank, Bool.not_true, Bool.false_and]
  · split at h
    · next hbody =>
      rw [hbody]
      split at h
      · cases h
      · next hkeep => simp [hkeep]
    · cases h

theorem makesNode_eq_named {raw : Text} {s : Statement} (h : ofLine? options raw = some s) :
    makesNode options raw = s.named := by
  unfold ofLine? at h
  unfold makesNode
  split at h
  · cases h
  · next hblank =>
    rw [eq_false_of_ne_true hblank, Bool.not_false, Bool.true_and]
    split at h
    · next hbody =>
      rw [hbody]
      split at h
      · next hkeep =>
        cases h
        exact hkeep
      · cases h
    · next hcomment =>
      cases h
      cases hbody : ofBody (Text.trimStart raw) with
      | comment note => exact absurd hbody (hcomment note)
      | _ => rfl

theorem named_and_makes_of_node? {s : Statement} {kind : NodeKind α}
    (h : s.node? document = .ok (some kind)) : s.named = true ∧ s.Makes document kind := by
  cases s with
  | header name => cases h
  | goTo target =>
      simp only [node?, Except.ok.injEq] at h
      split at h
      · cases h
      · next hname =>
        cases h
        exact ⟨decide_eq_true hname, .goTo none hname⟩
  | ret content =>
      cases h
      exact ⟨rfl, .ret content⟩
  | closeChoice content =>
      cases h
      exact ⟨rfl, .closeChoice content⟩
  | choice content | comment content | line content =>
      simp only [node?] at h
      cases hcompact : document.compactLine content with
      | error e =>
          rw [hcompact] at h
          cases h
      | ok t =>
          rw [hcompact] at h
          cases h
          exact ⟨rfl, by constructor; exact hcompact⟩

theorem eq_goTo_nil_of_node? {s : Statement} (hheader : ∀ name, s ≠ .header name)
    (h : s.node? document = .ok none) : s = .goTo [] := by
  cases s with
  | header name => exact absurd rfl (hheader name)
  | goTo target =>
      simp only [node?, Except.ok.injEq] at h
      split at h
      · next hname => rw [hname]
      · cases h
  | ret content | closeChoice content => cases h
  | choice content | comment content | line content =>
      simp only [node?] at h
      cases hcompact : document.compactLine content <;> rw [hcompact] at h <;> cases h

end Statement

-- A scope without a name stands for no line.
def NodeKind.isAnonymous : NodeKind α → Bool
  | scope [] => true
  | _ => false

theorem Statement.Makes.isAnonymous_eq {s : Statement} {kind : NodeKind α} (h : s.Makes document kind) :
    kind.isAnonymous = false := by
  cases h with
  | @header name h =>
      cases name with
      | nil => exact absurd rfl h
      | cons c name => rfl
  | _ => rfl

-- What a line makes is kept with the line.
structure Entry.Written (document : Template α) (source : Text × Nat) (e : Entry α) : Prop where
  line_eq : e.line = source.2
  raw_eq : e.raw = source.1
  makes : ∃ s, Statement.Says (Text.trimStart source.1) s ∧ s.Makes document e.kind

namespace Draft

-- All entries that stand for lines
def written (entries : Array (Entry α)) : List (Entry α) :=
  entries.toList.filter fun e => !e.kind.isAnonymous

theorem written_push (entries : Array (Entry α)) (e : Entry α) :
    written (entries.push e) = written entries ++ if e.kind.isAnonymous then [] else [e] := by
  rw [written, Array.toList_push, List.filter_append]
  cases h : e.kind.isAnonymous <;> simp [written, h]

theorem written_withScope (d : Draft α) (line : Nat) (raw : Text) :
    written (d.withScope line raw).entries = written d.entries := by
  unfold withScope
  split
  · rw [addScope, written_push]
    exact List.append_nil _
  · rfl

-- The lines that make nodes and the entries that stand for lines go together, one by one.
def Accounts (document : Template α) (options : ParseOptions) (lines : List Text) (d : Draft α) : Prop :=
  List.Forall₂ (Entry.Written document) (Statement.makers options lines) (written d.entries)

namespace Accounts

variable {lines : List Text} {raw : Text} {d d' : Draft α}

theorem skip (h : Accounts document options lines d) (hmakes : Statement.makesNode options raw = false)
    (hentries : written d'.entries = written d.entries) :
    Accounts document options (lines ++ [raw]) d' := by
  rw [Accounts, Statement.makers_append, hmakes, hentries, if_neg Bool.false_ne_true, List.append_nil]
  exact h

theorem add (h : Accounts document options lines d) {e : Entry α}
    (hmakes : Statement.makesNode options raw = true) (he : e.Written document (raw, lines.length))
    (hentries : d'.entries = (d.withScope lines.length raw).entries.push e ∨ d'.entries = d.entries.push e) :
    Accounts document options (lines ++ [raw]) d' := by
  obtain ⟨s, -, hkind⟩ := he.makes
  have hwritten : written d'.entries = written d.entries ++ [e] := by
    rcases hentries with hentries | hentries <;>
      rw [hentries, written_push, hkind.isAnonymous_eq, if_neg Bool.false_ne_true]
    rw [written_withScope]
  rw [Accounts, Statement.makers_append, hmakes, if_pos rfl, hwritten]
  exact List.rel_append h (.cons he .nil)

end Accounts

theorem Reads.accounts {lines : List Text} {raw : Text} {d d' : Draft α} {issues : List Issue}
    (h : Reads isGate document options lines.length raw d issues d')
    (hd : Accounts document options lines d) : Accounts document options (lines ++ [raw]) d' := by
  have hsays : ∀ {s : Statement}, Statement.ofLine? options raw = some s →
      Statement.Says (Text.trimStart raw) s := fun hs =>
    Statement.says_iff.2 (Statement.eq_ofBody_of_ofLine? hs).symm
  cases h with
  | silent hs => exact hd.skip (Statement.makesNode_of_ofLine?_eq_none hs) rfl
  | nameless hs =>
      apply hd.skip (Statement.makesNode_eq_named hs)
      rw [entries_measured]
  | opened name hs hname =>
      have hmakes := (Statement.makesNode_eq_named hs).trans (decide_eq_true hname)
      apply hd.add (e := ⟨.scope name, lines.length, raw, none⟩) hmakes
        ⟨rfl, rfl, _, hsays hs, .header hname⟩
      right
      rw [addScope, entries_measured]
  | unplaced s hs hheader hnode =>
      obtain rfl := Statement.eq_goTo_nil_of_node? hheader hnode
      apply hd.skip (Statement.makesNode_eq_named hs)
      rw [entries_measured, written_withScope]
  | placed s kind spine hs hnode =>
      obtain ⟨hnamed, hkind⟩ := Statement.named_and_makes_of_node? hnode
      have hmakes := (Statement.makesNode_eq_named hs).trans hnamed
      apply hd.add (e := ⟨kind, lines.length, raw,
        some (spine.openAt ((d.withScope lines.length raw).depthOf raw)).parent⟩) hmakes
        ⟨rfl, rfl, s, hsays hs, hkind⟩
      left
      rw [addNode, entries_measured]

theorem accounts_of_readLines {lines : List Text} {d : Draft α} {issues : List Issue}
    (h : readLines isGate document options .empty 0 lines = (issues, .ok d)) :
    Accounts document options lines d :=
  readLines_induction isGate document options
    (P := fun lines _ d => Accounts document options lines d) .nil
    (fun _ _ _ _ _ _ hd hreads => hreads.accounts hd) h

end Draft

theorem forall₂_comp {β γ δ : Type} {R : β → γ → Prop} {S : γ → δ → Prop} {T : β → δ → Prop}
    (hcomp : ∀ {a b c}, R a b → S b c → T a c) {l : List β} {m : List γ} {n : List δ}
    (h : List.Forall₂ R l m) (h' : List.Forall₂ S m n) : List.Forall₂ T l n := by
  induction h generalizing n with
  | nil =>
      cases h'
      exact .nil
  | cons hr _ ih =>
      cases h' with
      | cons hs hrest => exact .cons (hcomp hr hs) (ih hrest)

-- A node stands for the line that it was made from.
structure Node.Written (document : Template α) (source : Text × Nat) (node : Node α) : Prop where
  line_eq : node.line = source.2
  makes : ∃ s, Statement.Says (Text.trimStart source.1) s ∧ s.Makes document node.kind

-- All nodes that stand for lines, in the order of their ids
def Tree.written (t : Tree α) : List (Node α) :=
  t.nodes.toList.filter fun node => !node.kind.isAnonymous

namespace Draft

theorem isAnonymous_resolve (entries : Array (Entry α)) (kind : NodeKind α) :
    (resolve entries kind).isAnonymous = kind.isAnonymous := by
  cases kind <;> rfl

theorem makes_resolve (entries : Array (Entry α)) {s : Statement} {kind : NodeKind α}
    (h : s.Makes document kind) : s.Makes document (resolve entries kind) := by
  cases h with
  | goTo destination h => exact .goTo _ h
  | header h => exact .header h
  | ret content => exact .ret content
  | closeChoice content => exact .closeChoice content
  | choice h => exact .choice h
  | comment h => exact .comment h
  | line h => exact .line h

theorem forall₂_tree (d : Draft α) :
    List.Forall₂ (fun e node => node.line = e.line ∧ node.kind = resolve d.entries e.kind)
      d.entries.toList d.tree.nodes.toList := by
  rw [List.forall₂_iff_get]
  refine ⟨by simp, fun i hi _ => ?_⟩
  simp [tree]

theorem forall₂_written_tree (d : Draft α) :
    List.Forall₂ (fun e node => node.line = e.line ∧ node.kind = resolve d.entries e.kind)
      (written d.entries) d.tree.written := by
  refine List.rel_filter ?_ d.forall₂_tree
  rintro e node ⟨-, hkind⟩
  simp only [hkind, isAnonymous_resolve]

end Draft

-- Lines that make nodes and nodes that stand for lines go together, one by one.
theorem forall₂_written_of_parse {issues : List Issue} {tree : Tree α}
    (h : parse isGate document options = (issues, .ok tree)) :
    List.Forall₂ (Node.Written document) (Statement.makers options (Text.lines document.format))
      tree.written := by
  obtain ⟨found, d, hd, -, rfl⟩ := parse_eq_ok_iff.1 h
  have haccounts := Draft.accounts_of_readLines hd
  rw [Draft.Accounts, ← Draft.written_withScope d 0 []] at haccounts
  refine forall₂_comp ?_ haccounts (Draft.forall₂_written_tree d.closed)
  rintro source e node ⟨hline, -, s, hsays, hmakes⟩ ⟨hnode, hkind⟩
  exact ⟨hnode.trans hline, s, hsays, hkind ▸ Draft.makes_resolve _ hmakes⟩

theorem Statement.eq_nameless_of_named_eq_false {s : Statement} (h : s.named = false) :
    s = .header [] ∨ s = .goTo [] := by
  cases s with
  | header name => exact .inl (congrArg header (by simpa [named] using h))
  | goTo target => exact .inr (congrArg goTo (by simpa [named] using h))
  | _ => cases h

-- A line that lacks the name that it needs is reported for that, once.
theorem countP_tokenEmpty_of_parse {issues : List Issue} {tree : Tree α}
    (h : parse isGate document options = (issues, .ok tree)) {line : Nat} {raw : Text}
    (hraw : (Text.lines document.format)[line]? = some raw) {s : Statement}
    (hs : Statement.ofLine? options raw = some s) (hnamed : s.named = false) :
    issues.countP (fun issue => issue.line = line ∧ issue.kind = .tokenEmpty) = 1 := by
  obtain ⟨found, d, hd, -, -⟩ := parse_eq_ok_iff.1 h
  obtain ⟨before, own, after, hreads, hcount⟩ := Draft.exists_reads_of_readLines hd hraw
  obtain ⟨indentation, hindented, hperm⟩ := hreads.exists_indented hs
  have hnone : indentation.countP (·.kind = .tokenEmpty) = 0 := by
    rw [List.countP_eq_zero]
    intro fault hmem
    rcases hindented.kind_eq fault hmem with he | he <;> simp [he]
  have hone : s.faults.countP (·.kind = .tokenEmpty) = 1 := by
    rcases Statement.eq_nameless_of_named_eq_false hnamed with rfl | rfl <;> rfl
  have hunknown : ∀ issue : Issue, issue.kind = .unknownScope →
      decide (issue.line = line ∧ issue.kind = .tokenEmpty) = false := by
    intro issue hkind
    simp [hkind]
  have hparse := Draft.countP_parse isGate document options hunknown
  rw [h, hd] at hparse
  rw [hparse]
  have hown := hcount fun issue => issue.kind = .tokenEmpty
  simp only [decide_eq_true_eq] at hown
  rw [hown, hperm.countP_eq, List.countP_map, List.countP_append]
  have hsum := congrArg₂ (· + ·) hnone hone
  exact hsum

-- What a line that is not blank and makes no node is
theorem Statement.cases_of_not_makesNode {raw : Text} (hblank : Text.allBlank raw = false)
    (hmakes : makesNode options raw = false) :
    (options.keepComments = false ∧ ∃ note, Says (Text.trimStart raw) (.comment note)) ∨
      ∃ s, ofLine? options raw = some s ∧ s.named = false := by
  cases hs : ofLine? options raw with
  | some s => exact .inr ⟨s, rfl, (makesNode_eq_named hs).symm.trans hmakes⟩
  | none =>
      unfold ofLine? at hs
      rw [if_neg (ne_true_of_eq_false hblank)] at hs
      split at hs
      · next note hbody =>
        split at hs
        · cases hs
        · next hkeep => exact .inl ⟨eq_false_of_ne_true hkeep, note, says_iff.2 hbody⟩
      · cases hs

theorem Tree.WellFormed.map_id {tree : Tree α} (h : tree.WellFormed isGate) :
    tree.nodes.toList.map (·.id) = List.range tree.nodes.size := by
  apply List.ext_getElem (by simp)
  intro i _ hi
  have hlt : i < tree.nodes.size := by simpa using hi
  have hnode : tree.get? i = some tree.nodes[i] := Array.getElem?_eq_getElem hlt
  simpa using h.id_eq hnode

theorem Tree.WellFormed.id_eq_root {tree : Tree α} (h : tree.WellFormed isGate) {node : Node α}
    (hmem : node ∈ tree.nodes.toList) (hanonymous : node.kind.isAnonymous = true) : node.id = tree.root := by
  obtain ⟨i, hi⟩ := Array.mem_iff_getElem?.1 (Array.mem_toList_iff.1 hmem)
  unfold NodeKind.isAnonymous at hanonymous
  split at hanonymous
  · next hkind =>
    rw [h.id_eq hi]
    exact h.anonymous hi hkind
  · cases hanonymous

-- No line is lost, none counts twice, and none is taken for another: the nodes of a story,
-- without the scope that has no name, are those of the lines that make nodes, in their order
-- and each with its number. What makes none is a comment that is not kept, or it lacks the
-- name that it needs and is reported for it.
theorem parse_accounts_for_lines {issues : List Issue} {tree : Tree α}
    (h : parse isGate document options = (issues, .ok tree)) :
    let lines := Text.lines document.format
    List.Forall₂ (Node.Written document) (Statement.makers options lines) tree.written ∧
    tree.nodes.toList.map (·.id) = List.range tree.nodes.size ∧
    (∀ node ∈ tree.nodes.toList, node.kind.isAnonymous = true → node.id = tree.root) ∧
    ∀ line raw, lines[line]? = some raw → Text.allBlank raw = false →
      (raw, line) ∉ Statement.makers options lines →
      (options.keepComments = false ∧ ∃ note, Statement.Says (Text.trimStart raw) (.comment note)) ∨
      (Statement.Says (Text.trimStart raw) (.header []) ∨ Statement.Says (Text.trimStart raw) (.goTo [])) ∧
        issues.countP (fun issue => issue.line = line ∧ issue.kind = .tokenEmpty) = 1 := by
  intro lines
  have hwell := wellFormed_of_parse h
  refine ⟨forall₂_written_of_parse h, hwell.map_id, fun node => hwell.id_eq_root, ?_⟩
  intro line raw hraw hblank hout
  have hmakes : Statement.makesNode options raw = false := by
    rw [Statement.mem_makers_iff, not_and] at hout
    exact eq_false_of_ne_true (hout hraw)
  obtain hcomment | ⟨s, hs, hnamed⟩ := Statement.cases_of_not_makesNode hblank hmakes
  · exact .inl hcomment
  · have hsays := Statement.says_iff.2 (Statement.eq_ofBody_of_ofLine? hs).symm
    refine .inr ⟨?_, countP_tokenEmpty_of_parse h hraw hs hnamed⟩
    rcases Statement.eq_nameless_of_named_eq_false hnamed with rfl | rfl
    · exact .inl hsays
    · exact .inr hsays

-- A header and a go-to that name nothing, a comment that is not kept, and a choice that is
-- indented by half a unit
theorem parse_accounts_for_nameless_goTo :
    let document : Template Nat := ⟨"==\n// a\n->\n  b\n== C\n > d".toList, [], []⟩
    ∃ issues tree, parse (fun _ => false) document .default = (issues, .ok tree) ∧
      List.Forall₂ (Node.Written document) [("  b".toList, 3), ("== C".toList, 4), (" > d".toList, 5)]
        tree.written ∧
      issues.countP (fun issue => issue.line = 2 ∧ issue.kind = .tokenEmpty) = 1 := by
  intro document
  have hparse : parse (fun _ => false) document .default =
      ([.ofFault 0 "==".toList .namelessHeader, .ofFault 2 "->".toList .namelessGoTo,
          .ofFault 3 "  b".toList .cannotOwn, .ofFault 5 " > d".toList .partialUnit],
        .ok ⟨#[⟨0, .scope [], 2, [1]⟩, ⟨1, .line ⟨['b'], [], [.literal ['b']]⟩, 3, []⟩,
          ⟨2, .scope ['C'], 4, [3]⟩, ⟨3, .choice ⟨['d'], [], [.literal ['d']]⟩, 5, []⟩], 0⟩) := by
    decide +kernel
  obtain ⟨hnodes, -, -, hothers⟩ := parse_accounts_for_lines hparse
  refine ⟨_, _, hparse, hnodes, ?_⟩
  obtain ⟨hkeep, note, hnote⟩ | ⟨-, hcount⟩ := hothers 2 "->".toList (by decide) (by decide) (by decide)
  · cases Statement.says_iff.1 hnote
  · exact hcount

end Narrative
