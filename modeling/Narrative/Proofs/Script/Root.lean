import Narrative.Proofs.Script.Lines

namespace Narrative

variable {α : Type} {isGate : α → Bool} {document : Template α} {options : ParseOptions}

namespace Statement

-- A go-to that is dropped, because it names nothing
def isNamelessGoTo (raw : Text) : Bool := ofBody (Text.trimStart raw) = goTo []

-- Whether a line opens a scope if none is open yet: a header its own, all else that is not
-- passed over in silence the one without a name
def opensScope (options : ParseOptions) (raw : Text) : Bool :=
  match ofLine? options raw with
  | none => false
  | some (header name) => name ≠ []
  | some _ => true

theorem opensScope_eq (options : ParseOptions) (raw : Text) :
    opensScope options raw = (makesNode options raw || isNamelessGoTo raw) := by
  unfold opensScope
  cases hs : ofLine? options raw with
  | none =>
      rw [makesNode_of_ofLine?_eq_none hs, Bool.false_or, eq_comm]
      -- what says nothing is blank or a comment
      apply decide_eq_false
      intro hgoTo
      unfold ofLine? at hs
      split at hs
      · next hblank =>
        rw [trimStart_of_allBlank hblank] at hgoTo
        cases hgoTo
      · rw [hgoTo] at hs
        cases hs
  | some s =>
      rw [makesNode_eq_named hs, isNamelessGoTo, ← eq_ofBody_of_ofLine? hs]
      cases s with
      | header name => simp [named]
      | goTo target => by_cases h : target = [] <;> simp [named, h]
      | _ => rfl

theorem any_opensScope_eq_false_iff {lines : List Text} :
    lines.any (opensScope options) = false ↔
      makers options lines = [] ∧ ∀ raw ∈ lines, isNamelessGoTo raw = false := by
  have hmakers : makers options lines = [] ↔ ∀ raw ∈ lines, makesNode options raw = false := by
    rw [List.eq_nil_iff_forall_not_mem]
    constructor
    · intro h raw hmem
      obtain ⟨line, hline⟩ := List.mem_iff_getElem?.1 hmem
      exact eq_false_of_ne_true fun hmakes => h (raw, line) (mem_makers_iff.2 ⟨hline, hmakes⟩)
    · rintro h ⟨raw, line⟩ hmem
      obtain ⟨hline, hmakes⟩ := mem_makers_iff.1 hmem
      rw [h raw (List.mem_of_getElem? hline)] at hmakes
      cases hmakes
  simp only [List.any_eq_false, opensScope_eq, Bool.not_eq_true, Bool.or_eq_false_iff, hmakers]
  exact forall₂_and

end Statement

namespace Draft

variable {lines : List Text} {d d' : Draft α} {issues : List Issue}

theorem Reads.isSome_spine {line : Nat} {raw : Text}
    (h : Reads isGate document options line raw d issues d') :
    d'.spine.isSome = (d.spine.isSome || Statement.opensScope options raw) := by
  have hopens : ∀ {s : Statement}, Statement.ofLine? options raw = some s →
      (∀ name, s ≠ .header name) → Statement.opensScope options raw = true := by
    intro s hs hheader
    unfold Statement.opensScope
    rw [hs]
    cases s with
    | header name => exact absurd rfl (hheader name)
    | _ => rfl
  cases h with
  | silent hs => rw [Statement.opensScope, hs, Bool.or_false]
  | nameless hs =>
      rw [Statement.opensScope, hs, spine_measured]
      exact (Bool.or_false _).symm
  | opened name hs hname =>
      have hopen : Statement.opensScope options raw = true := by
        rw [Statement.opensScope, hs]
        exact decide_eq_true hname
      rw [hopen, Bool.or_true]
      rfl
  | unplaced s hs hheader =>
      obtain ⟨spine, hspine⟩ := d.exists_spine_withScope line raw
      rw [spine_measured, hspine, hopens hs hheader, Bool.or_true]
      rfl
  | placed s kind spine hs hnode =>
      have hheader : ∀ name, s ≠ .header name := by
        rintro name rfl
        cases hnode
      rw [hopens hs hheader, Bool.or_true]
      rfl

-- A scope is open when a line before has opened one.
theorem isSome_spine_of_readLines
    (h : readLines isGate document options .empty 0 lines = (issues, .ok d)) :
    d.spine.isSome = lines.any (Statement.opensScope options) := by
  refine readLines_induction isGate document options
    (P := fun lines _ d => d.spine.isSome = lines.any (Statement.opensScope options)) rfl ?_ h
  intro before earlier issues raw d d' hd hreads
  rw [hreads.isSome_spine, hd, List.any_append, List.any_cons, List.any_nil, Bool.or_false]

-- The header of a scope opens it, whatever stands before.
theorem Reads.opened_of_header {line : Nat} {raw name : Text}
    (h : Reads isGate document options line raw d issues d')
    (hraw : Statement.headerName? raw = some name) :
    issues = (d.headerFaults name raw).map (.ofFault line raw) ∧
      d' = (d.measured raw).addScope name line raw := by
  obtain ⟨hs, hname⟩ := (Statement.headerName?_eq_some_iff options).1 hraw
  cases h with
  | silent ho => cases hs.symm.trans ho
  | nameless ho =>
      cases hs.symm.trans ho
      exact absurd rfl hname
  | opened other ho =>
      cases hs.symm.trans ho
      exact ⟨rfl, rfl⟩
  | unplaced s ho hheader =>
      cases hs.symm.trans ho
      exact absurd rfl (hheader name)
  | placed s kind spine ho hnode =>
      cases hs.symm.trans ho
      cases hnode

-- Before the first header there is no scope that has a name.
theorem isScope_eq_isAnonymous_of_readLines
    (h : readLines isGate document options .empty 0 lines = (issues, .ok d))
    (hfirst : Statement.headerNames lines = []) {id : Nat} {e : Entry α} (he : d.entries[id]? = some e) :
    e.kind.isScope = e.kind.isAnonymous := by
  cases hkind : e.kind with
  | scope name =>
      cases name with
      | nil => rfl
      | cons c name =>
          have hhas : d.hasScope (c :: name) = true := by
            rw [← Bool.not_eq_false]
            exact fun hnew => ne_scope_of_hasScope_eq_false hnew id e he hkind
          rw [(collects_of_readLines h).hasScope_iff (List.cons_ne_nil c name), hfirst] at hhas
          cases hhas
  | _ => rfl

theorem Sound.isAnonymous_eq_false (h : Sound isGate d) {id : Nat} {e : Entry α}
    (he : d.entries[id]? = some e) (hid : id ≠ 0) : e.kind.isAnonymous = false := by
  rw [← Bool.not_eq_true]
  intro hkind
  unfold NodeKind.isAnonymous at hkind
  split at hkind
  · next hscope => exact hid (h.named.anonymous he hscope)
  · cases hkind

-- The first node is a scope, as there is none before that it could hang under.
theorem Sound.isScope_zero (h : Sound isGate d) {e : Entry α} (he : d.entries[0]? = some e) :
    e.kind.isScope = true := by
  rw [← h.nested.parent?_eq_none_iff he]
  by_contra hparent
  obtain ⟨p, hp⟩ := Option.ne_none_iff_exists'.1 hparent
  exact Nat.not_lt_zero p (h.nested.owner hp).1

-- Lines before the first header leave at most one scope, at the front, and the others of their
-- nodes stand for lines.
theorem first_of_readLines (h : readLines isGate document options .empty 0 lines = (issues, .ok d))
    (hfirst : Statement.headerNames lines = []) (hspine : d.spine ≠ none) :
    (∃ e, d.entries[0]? = some e ∧ e.kind = .scope []) ∧
      (1 < d.entries.size ↔ Statement.makers options lines ≠ []) := by
  have hsound := sound_of_readLines h
  obtain ⟨spine, hs⟩ := Option.ne_none_iff_exists'.1 hspine
  obtain ⟨o, ho, -⟩ := (hsound.tracks hs).scope
  have hsize : 0 < d.entries.size := Nat.zero_lt_of_lt (Array.getElem?_eq_some_iff.1 ho).1
  have hzero : d.entries[0]? = some d.entries[0] := Array.getElem?_eq_getElem hsize
  have hanonymous : d.entries[0].kind.isAnonymous = true := by
    rw [← isScope_eq_isAnonymous_of_readLines h hfirst hzero]
    exact hsound.isScope_zero hzero
  refine ⟨⟨_, hzero, ?_⟩, ?_⟩
  · unfold NodeKind.isAnonymous at hanonymous
    split at hanonymous
    · assumption
    · cases hanonymous
  · have hlength := (accounts_of_readLines h).length_eq
    rw [← List.length_pos_iff, hlength, List.length_pos_iff, written, Ne, List.filter_eq_nil_iff]
    simp only [Bool.not_eq_true', Bool.not_eq_false, not_forall, exists_prop, Bool.not_eq_true]
    constructor
    · intro hone
      have he : d.entries[1]? = some d.entries[1] := Array.getElem?_eq_getElem hone
      exact ⟨d.entries[1], Array.mem_toList_iff.2 (Array.mem_of_getElem? he),
        hsound.isAnonymous_eq_false he Nat.one_ne_zero⟩
    · rintro ⟨e, hmem, hkind⟩
      obtain ⟨id, he⟩ := Array.mem_iff_getElem?.1 (Array.mem_toList_iff.1 hmem)
      have hid : id ≠ 0 := by
        rintro rfl
        cases hzero.symm.trans he
        rw [hanonymous] at hkind
        cases hkind
      have hlt := (Array.getElem?_eq_some_iff.1 he).1
      omega

-- The first node has children when the second one is no scope.
theorem childrenOf_zero_ne_nil_iff {entries : Array (Entry α)} (h : Nested isGate entries)
    {e : Entry α} (he : entries[1]? = some e) :
    childrenOf entries 0 ≠ [] ↔ e.kind.isScope = false := by
  rw [← Bool.not_eq_true, ← h.parent?_eq_none_iff he]
  constructor
  · intro hne hnone
    obtain ⟨c, hc⟩ := List.exists_mem_of_ne_nil _ hne
    have hparent := mem_childrenOf.1 hc
    have hlt := (h.owner hparent).1
    have hpath : 0 ∈ path entries c := by
      rw [h.path_eq hparent]
      exact List.mem_cons_of_mem _ (self_mem_path entries 0)
    have hbetween := h.mem_path_between hpath (Nat.zero_le 1) hlt
    rw [path_of_none hnone, List.mem_singleton] at hbetween
    exact Nat.zero_ne_one hbetween
  · intro hsome
    obtain ⟨p, hp⟩ := Option.ne_none_iff_exists'.1 hsome
    obtain rfl : p = 0 := Nat.lt_one_iff.1 (h.owner hp).1
    exact List.ne_nil_of_mem (mem_childrenOf.2 hp)

end Draft

-- The root of a story is its first scope that has a name if no line before makes a node and
-- none is a go-to that names nothing. Any other story with a header has a root without a
-- name, and that root is empty when there is nothing before the header but such a go-to.
theorem parse_roots_first_scope {issues : List Issue} {tree : Tree α}
    (h : parse isGate document options = (issues, .ok tree)) {before after : List Text} {raw name : Text}
    (hlines : Text.lines document.format = before ++ raw :: after)
    (hfirst : Statement.headerNames before = []) (hraw : Statement.headerName? raw = some name) :
    let makers := Statement.makers options before
    let goTo := ∃ line ∈ before, Statement.isNamelessGoTo line = true
    ∃ root, tree.get? tree.root = some root ∧
      (makers = [] ∧ ¬ goTo → root.kind = .scope name ∧ root.line = before.length) ∧
      (makers ≠ [] ∨ goTo → root.kind = .scope [] ∧ (root.children ≠ [] ↔ makers ≠ [])) := by
  intro makers goTo
  obtain ⟨found, d, hd, -, rfl⟩ := parse_eq_ok_iff.1 h
  rw [hlines] at hd
  obtain ⟨earlier, between, own, next, hbefore, hline⟩ :=
    Draft.exists_readLine_of_readLines isGate document options hd
  rw [Nat.zero_add] at hline
  have hsound := Draft.sound_of_readLines hbefore
  have hfinal := (Draft.sound_of_readLines hd).withScope 0 []
  obtain ⟨-, rfl⟩ := (Draft.readLine_eq_ok_iff ..).1 hline |>.opened_of_header hraw
  have hkept : ∀ {id : Nat} {e : Entry α},
      (between.entries.push ⟨.scope name, before.length, raw, none⟩)[id]? = some e →
        d.closed.entries[id]? = some e := by
    intro id e he
    rw [Draft.readLines_of_readLine isGate document options hbefore (by rwa [Nat.zero_add]),
      Nat.zero_add, Prod.mk.injEq] at hd
    apply Draft.getElem?_withScope 0 [] (Draft.getElem?_entries_of_readLines isGate document options _ hd.2)
    rwa [Draft.addScope, Draft.entries_measured]
  have hscope := hkept Array.getElem?_push_size
  have hspine : between.spine = none ↔ makers = [] ∧ ¬ goTo := by
    rw [← Option.isNone_iff_eq_none, ← Option.isSome_eq_false_iff, Draft.isSome_spine_of_readLines hbefore,
      Statement.any_opensScope_eq_false_iff]
    simp only [makers, goTo, not_exists, not_and, Bool.not_eq_true]
  by_cases hnone : between.spine = none
  · rw [hsound.blank hnone] at hscope
    refine ⟨_, Draft.get?_tree_eq_some_iff.2 ⟨_, hscope, rfl⟩, fun _ => ⟨rfl, rfl⟩, fun hopened => ?_⟩
    obtain ⟨hmakers, hgoTo⟩ := hspine.1 hnone
    exact absurd hopened (not_or.2 ⟨not_not.2 hmakers, hgoTo⟩)
  · obtain ⟨⟨e, he, hkind⟩, hsize⟩ := Draft.first_of_readLines hbefore hfirst hnone
    have hroot := hkept (Draft.getElem?_push_of_some _ he)
    refine ⟨_, Draft.get?_tree_eq_some_iff.2 ⟨e, hroot, rfl⟩, fun hclear => absurd (hspine.2 hclear) hnone,
      fun _ => ⟨Draft.resolve_eq_scope_iff.2 hkind, ?_⟩⟩
    rw [← hsize]
    -- the second node is the first child of the root, or it is the scope of the header
    by_cases hone : 1 < between.entries.size
    · have hsecond : between.entries[1]? = some between.entries[1] := Array.getElem?_eq_getElem hone
      have hlast := hkept (Draft.getElem?_push_of_some _ hsecond)
      refine iff_of_true ((Draft.childrenOf_zero_ne_nil_iff hfinal.nested hlast).2 ?_) hone
      rw [Draft.isScope_eq_isAnonymous_of_readLines hbefore hfirst hsecond]
      exact hsound.isAnonymous_eq_false hsecond Nat.one_ne_zero
    · have hlt := (Array.getElem?_eq_some_iff.1 he).1
      have hsingle : between.entries.size = 1 := by omega
      rw [hsingle] at hscope
      refine iff_of_false (fun hne => ?_) hone
      have hno := (Draft.childrenOf_zero_ne_nil_iff hfinal.nested hscope).1 hne
      cases hno

-- A comment that is kept and a go-to that names nothing, before a header that names nothing
-- and the first that does
theorem parse_roots_first_scope_kept :
    let document : Template Nat := ⟨"->\n  // a\n==\n== B ==\nb".toList, [], []⟩
    ∃ issues tree root, parse (fun _ => false) document ⟨false, true⟩ = (issues, .ok tree) ∧
      tree.get? tree.root = some root ∧ root.kind = .scope [] ∧ root.children ≠ [] := by
  intro document
  have hparse : parse (fun _ => false) document ⟨false, true⟩ =
      ([.ofFault 0 "->".toList .namelessGoTo, .ofFault 1 "  // a".toList .cannotOwn,
          .ofFault 2 "==".toList .namelessHeader],
        .ok ⟨#[⟨0, .scope [], 0, [1]⟩, ⟨1, .comment ⟨['a'], [], [.literal ['a']]⟩, 1, []⟩,
          ⟨2, .scope ['B'], 3, [3]⟩, ⟨3, .line ⟨['b'], [], [.literal ['b']]⟩, 4, []⟩], 0⟩) := by
    decide +kernel
  have hlines : Text.lines document.format =
      ["->".toList, "  // a".toList, "==".toList] ++ "== B ==".toList :: ["b".toList] := by
    decide
  have hmakers : Statement.makers ⟨false, true⟩ ["->".toList, "  // a".toList, "==".toList] ≠ [] := by
    decide
  have hheader : Statement.headerName? "== B ==".toList = some ['B'] := by decide
  obtain ⟨root, hroot, -, hopened⟩ := parse_roots_first_scope hparse hlines (by decide) hheader
  obtain ⟨hkind, hchildren⟩ := hopened (.inl hmakers)
  exact ⟨_, _, root, hparse, hroot, hkind, hchildren.2 hmakers⟩

-- No line before the header makes a node, and yet the root is not its scope: the story ends
-- before it begins.
theorem nameless_goTo_opens_empty_root :
    let document : Template Nat := ⟨"->\n== A ==\ntext".toList, [], []⟩
    ∃ tree root, parse (fun _ => false) document .default =
        ([.ofFault 0 "->".toList .namelessGoTo], .ok tree) ∧
      Statement.makers .default ["->".toList] = [] ∧
      Statement.headerNames (Text.lines document.format) = [['A']] ∧
      tree.get? tree.root = some root ∧ root.kind = .scope [] ∧ root.children = [] := by
  intro document
  have hparse : parse (fun _ => false) document .default =
      ([.ofFault 0 "->".toList .namelessGoTo],
        .ok ⟨#[⟨0, .scope [], 0, []⟩, ⟨1, .scope ['A'], 1, [2]⟩,
          ⟨2, .line ⟨"text".toList, [], [.literal "text".toList]⟩, 2, []⟩], 0⟩) := by
    decide +kernel
  exact ⟨_, _, hparse, by decide, by decide, rfl, rfl, rfl⟩

end Narrative
