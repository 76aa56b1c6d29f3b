import Narrative.Proofs.Script.Reading

namespace Narrative

variable {α : Type} {isGate : α → Bool}

theorem Statement.isScope_of_node? {document : Template α} {s : Statement} {kind : NodeKind α}
    (h : s.node? document = .ok (some kind)) : kind.isScope = false := by
  cases s with
  | header name => simp [node?] at h
  | goTo target =>
      simp only [node?, Except.ok.injEq] at h
      split at h <;> cases h
      rfl
  | ret content => cases h; rfl
  | closeChoice content => cases h; rfl
  | choice label | comment note | line shown =>
      simp only [node?, Except.map] at h
      split at h <;> cases h
      rfl

theorem NodeKind.canOwn_of_isScope {kind : NodeKind α} (h : kind.isScope = true) :
    kind.canOwn isGate = true := by
  cases kind with
  | scope name => rfl
  | _ => simp [isScope] at h

namespace Spine

-- A spine is the path of the last node: the nodes that are open, out to the scope.
structure Tracks (isGate : α → Bool) (entries : Array (Entry α)) (s : Spine) : Prop where
  path_eq : Draft.path entries (entries.size - 1) = (s.last.map (·.1)).toList ++ s.nested ++ [s.scope]
  scope : ∃ e, entries[s.scope]? = some e ∧ e.kind.isScope = true
  nested_nil : s.last = none → s.nested = []
  owns : ∀ {id : Nat} {owns : Bool}, s.last = some (id, owns) →
    ∃ e, entries[id]? = some e ∧ e.kind.isScope = false ∧ e.kind.canOwn isGate = owns

@[simp] theorem scope_openAt (s : Spine) (depth : Nat) : (s.openAt depth).scope = s.scope := by
  unfold openAt
  split
  · rfl
  · split <;> rfl

theorem parent_cons (s : Spine) : ∃ rest, s.nested ++ [s.scope] = s.parent :: rest := by
  unfold parent
  cases s.nested with
  | nil => exact ⟨[], rfl⟩
  | cons id rest => exact ⟨rest ++ [s.scope], rfl⟩

namespace Tracks

variable {entries : Array (Entry α)} {s : Spine}

-- The node that was read last stands in front of the open ones.
theorem last_eq (h : s.Tracks isGate entries) {id : Nat} {owns : Bool} (hlast : s.last = some (id, owns)) :
    id = entries.size - 1 := by
  have hp := h.path_eq
  rw [Draft.path, hlast] at hp
  exact (List.cons.inj hp).1.symm

theorem suffix (h : s.Tracks isGate entries) :
    s.nested ++ [s.scope] <:+ Draft.path entries (entries.size - 1) := by
  rw [h.path_eq, List.append_assoc]
  exact List.suffix_append _ _

-- Opening a spine closes inner levels, or opens the last node: what stays open leads
-- out to the scope from a node of the last path.
theorem suffix_openAt (h : s.Tracks isGate entries) (depth : Nat) :
    (s.openAt depth).nested ++ [s.scope] <:+ Draft.path entries (entries.size - 1) := by
  unfold openAt
  split
  · have hdrop : s.nested.drop (s.nested.length - depth) ++ [s.scope] <:+ s.nested ++ [s.scope] := by
      obtain ⟨front, hfront⟩ := List.drop_suffix (s.nested.length - depth) s.nested
      exact ⟨front, by rw [← List.append_assoc, hfront]⟩
    exact hdrop.trans h.suffix
  · split
    · next id hlast =>
      have hp := h.path_eq
      rw [hlast] at hp
      rw [hp]
      exact List.suffix_rfl
    · exact h.suffix

theorem path_parent (h : s.Tracks isGate entries) (depth : Nat) :
    Draft.path entries (s.openAt depth).parent = (s.openAt depth).nested ++ [s.scope] := by
  obtain ⟨rest, hrest⟩ := (s.openAt depth).parent_cons
  rw [scope_openAt] at hrest
  have hs := h.suffix_openAt depth
  rw [hrest] at hs ⊢
  exact (Draft.eq_path_of_suffix hs).symm

theorem parent_mem_path (h : s.Tracks isGate entries) (depth : Nat) :
    (s.openAt depth).parent ∈ Draft.path entries (entries.size - 1) := by
  apply (h.suffix_openAt depth).subset
  rw [← h.path_parent depth]
  exact Draft.self_mem_path entries _

theorem canOwn_of_mem (h : s.Tracks isGate entries) (hn : Draft.Nested isGate entries) {id : Nat}
    (hid : id ∈ s.nested ++ [s.scope]) : ∃ o, entries[id]? = some o ∧ o.kind.canOwn isGate = true := by
  cases hlast : s.last with
  | none =>
      obtain ⟨e, he, hscope⟩ := h.scope
      rw [h.nested_nil hlast, List.nil_append, List.mem_singleton] at hid
      subst hid
      exact ⟨e, he, NodeKind.canOwn_of_isScope hscope⟩
  | some last =>
      -- behind the last node all of the path are parents
      have htail : id ∈ (Draft.path entries (entries.size - 1)).tail := by
        rw [h.path_eq, hlast]
        exact hid
      exact hn.canOwn_of_mem_tail htail

theorem canOwn_parent (h : s.Tracks isGate entries) (hn : Draft.Nested isGate entries) (depth : Nat) :
    ∃ o, entries[(s.openAt depth).parent]? = some o ∧ o.kind.canOwn isGate = true := by
  obtain ⟨rest, hrest⟩ := (s.openAt depth).parent_cons
  have hmem : (s.openAt depth).parent ∈ (s.openAt depth).nested ++ [(s.openAt depth).scope] := by
    rw [hrest]
    exact List.mem_cons_self
  rw [scope_openAt] at hmem
  revert hmem
  generalize (s.openAt depth).parent = p
  unfold openAt
  split
  · intro hmem
    apply h.canOwn_of_mem hn
    rcases List.mem_append.1 hmem with hd | hs
    · exact List.mem_append_left _ (List.mem_of_mem_drop hd)
    · exact List.mem_append_right _ hs
  · split
    · next id hlast =>
      intro hmem
      rcases List.mem_cons.1 hmem with rfl | hm
      · obtain ⟨e, he, -, hown⟩ := h.owns hlast
        exact ⟨e, he, hown⟩
      · exact h.canOwn_of_mem hn hm
    · intro hmem
      exact h.canOwn_of_mem hn hmem

end Tracks

end Spine

-- Whether it is the scope of that name
def Entry.isNamed (name : Text) (e : Entry α) : Bool :=
  match e.kind with
  | .scope other => other = name
  | _ => false

theorem Entry.isNamed_eq_true_iff {name : Text} {e : Entry α} :
    e.isNamed name = true ↔ e.kind = .scope name := by
  unfold isNamed
  cases e.kind <;> simp

namespace Draft

-- No two scopes have one name, and only the first node can be a scope without one.
structure Named (entries : Array (Entry α)) : Prop where
  unique : ∀ {i j : Nat} {e e' : Entry α} {name : Text}, entries[i]? = some e → entries[j]? = some e' →
    e.kind = .scope name → e'.kind = .scope name → i = j
  anonymous : ∀ {i : Nat} {e : Entry α}, entries[i]? = some e → e.kind = .scope [] → i = 0

theorem Named.push {entries : Array (Entry α)} (h : Named entries) (e : Entry α)
    (hnew : ∀ name, e.kind = .scope name →
      (∀ (i : Nat) (o : Entry α), entries[i]? = some o → o.kind ≠ .scope name) ∧
        (name = [] → entries.size = 0)) :
    Named (entries.push e) where
  unique := by
    intro i j o o' name hi hj ho ho'
    rw [Array.getElem?_push] at hi hj
    split at hi <;> split at hj
    · omega
    · cases hi
      exact absurd ho' ((hnew name ho).1 j o' hj)
    · cases hj
      exact absurd ho ((hnew name ho').1 i o hi)
    · exact h.unique hi hj ho ho'
  anonymous := by
    intro i o hi ho
    rw [Array.getElem?_push] at hi
    split at hi
    · next hsize =>
      cases hi
      rw [hsize]
      exact (hnew [] ho).2 rfl
    · exact h.anonymous hi ho

-- What holds of every draft that lines were read into
structure Sound (isGate : α → Bool) (d : Draft α) : Prop where
  nested : Nested isGate d.entries
  named : Named d.entries
  blank : d.spine = none → d.entries = #[]
  tracks : ∀ {s : Spine}, d.spine = some s → s.Tracks isGate d.entries

namespace Sound

variable {d : Draft α}

theorem empty : Sound isGate (.empty : Draft α) where
  nested := ⟨by simp [Draft.empty], by simp [Draft.empty, parent?]⟩
  named := ⟨by simp [Draft.empty], by simp [Draft.empty]⟩
  blank := fun _ => rfl
  tracks := by simp [Draft.empty]

theorem measured (h : Sound isGate d) (raw : Text) : Sound isGate (d.measured raw) where
  nested := by rw [entries_measured]; exact h.nested
  named := by rw [entries_measured]; exact h.named
  blank := by rw [spine_measured, entries_measured]; exact h.blank
  tracks := by rw [spine_measured, entries_measured]; exact h.tracks

theorem addScope (h : Sound isGate d) {name : Text} (line : Nat) (raw : Text)
    (hnew : ∀ (i : Nat) (e : Entry α), d.entries[i]? = some e → e.kind ≠ .scope name)
    (hfirst : name = [] → d.entries.size = 0) : Sound isGate (d.addScope name line raw) where
  nested := h.nested.push _ (by simp [NodeKind.isScope]) (by simp)
  named := by
    apply h.named.push
    intro other he
    obtain rfl : name = other := by simpa using he
    exact ⟨hnew, hfirst⟩
  blank := by simp [Draft.addScope]
  tracks := by
    intro s hs
    cases hs
    refine ⟨?_, ⟨⟨.scope name, line, raw, none⟩, ?_, rfl⟩, fun _ => rfl, by simp [Spine.ofScope]⟩
    · simp only [Draft.addScope, Array.size_push, Nat.add_sub_cancel]
      exact path_of_none (parent?_push_size _ _)
    · exact Array.getElem?_push_size

theorem withScope (h : Sound isGate d) (line : Nat) (raw : Text) :
    Sound isGate (d.withScope line raw) := by
  cases hs : d.spine with
  | some s => rwa [withScope_of_spine hs]
  | none =>
      have he := h.blank hs
      simp only [Draft.withScope, hs, Option.isNone_none, if_true]
      exact h.addScope line raw (by simp [he]) (by simp [he])

theorem addNode (h : Sound isGate d) {s : Spine} (hs : d.spine = some s) (depth : Nat)
    {kind : NodeKind α} (hkind : kind.isScope = false) (line : Nat) (raw : Text) :
    Sound isGate (d.addNode isGate (s.openAt depth) kind line raw) where
  nested := by
    apply h.nested.push
    · simp [hkind]
    · intro p hp
      obtain rfl : (s.openAt depth).parent = p := by simpa using hp
      exact ⟨(h.tracks hs).parent_mem_path depth, (h.tracks hs).canOwn_parent h.nested depth⟩
  named := by
    apply h.named.push
    intro name hk
    have hk' : kind = .scope name := hk
    rw [hk'] at hkind
    simp [NodeKind.isScope] at hkind
  blank := by simp [Draft.addNode]
  tracks := by
    intro s' hs'
    cases hs'
    have htracks := h.tracks hs
    obtain ⟨o, ho, -⟩ := htracks.canOwn_parent h.nested depth
    have hlt := (Array.getElem?_eq_some_iff.1 ho).1
    obtain ⟨e, he, hscope⟩ := htracks.scope
    refine ⟨?_, ⟨e, ?_, hscope⟩, by simp, ?_⟩
    · -- the path of the new node is the node in front of the spine that it was placed by
      simp only [Draft.addNode, Array.size_push, Nat.add_sub_cancel]
      rw [path_of_parent (parent?_push_size _ _) hlt, path_push_of_lt _ hlt, htracks.path_parent depth,
        Spine.scope_openAt]
      rfl
    · simp only [Spine.scope_openAt]
      exact getElem?_push_of_some _ he
    · intro id owns hlast
      simp only [Option.some.injEq, Prod.mk.injEq] at hlast
      obtain ⟨rfl, rfl⟩ := hlast
      exact ⟨_, Array.getElem?_push_size, hkind, rfl⟩

end Sound

theorem ne_scope_of_hasScope_eq_false {d : Draft α} {name : Text} (h : d.hasScope name = false)
    (i : Nat) (e : Entry α) (he : d.entries[i]? = some e) : e.kind ≠ .scope name := by
  intro hk
  obtain ⟨hi, rfl⟩ := Array.getElem?_eq_some_iff.1 he
  simp only [hasScope, Array.any_eq_false] at h
  have hne := h i hi
  simp [hk] at hne

-- A line keeps a draft sound, whatever it does.
theorem Reads.sound {document : Template α} {options : ParseOptions} {line : Nat} {raw : Text}
    {d d' : Draft α} {issues : List Issue} (h : Reads isGate document options line raw d issues d')
    (hd : Sound isGate d) : Sound isGate d' := by
  cases h with
  | silent => exact hd
  | nameless => exact hd.measured raw
  | opened name _ hname hnew =>
      apply (hd.measured raw).addScope
      · rw [entries_measured]
        exact ne_scope_of_hasScope_eq_false hnew
      · exact fun hnil => absurd hnil hname
  | unplaced s => exact (hd.withScope line raw).measured raw
  | placed s kind spine _ hnode hspine =>
      apply ((hd.withScope line raw).measured raw).addNode
      · rw [spine_measured, hspine]
      · exact Statement.isScope_of_node? hnode

end Draft

end Narrative
