import Narrative.Proofs.Script.Nesting

namespace Narrative

variable {α : Type}

-- What a line says to the parser. Blank lines and comments that are not kept say
-- nothing.
def Statement.ofLine? (options : ParseOptions) (raw : Text) : Option Statement :=
  if Text.allBlank raw then none
  else match ofBody (Text.trimStart raw) with
    | comment note => if options.keepComments then some (comment note) else none
    | s => some s

-- Faults of a statement are about what it says, those of a measure about its blanks.
theorem Statement.kind_of_mem_faults {s : Statement} {fault : Fault} (h : fault ∈ s.faults) :
    fault.kind = .tokenEmpty ∨ fault.kind = .tokenNonEmpty := by
  cases s <;> simp only [faults, List.mem_ite_nil_right, List.mem_ite_nil_left, List.mem_singleton,
    List.not_mem_nil] at h
  all_goals
    obtain ⟨-, rfl⟩ := h
    simp [Fault.kind]

theorem Measure.kind_of_mem_faults {m : Measure} {height : Nat} {fault : Fault}
    (h : fault ∈ m.faults height) :
    fault.kind = .mixedIndentation ∨ fault.kind = .unexpectedIndentation := by
  rw [faults, List.mem_append] at h
  rcases h with h | h
  · simp only [List.mem_ite_nil_right, List.mem_singleton] at h
    obtain ⟨-, rfl⟩ := h
    exact .inl rfl
  · split at h
    · obtain rfl := List.mem_singleton.1 h
      exact .inr rfl
    · simp only [List.mem_ite_nil_right, List.mem_singleton] at h
      obtain ⟨-, rfl⟩ := h
      exact .inr rfl

namespace Draft

def measureOf (d : Draft α) (raw : Text) : Measure := (d.measure (Text.leadingBlanks raw)).1

def measured (d : Draft α) (raw : Text) : Draft α := (d.measure (Text.leadingBlanks raw)).2

@[simp] theorem entries_measured (d : Draft α) (raw : Text) : (d.measured raw).entries = d.entries := by
  unfold measured measure
  split <;> rfl

@[simp] theorem spine_measured (d : Draft α) (raw : Text) : (d.measured raw).spine = d.spine := by
  unfold measured measure
  split <;> rfl

theorem indent_measured (d : Draft α) (raw : Text) :
    (d.measured raw).indent =
      d.indent.or (if Text.leadingBlanks raw = [] then none else some ⟨Text.leadingBlanks raw⟩) := by
  unfold measured measure
  by_cases h : Text.leadingBlanks raw = []
  · rw [if_pos h, if_pos h, Option.or_none]
  · rw [if_neg h, if_neg h]
    cases d.indent <;> rfl

@[simp] theorem height_measured (d : Draft α) (raw : Text) : (d.measured raw).height = d.height := by
  simp only [height, spine_measured]

@[simp] theorem measureOf_withScope (d : Draft α) (line : Nat) (raw opening : Text) :
    (d.withScope line opening).measureOf raw = d.measureOf raw := by
  unfold measureOf measure
  split
  · rfl
  · unfold withScope
    split <;> rfl

@[simp] theorem withScope_of_spine {d : Draft α} {s : Spine} (h : d.spine = some s) (line : Nat)
    (raw : Text) : d.withScope line raw = d := by
  simp [withScope, h]

@[simp] theorem indent_withScope (d : Draft α) (line : Nat) (raw : Text) :
    (d.withScope line raw).indent = d.indent := by
  unfold withScope
  split <;> rfl

theorem exists_spine_withScope (d : Draft α) (line : Nat) (raw : Text) :
    ∃ s, (d.withScope line raw).spine = some s := by
  cases h : d.spine with
  | none => exact ⟨_, by simp only [withScope, h, Option.isNone_none, if_true]; rfl⟩
  | some s => exact ⟨s, by rw [withScope_of_spine h, h]⟩

-- What is wrong with a header line
def headerFaults (d : Draft α) (name raw : Text) : List Fault :=
  (d.measureOf raw).faults d.height ++
    (if 0 < min (d.measureOf raw).depth d.height ∧ ¬ (d.measureOf raw).blamed d.height then
      [.indentedHeader] else []) ++
    (Statement.header name).faults

-- How deep a line is placed at most, with what is open
def depthOf (d : Draft α) (raw : Text) : Nat := min (d.measureOf raw).depth d.height

-- What is wrong with a line whose node is placed with that spine
def nodeFaults (d : Draft α) (spine : Spine) (s : Statement) (raw : Text) : List Fault :=
  (d.measureOf raw).faults d.height ++ s.faults ++
    (if spine.fits (d.depthOf raw) || (d.measureOf raw).blamed d.height then [] else [.cannotOwn])

theorem kind_of_mem_headerFaults {d : Draft α} {name raw : Text} {fault : Fault}
    (h : fault ∈ d.headerFaults name raw) :
    fault.kind = .mixedIndentation ∨ fault.kind = .unexpectedIndentation ∨
      name = [] ∧ fault.kind = .tokenEmpty := by
  rw [headerFaults, List.mem_append, List.mem_append] at h
  rcases h with (hmeasure | hindented) | hname
  · exact (Measure.kind_of_mem_faults hmeasure).imp_right .inl
  · simp only [List.mem_ite_nil_right, List.mem_singleton] at hindented
    obtain ⟨-, rfl⟩ := hindented
    exact .inr (.inl rfl)
  · simp only [Statement.faults, List.mem_ite_nil_right, List.mem_singleton] at hname
    obtain ⟨hnil, rfl⟩ := hname
    exact .inr (.inr ⟨hnil, rfl⟩)

theorem kind_of_mem_nodeFaults {d : Draft α} {spine : Spine} {s : Statement} {raw : Text} {fault : Fault}
    (h : fault ∈ d.nodeFaults spine s raw) : fault.kind ≠ .unknownScope := by
  rw [nodeFaults, List.mem_append, List.mem_append] at h
  rcases h with (hmeasure | hstatement) | howner
  · rcases Measure.kind_of_mem_faults hmeasure with he | he <;> simp [he]
  · rcases Statement.kind_of_mem_faults hstatement with he | he <;> simp [he]
  · simp only [List.mem_ite_nil_left, List.mem_singleton] at howner
    obtain ⟨-, rfl⟩ := howner
    simp [Fault.kind]

-- All that a line can do to a draft. Only a header of a name that is taken, and format
-- text that is refused, stop the reading.
inductive Reads (isGate : α → Bool) (document : Template α) (options : ParseOptions) (line : Nat)
    (raw : Text) (d : Draft α) : List Issue → Draft α → Prop
  | silent (h : Statement.ofLine? options raw = none) : Reads isGate document options line raw d [] d
  | nameless (h : Statement.ofLine? options raw = some (.header [])) :
      Reads isGate document options line raw d
        ((d.headerFaults [] raw).map (.ofFault line raw)) (d.measured raw)
  | opened (name : Text) (h : Statement.ofLine? options raw = some (.header name)) (hname : name ≠ [])
      (hnew : d.hasScope name = false) :
      Reads isGate document options line raw d
        ((d.headerFaults name raw).map (.ofFault line raw)) ((d.measured raw).addScope name line raw)
  | unplaced (s : Statement) (h : Statement.ofLine? options raw = some s)
      (hheader : ∀ name, s ≠ .header name) (hnode : s.node? document = .ok none) :
      Reads isGate document options line raw d
        (((d.withScope line raw).measureOf raw).faults (d.withScope line raw).height ++ s.faults
          |>.map (.ofFault line raw))
        ((d.withScope line raw).measured raw)
  | placed (s : Statement) (kind : NodeKind α) (spine : Spine)
      (h : Statement.ofLine? options raw = some s) (hnode : s.node? document = .ok (some kind))
      (hspine : (d.withScope line raw).spine = some spine) :
      Reads isGate document options line raw d
        (((d.withScope line raw).nodeFaults spine s raw).map (.ofFault line raw))
        (((d.withScope line raw).measured raw).addNode isGate
          (spine.openAt ((d.withScope line raw).depthOf raw)) kind line raw)

theorem getElem?_withScope {d : Draft α} (line : Nat) (raw : Text) {id : Nat} {e : Entry α}
    (he : d.entries[id]? = some e) : (d.withScope line raw).entries[id]? = some e := by
  unfold withScope
  split
  · exact getElem?_push_of_some _ he
  · exact he

-- Lines are added at the end. What is there stays as it is.
theorem Reads.getElem?_entries {isGate : α → Bool} {document : Template α} {options : ParseOptions}
    {line : Nat} {raw : Text} {d d' : Draft α} {issues : List Issue}
    (h : Reads isGate document options line raw d issues d') {id : Nat} {e : Entry α}
    (he : d.entries[id]? = some e) : d'.entries[id]? = some e := by
  have hscope := getElem?_withScope line raw he
  cases h with
  | silent => exact he
  | nameless => rwa [entries_measured]
  | opened name =>
      apply getElem?_push_of_some
      rwa [entries_measured]
  | unplaced s => rwa [entries_measured]
  | placed s kind spine =>
      apply getElem?_push_of_some
      rwa [entries_measured]

section Line

variable (isGate : α → Bool) (document : Template α) (options : ParseOptions) (line : Nat) (raw : Text)
  (d : Draft α)

theorem readLine_eq :
    d.readLine isGate document options line raw =
      match Statement.ofLine? options raw with
      | none => ([], .ok d)
      | some (.header name) => d.readHeader name line raw
      | some s => d.readStatement isGate document s line raw := by
  unfold readLine Statement.ofLine?
  by_cases hb : Text.allBlank raw = true
  · rw [if_pos hb, if_pos hb]
  · rw [if_neg hb, if_neg hb]
    cases Statement.ofBody (Text.trimStart raw) with
    | comment note =>
        by_cases hk : options.keepComments = true
        · simp only [if_pos hk]
        · simp only [if_neg hk]
    | _ => rfl

theorem hasScope_measured (name : Text) : (d.measured raw).hasScope name = d.hasScope name := by
  simp only [hasScope, entries_measured]

theorem readHeader_eq (name : Text) :
    d.readHeader name line raw =
      ((d.headerFaults name raw).map (.ofFault line raw),
        if name = [] then .ok (d.measured raw)
        else if d.hasScope name then .error (.duplicateScope name line)
        else .ok ((d.measured raw).addScope name line raw)) := by
  rw [← hasScope_measured raw d name]
  unfold readHeader headerFaults measureOf measured
  by_cases hn : name = []
  · simp only [if_pos hn]
  · simp only [if_neg hn]
    split <;> rfl

theorem readStatement_eq (s : Statement) {spine : Spine}
    (hspine : (d.withScope line raw).spine = some spine) :
    d.readStatement isGate document s line raw =
      match s.node? document with
      | .error e =>
        (((d.withScope line raw).measureOf raw).faults (d.withScope line raw).height
          |>.map (.ofFault line raw), .error (.format e))
      | .ok none =>
        (((d.withScope line raw).measureOf raw).faults (d.withScope line raw).height ++ s.faults
          |>.map (.ofFault line raw), .ok ((d.withScope line raw).measured raw))
      | .ok (some kind) =>
        (((d.withScope line raw).nodeFaults spine s raw).map (.ofFault line raw),
          .ok (((d.withScope line raw).measured raw).addNode isGate
            (spine.openAt ((d.withScope line raw).depthOf raw)) kind line raw)) := by
  have hs : ((d.withScope line raw).measured raw).spine = some spine := by
    rw [spine_measured, hspine]
  have hh := height_measured (d.withScope line raw) raw
  unfold measured at hs hh
  unfold readStatement nodeFaults depthOf measureOf measured
  simp only [hs, hh]
  rcases s.node? document with e | kind
  · rfl
  · cases kind <;> rfl

variable {issues : List Issue} {d' : Draft α}

theorem Reads.of_readHeader {name : Text}
    (hs : Statement.ofLine? options raw = some (.header name))
    (h : d.readHeader name line raw = (issues, .ok d')) :
    Reads isGate document options line raw d issues d' := by
  rw [readHeader_eq, Prod.mk.injEq] at h
  obtain ⟨rfl, h⟩ := h
  by_cases hname : name = []
  · subst hname
    rw [if_pos rfl] at h
    cases h
    exact .nameless hs
  · rw [if_neg hname] at h
    by_cases hnew : d.hasScope name = true
    · rw [if_pos hnew] at h
      cases h
    · rw [if_neg hnew] at h
      cases h
      exact .opened name hs hname (eq_false_of_ne_true hnew)

theorem Reads.of_readStatement {s : Statement} (hs : Statement.ofLine? options raw = some s)
    (hheader : ∀ name, s ≠ .header name)
    (h : d.readStatement isGate document s line raw = (issues, .ok d')) :
    Reads isGate document options line raw d issues d' := by
  obtain ⟨spine, hspine⟩ := exists_spine_withScope d line raw
  rw [readStatement_eq isGate document line raw d s hspine] at h
  rcases hnode : s.node? document with e | kind
  · simp only [hnode, Prod.mk.injEq, reduceCtorEq, and_false] at h
  · cases kind with
    | none =>
        simp only [hnode, Prod.mk.injEq, Except.ok.injEq] at h
        obtain ⟨rfl, rfl⟩ := h
        exact .unplaced s hs hheader hnode
    | some kind =>
        simp only [hnode, Prod.mk.injEq, Except.ok.injEq] at h
        obtain ⟨rfl, rfl⟩ := h
        exact .placed s kind spine hs hnode hspine

theorem readLine_eq_readStatement {s : Statement} (hs : Statement.ofLine? options raw = some s)
    (hheader : ∀ name, s ≠ .header name) :
    d.readLine isGate document options line raw = d.readStatement isGate document s line raw := by
  rw [readLine_eq, hs]
  cases s with
  | header name => exact absurd rfl (hheader name)
  | _ => rfl

-- A line that is read does one of the five things, and each of them happens.
theorem readLine_eq_ok_iff (issues : List Issue) (d' : Draft α) :
    d.readLine isGate document options line raw = (issues, .ok d') ↔
      Reads isGate document options line raw d issues d' := by
  constructor
  · intro h
    cases hs : Statement.ofLine? options raw with
    | none =>
        simp only [readLine_eq, hs, Prod.mk.injEq, Except.ok.injEq] at h
        obtain ⟨rfl, rfl⟩ := h
        exact .silent hs
    | some s =>
        by_cases hheader : ∃ name, s = .header name
        · obtain ⟨name, rfl⟩ := hheader
          simp only [readLine_eq, hs] at h
          exact .of_readHeader isGate document options line raw d hs h
        · have hne : ∀ name, s ≠ .header name := not_exists.1 hheader
          rw [readLine_eq_readStatement isGate document options line raw d hs hne] at h
          exact .of_readStatement isGate document options line raw d hs hne h
  · intro h
    obtain ⟨spine, hspine⟩ := exists_spine_withScope d line raw
    cases h with
    | silent hs => simp only [readLine_eq, hs]
    | nameless hs => simp only [readLine_eq, hs, readHeader_eq, if_true]
    | opened name hs hname hnew =>
        simp only [readLine_eq, hs, readHeader_eq, if_neg hname, hnew, Bool.false_eq_true, if_false]
    | unplaced s hs hheader hnode =>
        rw [readLine_eq_readStatement isGate document options line raw d hs hheader,
          readStatement_eq isGate document line raw d s hspine]
        simp only [hnode]
    | placed s kind spine' hs hnode hspine' =>
        have hheader : ∀ name, s ≠ .header name := by
          rintro name rfl
          cases hnode
        rw [readLine_eq_readStatement isGate document options line raw d hs hheader,
          readStatement_eq isGate document line raw d s hspine']
        simp only [hnode]

-- Every issue names the line that it was found on, also when the line stops the reading.
-- Where go-tos lead is not asked yet.
theorem fault_of_mem_readLine {issue : Issue}
    (h : issue ∈ (d.readLine isGate document options line raw).1) :
    ∃ fault, issue = .ofFault line raw fault ∧ fault.kind ≠ .unknownScope := by
  obtain ⟨spine, hspine⟩ := exists_spine_withScope d line raw
  have hfault : ∀ {faults : List Fault}, issue ∈ faults.map (.ofFault line raw) →
      (∀ fault ∈ faults, fault.kind ≠ .unknownScope) →
      ∃ fault, issue = .ofFault line raw fault ∧ fault.kind ≠ .unknownScope := by
    intro faults hmem hkind
    obtain ⟨fault, hf, rfl⟩ := List.mem_map.1 hmem
    exact ⟨fault, rfl, hkind fault hf⟩
  rw [readLine_eq] at h
  rcases hs : Statement.ofLine? options raw with _ | s
  · simp [hs] at h
  · have hstatement : issue ∈ (d.readStatement isGate document s line raw).1 →
        ∃ fault, issue = .ofFault line raw fault ∧ fault.kind ≠ .unknownScope := by
      -- faults of the line's place and content are among those of a node
      have hnode : ∀ {faults : List Fault}, faults ⊆ (d.withScope line raw).nodeFaults spine s raw →
          ∀ fault ∈ faults, fault.kind ≠ .unknownScope :=
        fun hsubset fault hf => kind_of_mem_nodeFaults (hsubset hf)
      rw [readStatement_eq isGate document line raw d s hspine]
      rcases s.node? document with e | kind
      · refine fun hm => hfault hm (hnode ?_)
        rw [nodeFaults, List.append_assoc]
        exact List.subset_append_left _ _
      · cases kind with
        | none => exact fun hm => hfault hm (hnode (List.subset_append_left _ _))
        | some kind => exact fun hm => hfault hm (hnode (List.Subset.refl _))
    cases s with
    | header name =>
        simp only [hs, readHeader_eq] at h
        refine hfault h fun fault hf => ?_
        rcases kind_of_mem_headerFaults hf with he | he | ⟨-, he⟩ <;> simp [he]
    | _ =>
        simp only [hs] at h
        exact hstatement h

end Line

section Lines

variable (isGate : α → Bool) (document : Template α) (options : ParseOptions)

theorem readLines_append (d : Draft α) (line : Nat) (before after : List Text) :
    readLines isGate document options d line (before ++ after) =
      match readLines isGate document options d line before with
      | (issues, .error e) => (issues, .error e)
      | (issues, .ok d') =>
        (issues ++ (readLines isGate document options d' (line + before.length) after).1,
          (readLines isGate document options d' (line + before.length) after).2) := by
  induction before generalizing d line with
  | nil => simp [readLines]
  | cons raw before ih =>
      rw [List.cons_append, readLines, readLines]
      rcases d.readLine isGate document options line raw with ⟨issues, e | d'⟩
      · rfl
      · simp only [ih]
        rcases readLines isGate document options d' (line + 1) before with ⟨more, e | d''⟩
        · rfl
        · simp only [List.append_assoc, List.length_cons]
          rw [show line + 1 + before.length = line + (before.length + 1) by omega]

-- Reading up to a line, the line, and reading on
theorem readLines_of_readLine {before : List Text} {raw : Text} {earlier found : List Issue}
    {start d d' : Draft α} {line : Nat}
    (hbefore : readLines isGate document options start line before = (earlier, .ok d))
    (hline : d.readLine isGate document options (line + before.length) raw = (found, .ok d'))
    (after : List Text) :
    readLines isGate document options start line (before ++ raw :: after) =
      (earlier ++ (found ++
          (readLines isGate document options d' (line + (before ++ [raw]).length) after).1),
        (readLines isGate document options d' (line + (before ++ [raw]).length) after).2) := by
  rw [readLines_append, hbefore]
  simp only [readLines, hline, List.length_append, List.length_singleton, Nat.add_assoc]

-- Lines that were read were read one by one.
theorem exists_readLine_of_readLines {before after : List Text} {raw : Text} {issues : List Issue}
    {start d' : Draft α} {line : Nat}
    (h : readLines isGate document options start line (before ++ raw :: after) = (issues, .ok d')) :
    ∃ earlier d found next, readLines isGate document options start line before = (earlier, .ok d) ∧
      d.readLine isGate document options (line + before.length) raw = (found, .ok next) := by
  rw [readLines_append] at h
  rcases hbefore : readLines isGate document options start line before with ⟨earlier, e | d⟩
  · rw [hbefore] at h
    cases h
  · rw [hbefore] at h
    dsimp only at h
    rw [readLines] at h
    rcases hline : d.readLine isGate document options (line + before.length) raw with ⟨found, e | next⟩
    · rw [hline] at h
      cases h
    · exact ⟨earlier, d, found, next, rfl, hline⟩

-- What each line keeps, all lines keep. The property may speak of the lines and of the
-- issues so far.
theorem readLines_keeps {P : List Text → List Issue → Draft α → Prop}
    (hstep : ∀ (before : List Text) (earlier issues : List Issue) (raw : Text) (d d' : Draft α),
      P before earlier d → Reads isGate document options before.length raw d issues d' →
        P (before ++ [raw]) (earlier ++ issues) d')
    (before : List Text) (earlier : List Issue) {lines : List Text} {issues : List Issue}
    {d d' : Draft α} (hd : P before earlier d)
    (h : readLines isGate document options d before.length lines = (issues, .ok d')) :
    P (before ++ lines) (earlier ++ issues) d' := by
  induction lines generalizing before earlier d issues with
  | nil =>
      simp only [readLines, Prod.mk.injEq, Except.ok.injEq] at h
      obtain ⟨rfl, rfl⟩ := h
      simpa only [List.append_nil] using hd
  | cons raw lines ih =>
      rw [readLines] at h
      rcases hr : d.readLine isGate document options before.length raw with ⟨found, e | next⟩
      · simp [hr] at h
      · simp only [hr, Prod.mk.injEq] at h
        obtain ⟨rfl, h⟩ := h
        have hnext := hstep before earlier found raw d next hd
          ((readLine_eq_ok_iff isGate document options before.length raw d found next).1 hr)
        have hrest := ih _ _ hnext (Prod.ext rfl (by rw [List.length_append]; exact h))
        simpa only [List.append_assoc, List.cons_append, List.nil_append, List.length_append,
          List.length_singleton] using hrest

theorem readLines_induction {P : List Text → List Issue → Draft α → Prop}
    (hempty : P [] [] .empty)
    (hstep : ∀ (before : List Text) (earlier issues : List Issue) (raw : Text) (d d' : Draft α),
      P before earlier d → Reads isGate document options before.length raw d issues d' →
        P (before ++ [raw]) (earlier ++ issues) d')
    {lines : List Text} {issues : List Issue} {d : Draft α}
    (h : readLines isGate document options .empty 0 lines = (issues, .ok d)) : P lines issues d := by
  simpa only [List.nil_append] using readLines_keeps isGate document options hstep [] [] hempty h

theorem fault_of_mem_readLines {lines : List Text} {d : Draft α} {line : Nat} {issue : Issue}
    (h : issue ∈ (readLines isGate document options d line lines).1) :
    ∃ i raw fault, lines[i]? = some raw ∧ issue = .ofFault (line + i) raw fault ∧
      fault.kind ≠ .unknownScope := by
  induction lines generalizing d line with
  | nil => simp [readLines] at h
  | cons raw lines ih =>
      have hfirst : issue ∈ (d.readLine isGate document options line raw).1 →
          ∃ i raw' fault, (raw :: lines)[i]? = some raw' ∧ issue = .ofFault (line + i) raw' fault ∧
            fault.kind ≠ .unknownScope := by
        intro hm
        obtain ⟨fault, he, hkind⟩ := fault_of_mem_readLine isGate document options line raw d hm
        exact ⟨0, raw, fault, rfl, he, hkind⟩
      rw [readLines] at h
      rcases hr : d.readLine isGate document options line raw with ⟨found, e | next⟩ <;>
        rw [hr] at h hfirst
      · exact hfirst h
      · rcases List.mem_append.1 h with hm | hm
        · exact hfirst hm
        · obtain ⟨i, raw', fault, hraw, he, hkind⟩ := ih hm
          refine ⟨i + 1, raw', fault, hraw, ?_, hkind⟩
          rw [he, show line + 1 + i = line + (i + 1) by omega]

theorem line_of_mem_readLines {lines : List Text} {d : Draft α} {line : Nat} {issue : Issue}
    (h : issue ∈ (readLines isGate document options d line lines).1) :
    line ≤ issue.line ∧ issue.line < line + lines.length := by
  obtain ⟨i, raw, fault, hraw, rfl, -⟩ := fault_of_mem_readLines isGate document options h
  have hlt := (List.getElem?_eq_some_iff.1 hraw).1
  exact ⟨Nat.le_add_right line i, Nat.add_lt_add_left hlt line⟩

end Lines

section Options

variable (isGate : α → Bool) (document : Template α) {options other : ParseOptions}

-- Whether a script is read strictly makes no difference to what is read.
theorem readLines_congr (h : options.keepComments = other.keepComments) (d : Draft α) (line : Nat)
    (lines : List Text) :
    readLines isGate document options d line lines = readLines isGate document other d line lines := by
  have hline : ∀ (d : Draft α) (line : Nat) (raw : Text),
      d.readLine isGate document options line raw = d.readLine isGate document other line raw := by
    intro d line raw
    unfold readLine
    rw [h]
  induction lines generalizing d line with
  | nil => rfl
  | cons raw lines ih => simp only [readLines, hline, ih]

end Options

end Draft

theorem parse_congr (isGate : α → Bool) (document : Template α) {options other : ParseOptions}
    (h : options.keepComments = other.keepComments) :
    parse isGate document options = parse isGate document other := by
  rw [parse, Draft.readLines_congr isGate document h, parse]

end Narrative
