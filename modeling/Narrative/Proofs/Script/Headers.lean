import Mathlib.Data.List.Nodup
import Mathlib.Data.List.TakeWhile
import Narrative.Proofs.Script.Spine

namespace Narrative

variable {α : Type} {isGate : α → Bool}

namespace Statement

-- The name that a line gives to a scope, if it is a header and has one
def headerName? (raw : Text) : Option Text :=
  match ofBody (Text.trimStart raw) with
  | header name => if name = [] then none else some name
  | _ => none

-- The names of scopes in the order of their headers
def headerNames (lines : List Text) : List Text := lines.filterMap headerName?

theorem trimStart_of_allBlank {raw : Text} (h : Text.allBlank raw = true) : Text.trimStart raw = [] :=
  List.dropWhile_eq_nil_iff.2 (List.all_eq_true.1 h)

-- Headers are read whatever the options are.
theorem ofLine?_eq_header_iff {options : ParseOptions} {raw name : Text} :
    ofLine? options raw = some (.header name) ↔ ofBody (Text.trimStart raw) = .header name := by
  unfold ofLine?
  split
  · next hblank =>
    rw [trimStart_of_allBlank hblank]
    simp [ofBody]
  · cases ofBody (Text.trimStart raw) with
    | comment note => by_cases hkeep : options.keepComments = true <;> simp [hkeep]
    | _ => simp

theorem headerName?_eq_some_iff (options : ParseOptions) {raw name : Text} :
    headerName? raw = some name ↔ ofLine? options raw = some (.header name) ∧ name ≠ [] := by
  rw [ofLine?_eq_header_iff, headerName?]
  cases ofBody (Text.trimStart raw) with
  | header other =>
      by_cases hnil : other = []
      · simp only [if_pos hnil, reduceCtorEq, header.injEq, false_iff, not_and, not_not]
        rintro rfl
        exact hnil
      · simp only [if_neg hnil, Option.some.injEq, header.injEq, iff_self_and]
        rintro rfl
        exact hnil
  | _ => simp

theorem headerName?_eq_none_iff (options : ParseOptions) {raw : Text} :
    headerName? raw = none ↔ ∀ name, ofLine? options raw = some (.header name) → name = [] := by
  rw [Option.eq_none_iff_forall_ne_some]
  exact forall_congr' fun name => by rw [Ne, headerName?_eq_some_iff options, not_and, not_not]

theorem headerNames_append (lines : List Text) (raw : Text) :
    headerNames (lines ++ [raw]) = headerNames lines ++ (headerName? raw).toList := by
  rw [headerNames, List.filterMap_append]
  cases h : headerName? raw <;> simp [headerNames, h]

theorem nodup_headerNames_append {lines : List Text} {raw : Text} :
    (headerNames (lines ++ [raw])).Nodup ↔
      (headerNames lines).Nodup ∧ ∀ name, headerName? raw = some name → name ∉ headerNames lines := by
  rw [headerNames_append, List.nodup_append]
  cases headerName? raw with
  | none => simp
  | some name =>
      simp only [Option.toList_some, List.nodup_singleton, true_and, List.mem_singleton, forall_eq,
        Option.some.injEq, forall_eq']
      rw [List.forall_mem_ne']

end Statement

namespace Draft

theorem hasScope_addScope (d : Draft α) (name other : Text) (line : Nat) (raw : Text) :
    (d.addScope name line raw).hasScope other = (d.hasScope other || name = other) := by
  simp only [hasScope, addScope, Array.any_push]

theorem hasScope_withScope (d : Draft α) {name : Text} (hname : name ≠ []) (line : Nat) (raw : Text) :
    (d.withScope line raw).hasScope name = d.hasScope name := by
  unfold withScope
  split
  · rw [hasScope_addScope, decide_eq_false hname.symm, Bool.or_false]
  · rfl

theorem hasScope_addNode (d : Draft α) (s : Spine) {kind : NodeKind α} (hkind : kind.isScope = false)
    (name : Text) (line : Nat) (raw : Text) :
    (d.addNode isGate s kind line raw).hasScope name = d.hasScope name := by
  simp only [hasScope, addNode, Array.any_push]
  cases kind with
  | scope other => cases hkind
  | _ => rw [Bool.or_false]

-- A draft has the scopes that the headers of its lines name, and they are different.
structure Collects (lines : List Text) (d : Draft α) : Prop where
  distinct : (Statement.headerNames lines).Nodup
  hasScope_iff : ∀ {name : Text}, name ≠ [] →
    (d.hasScope name = true ↔ name ∈ Statement.headerNames lines)

namespace Collects

variable {lines : List Text} {d d' : Draft α} {raw : Text}

theorem empty : Collects [] (.empty : Draft α) where
  distinct := .nil
  hasScope_iff := by simp [hasScope, Draft.empty, Statement.headerNames]

-- A line that names no scope adds none that has a name.
theorem unnamed (h : Collects lines d) (hraw : Statement.headerName? raw = none)
    (hd : ∀ {name : Text}, name ≠ [] → d'.hasScope name = d.hasScope name) :
    Collects (lines ++ [raw]) d' := by
  have hnames : Statement.headerNames (lines ++ [raw]) = Statement.headerNames lines := by
    rw [Statement.headerNames_append, hraw, Option.toList_none, List.append_nil]
  exact ⟨by rw [hnames]; exact h.distinct, fun hname => by rw [hnames, hd hname, h.hasScope_iff hname]⟩

theorem named (h : Collects lines d) {name : Text} (hraw : Statement.headerName? raw = some name)
    (hname : name ≠ []) (hnew : d.hasScope name = false)
    (hd : ∀ other, d'.hasScope other = (d.hasScope other || name = other)) :
    Collects (lines ++ [raw]) d' where
  distinct := by
    rw [Statement.nodup_headerNames_append, hraw]
    refine ⟨h.distinct, ?_⟩
    rintro other he
    obtain rfl := Option.some.inj he
    rw [← h.hasScope_iff hname, hnew]
    exact Bool.false_ne_true
  hasScope_iff := by
    intro other hother
    rw [Statement.headerNames_append, hraw, hd, Bool.or_eq_true, decide_eq_true_eq, h.hasScope_iff hother,
      Option.toList_some, List.mem_append, List.mem_singleton, eq_comm (a := name)]

end Collects

theorem Reads.collects {document : Template α} {options : ParseOptions} {lines : List Text}
    {line : Nat} {raw : Text} {d d' : Draft α} {issues : List Issue}
    (h : Reads isGate document options line raw d issues d') (hd : Collects lines d) :
    Collects (lines ++ [raw]) d' := by
  have hunnamed : ∀ {s : Statement}, Statement.ofLine? options raw = some s →
      (∀ name, s ≠ .header name) → Statement.headerName? raw = none := by
    intro s hs hheader
    rw [Statement.headerName?_eq_none_iff options]
    intro name he
    rw [hs] at he
    exact absurd (Option.some.inj he) (hheader name)
  cases h with
  | silent hs =>
      apply hd.unnamed ((Statement.headerName?_eq_none_iff options).2 _) fun _ => rfl
      simp [hs]
  | nameless hs =>
      apply hd.unnamed ((Statement.headerName?_eq_none_iff options).2 _) fun _ => hasScope_measured ..
      simp [hs]
  | opened name hs hname hnew =>
      apply hd.named ((Statement.headerName?_eq_some_iff options).2 ⟨hs, hname⟩) hname hnew
      intro other
      rw [hasScope_addScope, hasScope_measured]
  | unplaced s hs hheader =>
      apply hd.unnamed (hunnamed hs hheader)
      intro name hname
      rw [hasScope_measured, hasScope_withScope d hname]
  | placed s kind spine hs hnode =>
      have hheader : ∀ name, s ≠ .header name := by
        rintro name rfl
        cases hnode
      apply hd.unnamed (hunnamed hs hheader)
      intro name hname
      rw [hasScope_addNode _ _ (Statement.isScope_of_node? hnode), hasScope_measured,
        hasScope_withScope d hname]

theorem collects_of_readLines {document : Template α} {options : ParseOptions} {lines : List Text}
    {d : Draft α} {issues : List Issue}
    (h : readLines isGate document options .empty 0 lines = (issues, .ok d)) : Collects lines d :=
  readLines_induction isGate document options (P := fun lines _ d => Collects lines d) .empty
    (fun _ _ _ _ _ _ hd hreads => hreads.collects hd) h

end Draft

-- A header whose name an earlier one has, behind headers of different names
structure FirstRepeat (before : List Text) (raw name : Text) : Prop where
  header : Statement.headerName? raw = some name
  taken : name ∈ Statement.headerNames before
  distinct : (Statement.headerNames before).Nodup

theorem exists_firstRepeat {lines : List Text} (h : ¬ (Statement.headerNames lines).Nodup) :
    ∃ before raw after name, lines = before ++ raw :: after ∧ FirstRepeat before raw name := by
  induction lines using List.reverseRecOn with
  | nil => exact absurd List.nodup_nil h
  | append_singleton lines raw ih =>
      by_cases hlines : (Statement.headerNames lines).Nodup
      · simp only [Statement.nodup_headerNames_append, hlines, true_and, not_forall, not_not] at h
        obtain ⟨name, hraw, htaken⟩ := h
        exact ⟨lines, raw, [], name, rfl, hraw, htaken, hlines⟩
      · obtain ⟨before, found, after, name, rfl, hfound⟩ := ih hlines
        exact ⟨before, found, after ++ [raw], name, by simp, hfound⟩

end Narrative
