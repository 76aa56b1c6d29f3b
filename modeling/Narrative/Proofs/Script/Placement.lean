import Mathlib.Order.Bounds.Defs
import Narrative.Proofs.Script.WellFormed

namespace Narrative

variable {α : Type} {isGate : α → Bool}

-- The unit of indentation is what the first line that is measured and indented begins
-- with.
def Indent.ofLines? (options : ParseOptions) (lines : List Text) : Option Indent :=
  ((lines.filter fun raw => (Statement.ofLine? options raw).isSome).map Text.leadingBlanks).find? (· ≠ [])
    |>.map Indent.mk

-- The unit for a line behind others: theirs, or else its own blanks
def Indent.behind (options : ParseOptions) (before : List Text) (raw : Text) : Indent :=
  (Indent.ofLines? options before).getD ⟨Text.leadingBlanks raw⟩

namespace Indent

-- How many units deep blanks are, rounded down
def depth (i : Indent) (blanks : Text) : Nat :=
  if blanks = [] then 0 else Text.byteSize (i.normalize blanks) / Text.byteSize i.unit

-- Whether blanks are a whole number of units
def Divides (i : Indent) (blanks : Text) : Prop :=
  blanks = [] ∨ Text.byteSize (i.normalize blanks) % Text.byteSize i.unit = 0

instance (i : Indent) (blanks : Text) : Decidable (i.Divides blanks) := by
  unfold Divides
  infer_instance

end Indent

namespace Draft

-- How many nodes a node hangs under, the scope not counted
def level (entries : Array (Entry α)) (id : Nat) : Nat := (path entries id).length - 2

-- How deep the next node can be placed: right below the last node if that one can own
-- lines, beside it if not, and at the front of a scope that has no nodes yet
def allowed (isGate : α → Bool) (entries : Array (Entry α)) : Nat :=
  match entries.back? with
  | none => 0
  | some last =>
    if last.kind.isScope then 0
    else if last.kind.canOwn isGate then level entries (entries.size - 1) + 1
    else level entries (entries.size - 1)

def IsScope (entries : Array (Entry α)) (id : Nat) : Prop :=
  ∃ e, entries[id]? = some e ∧ e.kind.isScope = true

-- A node at a level hangs under its scope or under the last node one level further out.
def PlacedAt (entries : Array (Entry α)) (id level parent : Nat) : Prop :=
  Draft.level entries id = level ∧
    ∃ scope, IsGreatest {q : Nat | q < id ∧ IsScope entries q} scope ∧
      if level = 0 then parent = scope
      else IsGreatest {q : Nat | scope < q ∧ q < id ∧ Draft.level entries q + 1 = level} parent

theorem level_push_of_lt {entries : Array (Entry α)} {id : Nat} (e : Entry α) (h : id < entries.size) :
    level (entries.push e) id = level entries id := by
  rw [level, level, path_push_of_lt e h]

theorem isScope_push_of_lt {entries : Array (Entry α)} {id : Nat} (e : Entry α)
    (h : id < entries.size) : IsScope (entries.push e) id ↔ IsScope entries id := by
  simp only [IsScope, Array.getElem?_push_lt h, Array.getElem?_eq_getElem h]

end Draft

namespace Spine.Tracks

variable {entries : Array (Entry α)} {s : Spine}

-- The spine knows how deep the next node can be placed.
theorem allowed_eq (h : s.Tracks isGate entries) :
    Draft.allowed isGate entries =
      if s.last.any (·.2) then s.nested.length + 1 else s.nested.length := by
  have hp := h.path_eq
  cases hlast : s.last with
  | none =>
      obtain ⟨e, he, hscope⟩ := h.scope
      rw [Draft.path, hlast, h.nested_nil hlast] at hp
      have htip : entries.size - 1 = s.scope := (List.cons.inj hp).1
      rw [Draft.allowed, Array.back?_eq_getElem?, htip, he, h.nested_nil hlast]
      simp [hscope]
  | some last =>
      obtain ⟨id, owns⟩ := last
      obtain ⟨e, he, hscope, hown⟩ := h.owns hlast
      rw [h.last_eq hlast] at he
      have hlevel : Draft.level entries (entries.size - 1) = s.nested.length := by
        rw [Draft.level, hp, hlast]
        simp
      rw [Draft.allowed, Array.back?_eq_getElem?, he, hlevel]
      simp [hscope, hown]

theorem allowed_le (h : s.Tracks isGate entries) : Draft.allowed isGate entries ≤ s.height := by
  rw [h.allowed_eq, height]
  split <;> omega

-- A line goes as deep as it is indented, as far as that is allowed.
theorem length_openAt (h : s.Tracks isGate entries) (depth : Nat) :
    (s.openAt (min depth s.height)).nested.length = min depth (Draft.allowed isGate entries) := by
  rw [h.allowed_eq]
  unfold openAt height
  by_cases hlt : depth < s.nested.length + 1
  · have hmin : min depth (s.nested.length + 1) = depth := Nat.min_eq_left hlt.le
    simp only [hmin, if_pos hlt, List.length_drop]
    split <;> omega
  · have hmin : min depth (s.nested.length + 1) = s.nested.length + 1 := Nat.min_eq_right (by omega)
    simp only [hmin, Nat.lt_irrefl, if_false]
    rcases s.last with _ | ⟨id, owns⟩
    · simp
      omega
    · cases owns <;> simp <;> omega

theorem fits_iff (h : s.Tracks isGate entries) {depth : Nat} (hdepth : depth ≤ s.height) :
    s.fits depth = true ↔ depth ≤ Draft.allowed isGate entries := by
  rw [h.allowed_eq, fits, height, Bool.or_eq_true, decide_eq_true_eq]
  rw [height] at hdepth
  cases s.last.any (·.2) with
  | false =>
      rw [if_neg Bool.false_ne_true, or_iff_left Bool.false_ne_true]
      exact Nat.lt_succ_iff
  | true => simpa using hdepth

-- The scope of a spine is the last one, as no scope hangs under another node.
theorem isGreatest_scope (h : s.Tracks isGate entries) (hn : Draft.Nested isGate entries) :
    IsGreatest {q : Nat | q < entries.size ∧ Draft.IsScope entries q} s.scope := by
  obtain ⟨e, he, hscope⟩ := h.scope
  refine ⟨⟨(Array.getElem?_eq_some_iff.1 he).1, e, he, hscope⟩, ?_⟩
  rintro q ⟨hq, o, ho, hoscope⟩
  by_contra hlt
  have hmem : s.scope ∈ Draft.path entries (entries.size - 1) :=
    h.suffix.subset (List.mem_append_right _ (List.mem_singleton_self _))
  have hpath := hn.mem_path_between hmem (Nat.lt_of_not_le hlt).le (by omega : q ≤ entries.size - 1)
  rw [Draft.path_of_none ((hn.parent?_eq_none_iff ho).2 hoscope), List.mem_singleton] at hpath
  omega

-- The innermost open node is the last one of its level: all later ones are below it.
theorem isGreatest_parent (h : s.Tracks isGate entries) (hn : Draft.Nested isGate entries)
    {depth : Nat} (hne : (s.openAt depth).nested ≠ []) :
    IsGreatest {q : Nat | s.scope < q ∧ q < entries.size ∧
      Draft.level entries q + 1 = (s.openAt depth).nested.length} (s.openAt depth).parent := by
  have hpath := h.path_parent depth
  have hlength : 0 < (s.openAt depth).nested.length := List.length_pos_iff.2 hne
  obtain ⟨o, ho, -⟩ := h.canOwn_parent hn depth
  have hsize := (Array.getElem?_eq_some_iff.1 ho).1
  have hlevel : Draft.level entries (s.openAt depth).parent + 1 = (s.openAt depth).nested.length := by
    rw [Draft.level, hpath, List.length_append, List.length_singleton]
    omega
  have hscope : s.scope ∈ Draft.path entries (s.openAt depth).parent := by
    rw [hpath]
    exact List.mem_append_right _ (List.mem_singleton_self _)
  refine ⟨⟨?_, hsize, hlevel⟩, ?_⟩
  · apply Nat.lt_of_le_of_ne (Draft.le_of_mem_path hscope)
    intro he
    -- the path of a scope ends at once
    obtain ⟨e, hes, hescope⟩ := h.scope
    rw [← he, Draft.path_of_none ((hn.parent?_eq_none_iff hes).2 hescope)] at hpath
    have hcount := congrArg List.length hpath
    simp only [List.length_append, List.length_singleton] at hcount
    omega
  · rintro q ⟨-, hq, hqlevel⟩
    by_contra hlt
    have hmem := hn.mem_path_between (h.parent_mem_path depth)
      (Nat.lt_of_not_le hlt).le (by omega : q ≤ entries.size - 1)
    rcases Draft.path_cases entries q with hp | ⟨p, -, -, hp⟩
    · rw [hp, List.mem_singleton] at hmem
      omega
    · rw [hp] at hmem
      rcases List.mem_cons.1 hmem with he | hmem
      · omega
      · have hle := (Draft.path_suffix_of_mem hmem).length_le
        rw [hpath, List.length_append, List.length_singleton] at hle
        rw [Draft.level, hp, List.length_cons] at hqlevel
        omega

end Spine.Tracks

-- The unit of lines behind others is theirs, if they have one.
theorem Indent.ofLines?_append (options : ParseOptions) (before after : List Text) :
    ofLines? options (before ++ after) = (ofLines? options before).or (ofLines? options after) := by
  unfold ofLines?
  rw [List.filter_append, List.map_append, List.find?_append, Option.map_or]

theorem Indent.ofLines?_singleton (options : ParseOptions) (raw : Text) :
    ofLines? options [raw] =
      if (Statement.ofLine? options raw).isSome ∧ Text.leadingBlanks raw ≠ [] then
        some ⟨Text.leadingBlanks raw⟩ else none := by
  unfold ofLines?
  by_cases hs : (Statement.ofLine? options raw).isSome = true
  · by_cases hb : Text.leadingBlanks raw = [] <;> simp [hs, hb]
  · simp [hs]

-- The unit of a document is the one that its lines are measured by.
theorem Indent.behind_eq {options : ParseOptions} {before after : List Text} {raw : Text} {i : Indent}
    {s : Statement} (hunit : ofLines? options (before ++ raw :: after) = some i)
    (hs : Statement.ofLine? options raw = some s) (hblanks : Text.leadingBlanks raw ≠ []) :
    behind options before raw = i := by
  have hraw : ofLines? options [raw] = some ⟨Text.leadingBlanks raw⟩ := by
    rw [ofLines?_singleton, hs, if_pos ⟨rfl, hblanks⟩]
  rw [ofLines?_append, ← List.singleton_append, ofLines?_append, hraw, Option.some_or] at hunit
  unfold behind
  cases hbefore : ofLines? options before with
  | some other =>
      rw [hbefore, Option.some_or] at hunit
      exact Option.some.inj hunit
  | none =>
      rw [hbefore, Option.none_or] at hunit
      exact Option.some.inj hunit

theorem Indent.unit_ne_nil_of_ofLines? {options : ParseOptions} {lines : List Text} {i : Indent}
    (h : ofLines? options lines = some i) : i.unit ≠ [] := by
  obtain ⟨blanks, hblanks, rfl⟩ := Option.map_eq_some_iff.1 h
  have hne := List.find?_some hblanks
  exact of_decide_eq_true hne

namespace Draft

variable {document : Template α} {options : ParseOptions}

-- The unit of a draft is the one of the lines that were read.
theorem Reads.indent_eq {before : List Text} {raw : Text} {d d' : Draft α} {issues : List Issue}
    (hd : d.indent = Indent.ofLines? options before)
    (h : Reads isGate document options before.length raw d issues d') :
    d'.indent = Indent.ofLines? options (before ++ [raw]) := by
  rw [Indent.ofLines?_append, Indent.ofLines?_singleton, ← hd]
  have hmeasured : ∀ {s : Statement}, Statement.ofLine? options raw = some s →
      (d.measured raw).indent = d.indent.or
        (if (Statement.ofLine? options raw).isSome ∧ Text.leadingBlanks raw ≠ [] then
          some ⟨Text.leadingBlanks raw⟩ else none) := by
    intro s hs
    rw [indent_measured, hs]
    by_cases hb : Text.leadingBlanks raw = [] <;> simp [hb]
  have hscoped : ((d.withScope before.length raw).measured raw).indent = (d.measured raw).indent := by
    rw [indent_measured, indent_measured, indent_withScope]
  cases h with
  | silent hs => simp [hs]
  | nameless hs => exact hmeasured hs
  | opened name hs => exact hmeasured hs
  | unplaced s hs => exact hscoped.trans (hmeasured hs)
  | placed s kind spine hs => exact hscoped.trans (hmeasured hs)

theorem indent_eq_ofLines? {lines : List Text} {d : Draft α} {issues : List Issue}
    (h : readLines isGate document options .empty 0 lines = (issues, .ok d)) :
    d.indent = Indent.ofLines? options lines :=
  readLines_induction isGate document options
    (P := fun lines _ d => d.indent = Indent.ofLines? options lines) rfl
    (fun _ _ _ _ _ _ hd hreads => hreads.indent_eq hd) h

theorem measureOf_eq {d : Draft α} {before : List Text} (raw : Text)
    (hd : d.indent = Indent.ofLines? options before) :
    d.measureOf raw =
      if Text.leadingBlanks raw = [] then .flush
      else (Indent.behind options before raw).measure (Text.leadingBlanks raw) := by
  unfold measureOf measure
  rw [hd]
  split <;> rfl

theorem depth_measureOf {d : Draft α} {before : List Text} (raw : Text)
    (hd : d.indent = Indent.ofLines? options before) :
    (d.measureOf raw).depth = (Indent.behind options before raw).depth (Text.leadingBlanks raw) := by
  rw [measureOf_eq raw hd, Indent.depth]
  split <;> rfl

theorem whole_measureOf {d : Draft α} {before : List Text} (raw : Text)
    (hd : d.indent = Indent.ofLines? options before) :
    (d.measureOf raw).whole = true ↔
      (Indent.behind options before raw).Divides (Text.leadingBlanks raw) := by
  rw [measureOf_eq raw hd, Indent.Divides]
  by_cases hb : Text.leadingBlanks raw = []
  · simp [hb, Measure.flush]
  · simp [hb, Indent.measure]

end Draft

-- Whether an issue says that a line is indented in a way that it should not be
def Issue.isIndentation (issue : Issue) : Bool := issue.kind = .unexpectedIndentation

def Fault.isIndentation (fault : Fault) : Bool := fault.kind = .unexpectedIndentation

theorem Statement.countP_faults (s : Statement) : s.faults.countP Fault.isIndentation = 0 := by
  rw [List.countP_eq_zero]
  intro fault hfault
  cases s <;> simp only [faults, List.mem_ite_nil_right, List.mem_ite_nil_left, List.mem_singleton,
    List.not_mem_nil] at hfault
  all_goals
    obtain ⟨-, rfl⟩ := hfault
    exact Bool.false_ne_true

theorem Measure.countP_faults (m : Measure) (height : Nat) :
    (m.faults height).countP Fault.isIndentation = if m.blamed height then 1 else 0 := by
  have hmixed : (if m.mixed then [Fault.mixedIndentation] else []).countP Fault.isIndentation = 0 := by
    split <;> rfl
  rw [faults, List.countP_append, hmixed, blamed]
  cases m.whole with
  | false => simp [Fault.isIndentation, Fault.kind]
  | true => by_cases hdeep : height < m.depth <;> simp [hdeep, Fault.isIndentation, Fault.kind]

namespace Draft

-- A line is blamed once for its indentation, however many reasons there are.
theorem countP_nodeFaults {d : Draft α} {spine : Spine} (hspine : d.spine = some spine)
    (h : spine.Tracks isGate d.entries) (s : Statement) (raw : Text) :
    (d.nodeFaults spine s raw).countP Fault.isIndentation =
      if (d.measureOf raw).whole = true ∧ (d.measureOf raw).depth ≤ allowed isGate d.entries then 0
      else 1 := by
  have hheight : d.height = spine.height := by simp [height, hspine]
  have hle := h.allowed_le
  rw [nodeFaults, depthOf, List.countP_append, List.countP_append, Statement.countP_faults,
    Measure.countP_faults, hheight]
  cases hblamed : (d.measureOf raw).blamed spine.height with
  | true =>
      have hnot : ¬ ((d.measureOf raw).whole = true ∧
          (d.measureOf raw).depth ≤ allowed isGate d.entries) := by
        rintro ⟨hwhole, hdepth⟩
        simp only [Measure.blamed, hwhole, Bool.not_true, Bool.false_or, decide_eq_true_eq] at hblamed
        omega
      simp [hnot]
  | false =>
      simp only [Measure.blamed, Bool.or_eq_false_iff, Bool.not_eq_false', decide_eq_false_iff_not,
        Nat.not_lt] at hblamed
      have hfits := h.fits_iff hblamed.2
      rw [Nat.min_eq_left hblamed.2]
      by_cases hdepth : (d.measureOf raw).depth ≤ allowed isGate d.entries
      · simp [hblamed.1, hdepth, hfits.2 hdepth]
      · have hnot : spine.fits (d.measureOf raw).depth = false := by
          rw [Bool.eq_false_iff]
          exact fun hf => hdepth (hfits.1 hf)
        simp [hdepth, hnot, Fault.isIndentation, Fault.kind]

-- Where a node is placed, and that it is placed there
theorem placedAt_addNode {d : Draft α} {spine : Spine} (hd : Sound isGate d)
    (hspine : d.spine = some spine) (depth : Nat) (kind : NodeKind α) (line : Nat) (raw : Text) :
    PlacedAt (d.entries.push ⟨kind, line, raw, some (spine.openAt (min depth spine.height)).parent⟩)
      d.entries.size (min depth (allowed isGate d.entries))
      (spine.openAt (min depth spine.height)).parent := by
  have h := hd.tracks hspine
  have hlength := h.length_openAt depth
  generalize min depth spine.height = opened at hlength ⊢
  obtain ⟨o, ho, -⟩ := h.canOwn_parent hd.nested opened
  have hparent := (Array.getElem?_eq_some_iff.1 ho).1
  refine ⟨?_, spine.scope, ?_, ?_⟩
  · rw [level, path_of_parent (parent?_push_size _ _) hparent, path_push_of_lt _ hparent,
      h.path_parent opened, List.length_cons, List.length_append, List.length_singleton, hlength]
    omega
  · have hscopes : {q : Nat | q < d.entries.size ∧ IsScope (d.entries.push
        ⟨kind, line, raw, some (spine.openAt opened).parent⟩) q} =
        {q : Nat | q < d.entries.size ∧ IsScope d.entries q} := by
      ext q
      exact and_congr_right fun hq => isScope_push_of_lt _ hq
    rw [hscopes]
    exact h.isGreatest_scope hd.nested
  · rw [← hlength]
    by_cases hnil : (spine.openAt opened).nested = []
    · rw [hnil, List.length_nil, if_pos rfl, Spine.parent, hnil, Spine.scope_openAt]
      rfl
    · have hlevels : {q : Nat | spine.scope < q ∧ q < d.entries.size ∧ level (d.entries.push
          ⟨kind, line, raw, some (spine.openAt opened).parent⟩) q + 1 =
            (spine.openAt opened).nested.length} =
          {q : Nat | spine.scope < q ∧ q < d.entries.size ∧ level d.entries q + 1 =
            (spine.openAt opened).nested.length} := by
        ext q
        refine and_congr_right fun _ => and_congr_right fun hq => ?_
        rw [level_push_of_lt _ hq]
      rw [if_neg (by simpa using hnil), hlevels]
      exact h.isGreatest_parent hd.nested hnil

theorem kind_of_unknownScope? {entries : Array (Entry α)} {e : Entry α} {issue : Issue}
    (h : unknownScope? entries e = some issue) : issue.kind = .unknownScope := by
  unfold unknownScope? at h
  split at h
  · split at h
    · cases h
      rfl
    · cases h
  · cases h

-- Behind the last line only unknown scopes are reported.
theorem countP_parse (isGate : α → Bool) (document : Template α) (options : ParseOptions)
    {p : Issue → Bool} (hp : ∀ issue, issue.kind = .unknownScope → p issue = false) :
    (parse isGate document options).1.countP p =
      (readLines isGate document options .empty 0 (Text.lines document.format)).1.countP p := by
  unfold parse
  rcases readLines isGate document options .empty 0 (Text.lines document.format) with ⟨found, e | d⟩
  · rfl
  · simp only [List.countP_append]
    rw [Nat.add_eq_left, List.countP_eq_zero]
    intro issue hissue
    obtain ⟨e, -, he⟩ := List.mem_filterMap.1 hissue
    rw [Bool.not_eq_true]
    exact hp issue (kind_of_unknownScope? he)

-- The issues of one line among all: lines before have lower numbers, and lines behind
-- higher ones.
theorem countP_readLines (isGate : α → Bool) (document : Template α) (options : ParseOptions)
    {before after : List Text} {raw : Text} {earlier : List Issue} {d : Draft α} (p : Issue → Bool)
    (hbefore : readLines isGate document options .empty 0 before = (earlier, .ok d)) :
    (readLines isGate document options .empty 0 (before ++ raw :: after)).1.countP
        (fun issue => issue.line = before.length ∧ p issue) =
      (d.readLine isGate document options before.length raw).1.countP p := by
  have hearlier : earlier.countP (fun issue => issue.line = before.length ∧ p issue) = 0 := by
    rw [List.countP_eq_zero]
    intro issue hissue
    have hm : issue ∈ (readLines isGate document options .empty 0 before).1 := by rwa [hbefore]
    have hlt := (line_of_mem_readLines isGate document options hm).2
    simp only [decide_eq_true_eq]
    omega
  have hfound : (d.readLine isGate document options before.length raw).1.countP
      (fun issue => issue.line = before.length ∧ p issue) =
        (d.readLine isGate document options before.length raw).1.countP p := by
    apply List.countP_congr
    intro issue hissue
    obtain ⟨fault, rfl, -⟩ := fault_of_mem_readLine isGate document options before.length raw d hissue
    simp [Issue.ofFault]
  have hlater : ∀ d' : Draft α, (readLines isGate document options d' (before.length + 1) after).1.countP
      (fun issue => issue.line = before.length ∧ p issue) = 0 := by
    intro d'
    rw [List.countP_eq_zero]
    intro issue hissue
    have hle := (line_of_mem_readLines isGate document options hissue).1
    simp only [decide_eq_true_eq]
    omega
  rw [readLines_append, hbefore]
  simp only [readLines, Nat.zero_add]
  rcases hline : d.readLine isGate document options before.length raw with ⟨found, e | d'⟩ <;>
    rw [hline] at hfound
  · simp only [List.countP_append, hearlier, hfound, Nat.zero_add]
  · simp only [List.countP_append, hearlier, hfound, hlater, Nat.zero_add, Nat.add_zero]

-- What a line added is still there at the end.
theorem getElem?_entries_of_readLines (isGate : α → Bool) (document : Template α)
    (options : ParseOptions) {before lines : List Text} {d d' : Draft α} {id : Nat}
    {e : Entry α} (he : d.entries[id]? = some e)
    (h : (readLines isGate document options d before.length lines).2 = .ok d') :
    d'.entries[id]? = some e :=
  readLines_keeps isGate document options (P := fun _ _ d => d.entries[id]? = some e)
    (fun _ _ _ _ _ _ hd hreads => hreads.getElem?_entries hd) before [] he (Prod.ext rfl h)

-- The line is blamed for its indentation as often as it has faults of that sort.
theorem countP_parse_line {document : Template α} {options : ParseOptions}
    {before after : List Text} {raw : Text} {earlier : List Issue} {d d' : Draft α}
    {faults : List Fault} (hlines : Text.lines document.format = before ++ raw :: after)
    (hbefore : readLines isGate document options .empty 0 before = (earlier, .ok d))
    (hline : d.readLine isGate document options before.length raw =
      (faults.map (.ofFault before.length raw), .ok d')) :
    (parse isGate document options).1.countP
        (fun issue => issue.line = before.length ∧ issue.isIndentation) =
      faults.countP Fault.isIndentation := by
  have hunknown : ∀ issue : Issue, issue.kind = .unknownScope →
      (decide (issue.line = before.length ∧ issue.isIndentation)) = false := by
    intro issue hkind
    simp [Issue.isIndentation, hkind]
  rw [countP_parse isGate document options hunknown, hlines,
    countP_readLines isGate document options Issue.isIndentation hbefore, hline, List.countP_map]
  rfl

-- What the line added is in the tree, and the node that it hangs under has it as a child.
theorem mem_children_of_parse {document : Template α} {options : ParseOptions}
    {before after : List Text} {raw : Text} {earlier found issues : List Issue} {d d' : Draft α}
    {tree : Tree α} (hlines : Text.lines document.format = before ++ raw :: after)
    (hbefore : readLines isGate document options .empty 0 before = (earlier, .ok d))
    (hline : d.readLine isGate document options before.length raw = (found, .ok d'))
    (hparse : parse isGate document options = (issues, .ok tree)) {id parent : Nat} {e : Entry α}
    (he : d'.entries[id]? = some e) (hparent : e.parent = some parent) :
    (tree.get? id).map (·.line) = some e.line ∧ id ∈ tree.children parent := by
  obtain ⟨all, final, hall, -, rfl⟩ := parse_eq_ok_iff.1 hparse
  have hfinal := (sound_of_readLines hall).withScope 0 []
  rw [hlines, readLines_of_readLine isGate document options hbefore (by rwa [Nat.zero_add]),
    Nat.zero_add, Prod.mk.injEq] at hall
  have hkept := getElem?_entries_of_readLines isGate document options he hall.2
  have hclosed := getElem?_withScope 0 [] hkept
  constructor
  · simp only [get?_tree, closed, hclosed, Option.map_some]
  · rw [closed, children_tree hfinal.nested, mem_childrenOf]
    exact parent?_eq_some_iff.2 ⟨e, hclosed, hparent⟩

end Draft

-- Every line that makes a node is placed as deep as it is indented and as far as the nodes
-- before it allow, and is blamed once if that is not as deep as it is indented.
theorem parse_places_lines (isGate : α → Bool) (document : Template α) (options : ParseOptions)
    {before after : List Text} {raw : Text} {earlier : List Issue} {d : Draft α} {s : Statement}
    {kind : NodeKind α} (hlines : Text.lines document.format = before ++ raw :: after)
    (hbefore : Draft.readLines isGate document options .empty 0 before = (earlier, .ok d))
    (hstatement : Statement.ofLine? options raw = some s) (hnode : s.node? document = .ok (some kind)) :
    let indent := Indent.behind options before raw
    let blanks := Text.leadingBlanks raw
    let entries := (d.withScope before.length raw).entries
    let allowed := Draft.allowed isGate entries
    ∃ (parent : Nat) (found : List Issue) (d' : Draft α),
      d.readLine isGate document options before.length raw = (found, .ok d') ∧
      d'.entries = entries.push ⟨kind, before.length, raw, some parent⟩ ∧
      Draft.PlacedAt d'.entries entries.size (min (indent.depth blanks) allowed) parent ∧
      ((parse isGate document options).1.countP fun issue =>
          issue.line = before.length ∧ issue.isIndentation) =
        (if indent.Divides blanks ∧ indent.depth blanks ≤ allowed then 0 else 1) ∧
      ∀ (issues : List Issue) (tree : Tree α), parse isGate document options = (issues, .ok tree) →
        (tree.get? entries.size).map (·.line) = some before.length ∧
          entries.size ∈ tree.children parent := by
  intro indent blanks entries allowed
  obtain ⟨spine, hspine⟩ := d.exists_spine_withScope before.length raw
  have hsound := (Draft.sound_of_readLines hbefore).withScope before.length raw
  have hindent := Draft.indent_eq_ofLines? hbefore
  have hread : Draft.Reads isGate document options before.length raw d _ _ :=
    .placed s kind spine hstatement hnode hspine
  have hline := (Draft.readLine_eq_ok_iff isGate document options before.length raw d _ _).2 hread
  have hheight : (d.withScope before.length raw).height = spine.height := by
    simp [Draft.height, hspine]
  have hdepth : ((d.withScope before.length raw).measureOf raw).depth = indent.depth blanks := by
    rw [Draft.measureOf_withScope, Draft.depth_measureOf raw hindent]
  have hwhole : ((d.withScope before.length raw).measureOf raw).whole = true ↔
      indent.Divides blanks := by
    rw [Draft.measureOf_withScope, Draft.whole_measureOf raw hindent]
  have hplaced := Draft.placedAt_addNode hsound hspine (indent.depth blanks) kind before.length raw
  have hadded : (((d.withScope before.length raw).measured raw).addNode isGate
      (spine.openAt ((d.withScope before.length raw).depthOf raw)) kind before.length raw).entries =
        entries.push ⟨kind, before.length, raw,
          some (spine.openAt (min (indent.depth blanks) spine.height)).parent⟩ := by
    rw [Draft.addNode, Draft.depthOf, hdepth, hheight, Draft.entries_measured]
  refine ⟨(spine.openAt (min (indent.depth blanks) spine.height)).parent, _, _, hline, hadded, ?_, ?_, ?_⟩
  · rw [hadded]
    exact hplaced
  · have hcount := Draft.countP_nodeFaults hspine (hsound.tracks hspine) s raw
    simp only [hwhole, hdepth] at hcount
    rw [Draft.countP_parse_line hlines hbefore hline, hcount]
  · intro issues tree hparse
    exact Draft.mem_children_of_parse hlines hbefore hline hparse
      (hadded ▸ Array.getElem?_push_size) rfl

-- The last line is three and a half units deep below a line that owns nothing: it stands
-- beside that line, and is blamed once.
theorem parse_places_deep_line_beside :
    ∃ (document : Template Nat) (d : Draft Nat) (parent : Nat),
      document.format = "> a\n  b\n       c".toList ∧ Draft.PlacedAt d.entries 3 1 parent ∧
      ((parse (fun _ => false) document .default).1.countP fun issue =>
        issue.line = 2 ∧ issue.isIndentation) = 1 := by
  have hlines : Text.lines "> a\n  b\n       c".toList =
      ["> a".toList, "  b".toList] ++ "       c".toList :: [] := by decide
  have hbefore : Draft.readLines (fun _ => false) ⟨"> a\n  b\n       c".toList, ([] : List Nat), []⟩
      .default .empty 0 ["> a".toList, "  b".toList] =
      ([], .ok ⟨#[⟨.scope [], 0, "> a".toList, none⟩,
        ⟨.choice ⟨['a'], [], [.literal ['a']]⟩, 0, "> a".toList, some 0⟩,
        ⟨.line ⟨['b'], [], [.literal ['b']]⟩, 1, "  b".toList, some 1⟩],
        some ⟨"  ".toList⟩, some ⟨0, [1], some (2, false)⟩⟩) := by
    decide +kernel
  have hstatement : Statement.ofLine? .default "       c".toList = some (.line ['c']) := by decide
  have hnode : (Statement.line ['c']).node? ⟨"> a\n  b\n       c".toList, ([] : List Nat), []⟩ =
      .ok (some (.line ⟨['c'], [], [.literal ['c']]⟩)) := by
    decide +kernel
  obtain ⟨parent, found, d, -, hadded, hplaced, hcount, -⟩ :=
    parse_places_lines (fun _ => false) _ .default hlines hbefore hstatement hnode
  refine ⟨_, d, parent, rfl, ?_, hcount.trans (if_neg (by decide +kernel))⟩
  convert hplaced using 1 <;> decide +kernel

end Narrative
