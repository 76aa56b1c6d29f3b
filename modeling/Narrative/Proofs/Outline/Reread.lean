import Narrative.Proofs.Outline.Printed
import Narrative.Proofs.Script.Spine

namespace Narrative

variable {α : Type} {args : List α} {isGate : α → Bool}

namespace Beats

theorem length_lines (beats : Beats args) (m : Margin) (level : Nat) :
    (beats.lines m level).length = beats.size := by
  induction beats generalizing level with
  | nil => rfl
  | cons beat below rest ihbelow ihrest =>
      rw [lines, List.length_cons, List.length_append, ihbelow, ihrest, size]
      omega

-- What the parser adds for beats, with the node that they hang under
def entries (m : Margin) (level : Nat) (parent id line : Nat) : Beats args → List (Entry α)
  | nil => []
  | cons beat below rest =>
    ⟨beat.kind fun _ => none, line, m.blanks level ++ beat.body, some parent⟩ ::
      (below.entries m (level + 1) id (id + 1) (line + 1) ++
        rest.entries m level parent (id + 1 + below.size) (line + 1 + below.size))

theorem length_entries (beats : Beats args) (m : Margin) (level parent id line : Nat) :
    (beats.entries m level parent id line).length = beats.size := by
  induction beats generalizing level parent id line with
  | nil => rfl
  | cons beat below rest ihbelow ihrest =>
      rw [entries, List.length_cons, List.length_append, ihbelow, ihrest, size]
      omega

theorem isScope_of_mem_entries {beats : Beats args} {m : Margin} {level parent id line : Nat}
    {e : Entry α} (h : e ∈ beats.entries m level parent id line) : e.kind.isScope = false := by
  induction beats generalizing level parent id line with
  | nil => cases h
  | cons beat below rest ihbelow ihrest =>
      rw [entries, List.mem_cons, List.mem_append] at h
      rcases h with rfl | hmem | hmem
      · exact beat.isScope_kind fun _ => none
      · exact ihbelow hmem
      · exact ihrest hmem

end Beats

namespace Spine

-- Whether the next line can be placed so that these nodes are open, innermost first
def Opens (s : Spine) (path : List Nat) : Prop :=
  path <:+ s.nested ∨ ∃ id, path = id :: s.nested ∧ s.last = some (id, true)

namespace Opens

variable {s : Spine} {path : List Nat}

theorem of_suffix {outer : List Nat} (h : s.Opens path) (hsuffix : outer <:+ path) :
    s.Opens outer := by
  rcases h with h | ⟨id, rfl, hlast⟩
  · exact .inl (hsuffix.trans h)
  · rcases List.suffix_cons_iff.1 hsuffix with rfl | hnested
    · exact .inr ⟨id, rfl, hlast⟩
    · exact .inl hnested

theorem length_le (h : s.Opens path) : path.length ≤ s.height := by
  rw [height]
  rcases h with h | ⟨id, rfl, -⟩
  · have hle := h.length_le
    omega
  · rw [List.length_cons]

theorem nested_openAt (h : s.Opens path) : (s.openAt path.length).nested = path := by
  rcases h with ⟨front, hfront⟩ | ⟨id, rfl, hlast⟩
  · have hlength : s.nested.length = front.length + path.length := by
      rw [← hfront, List.length_append]
    rw [openAt, if_pos (by rw [height]; omega)]
    simp only
    rw [show s.nested.length - path.length = front.length by omega, ← hfront, List.drop_left]
  · rw [openAt, if_neg (by rw [height, List.length_cons]; omega), hlast]

theorem fits (h : s.Opens path) : s.fits path.length = true := by
  rw [Spine.fits, Bool.or_eq_true, decide_eq_true_eq, height]
  rcases h with h | ⟨id, rfl, hlast⟩
  · have hle := h.length_le
    omega
  · exact .inr (by rw [hlast]; rfl)

end Opens

end Spine

-- A draft of which the next line can be placed under these nodes, with the margin
structure Draft.Ready (m : Margin) (d : Draft α) (scope : Nat) (path : List Nat) : Prop where
  opens : ∃ s, d.spine = some s ∧ s.scope = scope ∧ s.Opens path
  indent : d.indent = some ⟨m.blanks 1⟩ ∨ d.indent = none ∧ path.length ≤ 1

namespace Draft

variable {m : Margin} {d : Draft α} {scope : Nat} {path : List Nat}

theorem Ready.of_suffix {outer : List Nat} (h : d.Ready m scope path) (hsuffix : outer <:+ path) :
    d.Ready m scope outer := by
  obtain ⟨s, hs, hscope, hopens⟩ := h.opens
  refine ⟨⟨s, hs, hscope, hopens.of_suffix hsuffix⟩, h.indent.imp_right fun hnone => ?_⟩
  exact ⟨hnone.1, hsuffix.length_le.trans hnone.2⟩

theorem Ready.measure_beat (h : d.Ready m scope path) (b : Beat args) :
    d.measureOf (m.blanks path.length ++ b.body) = ⟨path.length, false, true⟩ ∧
      (d.measured (m.blanks path.length ++ b.body)).indent =
        if path = [] then d.indent else some ⟨m.blanks 1⟩ := by
  rw [measureOf, measured, leadingBlanks_beat, measure]
  by_cases hnil : path = []
  · subst hnil
    rw [if_pos (m.blanks_eq_nil_iff.2 List.length_nil), if_pos rfl]
    exact ⟨rfl, rfl⟩
  · have hlength : path.length ≠ 0 := by rwa [Ne, List.length_eq_zero_iff]
    have hindent : d.indent.getD ⟨m.blanks path.length⟩ = ⟨m.blanks 1⟩ := by
      rcases h.indent with he | ⟨he, hle⟩
      · rw [he]; rfl
      · rw [he, show path.length = 1 by omega]; rfl
    rw [if_neg fun he => hlength (m.blanks_eq_nil_iff.1 he), if_neg hnil, hindent]
    exact ⟨m.measure_blanks path.length, rfl⟩

-- A beat under the open nodes is read as it was printed. More can stand below it if it
-- owns others.
theorem Ready.readLine (h : d.Ready m scope path) (isGate : α → Bool) {document : Template α}
    (hargs : document.args = args) (options : ParseOptions) (line : Nat) (b : Beat args) :
    ∃ d', d.readLine isGate document options line (m.blanks path.length ++ b.body) = ([], .ok d') ∧
      d'.entries = d.entries.push ⟨b.kind fun _ => none, line, m.blanks path.length ++ b.body,
        some (path.head?.getD scope)⟩ ∧
      d'.Ready m scope path ∧ (b.owns isGate = true → d'.Ready m scope (d.entries.size :: path)) := by
  obtain ⟨hmeasure, hindent⟩ := h.measure_beat b
  obtain ⟨s, hs, rfl, hopens⟩ := h.opens
  have hscope := withScope_of_spine hs line (m.blanks path.length ++ b.body)
  have hheight : d.height = s.height := by rw [height, hs]; rfl
  have hdepth : d.depthOf (m.blanks path.length ++ b.body) = path.length := by
    rw [depthOf, hmeasure, hheight]
    exact Nat.min_eq_left hopens.length_le
  have hfaults : d.nodeFaults s b.statement (m.blanks path.length ++ b.body) = [] := by
    rw [nodeFaults, hdepth, hmeasure, b.faults_statement, hopens.fits, hheight]
    simp only [Measure.faults, Bool.false_eq_true, if_false, Bool.not_true, Bool.true_or, if_true,
      List.append_nil, if_neg (Nat.not_lt.2 hopens.length_le)]
  have hreads := (readLine_eq_ok_iff isGate document options line
    (m.blanks path.length ++ b.body) d _ _).2
    (.placed b.statement (b.kind fun _ => none) s (ofLine?_beat m path.length b options)
      (b.node?_statement hargs) (by rw [hscope, hs]))
  rw [hscope, hfaults, hdepth] at hreads
  have hnested : (s.openAt path.length).nested = path := hopens.nested_openAt
  refine ⟨_, hreads, ?_, ⟨⟨_, rfl, Spine.scope_openAt s _, .inl ?_⟩, ?_⟩, fun howns => ?_⟩
  · rw [addNode, entries_measured, Spine.parent, hnested, Spine.scope_openAt]
  · show path <:+ (s.openAt path.length).nested
    rw [hnested]
  · rw [addNode, hindent]
    split
    · exact h.indent
    · exact .inl rfl
  · refine ⟨⟨_, rfl, Spine.scope_openAt s _, .inr ⟨d.entries.size, ?_, ?_⟩⟩, ?_⟩
    · rw [hnested]
    · rw [entries_measured, b.canOwn_kind, howns]
    · rw [addNode, hindent]
      split
      · next hnil =>
        rw [hnil] at h ⊢
        exact h.indent.imp_right fun hnone => ⟨hnone.1, Nat.le_refl 1⟩
      · exact .inl rfl

-- All beats below the open nodes are read as they were printed.
theorem Ready.readLines {document : Template α} (hargs : document.args = args)
    (options : ParseOptions) (line : Nat) (beats : Beats args) (howned : beats.Owned isGate)
    (h : d.Ready m scope path) :
    ∃ d', Draft.readLines isGate document options d line (beats.lines m path.length) = ([], .ok d') ∧
      d'.entries.toList = d.entries.toList ++
        beats.entries m path.length (path.head?.getD scope) d.entries.size line ∧
      d'.Ready m scope path := by
  induction beats generalizing d path line with
  | nil => exact ⟨d, rfl, (List.append_nil _).symm, h⟩
  | cons beat below rest ihbelow ihrest =>
      obtain ⟨howns, hbelow, hrest⟩ := howned
      obtain ⟨d₁, hline, hentries₁, hready₁, hopened⟩ := h.readLine isGate hargs options line beat
      have hsize₁ : d₁.entries.size = d.entries.size + 1 := by rw [hentries₁, Array.size_push]
      -- what stands below
      obtain ⟨d₂, hlines₂, hentries₂, hready₂⟩ : ∃ d₂,
          Draft.readLines isGate document options d₁ (line + 1) (below.lines m (path.length + 1)) =
            ([], .ok d₂) ∧
          d₂.entries.toList = d₁.entries.toList ++
            below.entries m (path.length + 1) d.entries.size d₁.entries.size (line + 1) ∧
          d₂.Ready m scope path := by
        rcases howns with rfl | howns
        · exact ⟨d₁, rfl, (List.append_nil _).symm, hready₁⟩
        · obtain ⟨d₂, hlines₂, hentries₂, hready₂⟩ := ihbelow (line + 1) hbelow (hopened howns)
          exact ⟨d₂, hlines₂, hentries₂, hready₂.of_suffix (List.suffix_cons _ _)⟩
      have hsize₂ : d₂.entries.size = d.entries.size + 1 + below.size := by
        rw [← Array.length_toList, hentries₂, List.length_append, Array.length_toList, hsize₁,
          Beats.length_entries]
      -- what stands beside
      obtain ⟨d₃, hlines₃, hentries₃, hready₃⟩ := ihrest (line + 1 + below.size) hrest hready₂
      refine ⟨d₃, ?_, ?_, hready₃⟩
      · rw [Beats.lines, Draft.readLines, hline]
        simp only [readLines_append, hlines₂, Beats.length_lines, hlines₃, List.nil_append]
      · rw [hentries₃, hentries₂, hsize₁, hentries₁, hsize₂, Beats.entries, Array.toList_push]
        simp only [List.append_assoc, List.cons_append, List.nil_append]

theorem hasScope_eq_false_iff {name : Text} :
    d.hasScope name = false ↔ ∀ e ∈ d.entries.toList, e.kind ≠ .scope name := by
  have hany : d.hasScope name = d.entries.toList.any (Entry.isNamed name) := Array.any_toList.symm
  rw [hany, List.any_eq_false]
  exact forall₂_congr fun e _ => not_congr Entry.isNamed_eq_true_iff

theorem hasScope_append_eq_false {d' : Draft α} {name : Text} {added : List (Entry α)}
    (h : d'.entries.toList = d.entries.toList ++ added) (hd : d.hasScope name = false)
    (hadded : ∀ e ∈ added, e.kind ≠ .scope name) : d'.hasScope name = false := by
  rw [hasScope_eq_false_iff, h]
  intro e he
  rcases List.mem_append.1 he with he | he
  · exact hasScope_eq_false_iff.1 hd e he
  · exact hadded e he

-- A header opens its chapter, and the margin stays what it is.
theorem readLine_header (isGate : α → Bool) (document : Template α) (options : ParseOptions)
    (line : Nat) (c : Chapter args) (hindent : d.indent = some ⟨m.blanks 1⟩ ∨ d.indent = none)
    (hnew : d.hasScope c.name.text = false) :
    ∃ d', d.readLine isGate document options line c.header = ([], .ok d') ∧
      d'.entries = d.entries.push ⟨.scope c.name.text, line, c.header, none⟩ ∧
      d'.Ready m d.entries.size [] := by
  have hmeasured : d.measureOf c.header = .flush ∧ d.measured c.header = d := by
    rw [measureOf, measured, leadingBlanks_header, measure, if_pos rfl]
    exact ⟨rfl, rfl⟩
  have hfaults : d.headerFaults c.name.text c.header = [] := by
    rw [headerFaults, hmeasured.1, Statement.faults, if_neg c.name.ne_nil]
    simp [Measure.flush, Measure.faults]
  have hreads := (readLine_eq_ok_iff isGate document options line c.header d _ _).2
    (.opened c.name.text (ofLine?_header c options) c.name.ne_nil hnew)
  rw [hfaults, hmeasured.2] at hreads
  refine ⟨_, hreads, rfl, ⟨_, rfl, rfl, .inl (List.nil_suffix)⟩, ?_⟩
  exact hindent.imp_right fun hnone => ⟨hnone, Nat.zero_le 1⟩

theorem readLines_chapter {document : Template α} (hargs : document.args = args)
    (options : ParseOptions) (line : Nat) (c : Chapter args) (howned : c.beats.Owned isGate)
    (hindent : d.indent = some ⟨m.blanks 1⟩ ∨ d.indent = none)
    (hnew : d.hasScope c.name.text = false) :
    ∃ d', Draft.readLines isGate document options d line (c.lines m) = ([], .ok d') ∧
      d'.entries.toList = d.entries.toList ++ ⟨.scope c.name.text, line, c.header, none⟩ ::
        c.beats.entries m 0 d.entries.size (d.entries.size + 1) (line + 1) ∧
      d'.Ready m d.entries.size [] := by
  obtain ⟨d₁, hline, hentries₁, hready₁⟩ := readLine_header isGate document options line c hindent hnew
  obtain ⟨d₂, hlines, hentries₂, hready₂⟩ := hready₁.readLines hargs options (line + 1) c.beats howned
  refine ⟨d₂, ?_, ?_, hready₂⟩
  · rw [List.length_nil] at hlines
    rw [Chapter.lines, Draft.readLines, hline]
    simp only [hlines, List.nil_append]
  · rw [hentries₂, hentries₁, Array.toList_push, Array.size_push, List.append_assoc]
    rfl

end Draft

namespace Chapter

theorem length_lines (c : Chapter args) (m : Margin) : (c.lines m).length = c.beats.size + 1 := by
  rw [lines, List.length_cons, Beats.length_lines]

-- What the parser adds for chapters
def entries (m : Margin) : Nat → Nat → List (Chapter args) → List (Entry α)
  | _, _, [] => []
  | id, line, c :: rest =>
    ⟨.scope c.name.text, line, c.header, none⟩ ::
      (c.beats.entries m 0 id (id + 1) (line + 1) ++
        entries m (id + 1 + c.beats.size) (line + 1 + c.beats.size) rest)

end Chapter

namespace Draft

variable {m : Margin} {d : Draft α}

-- Chapters are read as they were printed, after anything that has none of their names.
theorem readLines_chapters {document : Template α} (hargs : document.args = args)
    (options : ParseOptions) (line : Nat) (chapters : List (Chapter args))
    (hdistinct : (chapters.map (·.name.text)).Nodup)
    (howned : ∀ c ∈ chapters, c.beats.Owned isGate)
    (hindent : d.indent = some ⟨m.blanks 1⟩ ∨ d.indent = none)
    (hnew : ∀ c ∈ chapters, d.hasScope c.name.text = false)
    (hspine : d.spine ≠ none ∨ chapters ≠ []) :
    ∃ d', Draft.readLines isGate document options d line (chapters.flatMap (Chapter.lines m)) =
        ([], .ok d') ∧
      d'.entries.toList = d.entries.toList ++ Chapter.entries m d.entries.size line chapters ∧
      d'.spine ≠ none := by
  induction chapters generalizing d line with
  | nil => exact ⟨d, rfl, (List.append_nil _).symm, hspine.resolve_right (by simp)⟩
  | cons c rest ih =>
      rw [List.map_cons, List.nodup_cons] at hdistinct
      obtain ⟨d₁, hlines₁, hentries₁, hready₁⟩ := readLines_chapter hargs options line c
        (howned c List.mem_cons_self) hindent (hnew c List.mem_cons_self)
      have hsize₁ : d₁.entries.size = d.entries.size + 1 + c.beats.size := by
        rw [← Array.length_toList, hentries₁, List.length_append, Array.length_toList, List.length_cons,
          Beats.length_entries]
        omega
      have hnew₁ : ∀ other ∈ rest, d₁.hasScope other.name.text = false := by
        intro other hother
        apply hasScope_append_eq_false hentries₁ (hnew other (List.mem_cons_of_mem _ hother))
        intro e he hname
        rcases List.mem_cons.1 he with rfl | he
        · injection hname with hname
          exact hdistinct.1 (hname ▸ List.mem_map_of_mem hother)
        · have hscope := Beats.isScope_of_mem_entries he
          rw [hname] at hscope
          cases hscope
      obtain ⟨s, hs, -⟩ := hready₁.opens
      obtain ⟨d₂, hlines₂, hentries₂, hspine₂⟩ := ih (line + (c.lines m).length) hdistinct.2
        (fun other hother => howned other (List.mem_cons_of_mem _ hother))
        (hready₁.indent.imp_right And.left) hnew₁ (.inl (by simp [hs]))
      refine ⟨d₂, ?_, ?_, hspine₂⟩
      · rw [List.flatMap_cons, readLines_append, hlines₁]
        simp only [hlines₂, List.nil_append]
      · rw [hentries₂, hentries₁, hsize₁, Chapter.entries, Chapter.length_lines,
          show line + (c.beats.size + 1) = line + 1 + c.beats.size by omega]
        simp only [List.append_assoc, List.cons_append]

end Draft

end Narrative
