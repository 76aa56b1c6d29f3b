import Narrative.Proofs.Outline.Numbering
import Narrative.Proofs.Script.WellFormed

namespace Narrative

variable {α : Type} {args : List α} {isGate : α → Bool}

namespace Beats

-- What the parser adds for beats in front of the first header
def opening (m : Margin) : Beats args → List (Entry α)
  | nil => []
  | beats@(cons _ _ _) =>
    ⟨.scope [], 0, (beats.lines m 0).headD [], none⟩ :: beats.entries m 0 0 1 0

theorem length_opening (beats : Beats args) (m : Margin) :
    (beats.opening m).length = beats.leading := by
  cases beats with
  | nil => rfl
  | cons beat below rest => rw [opening, List.length_cons, length_entries, leading, Nat.add_comm]

theorem ne_scope_of_mem_opening {beats : Beats args} {m : Margin} {e : Entry α} {name : Text}
    (h : e ∈ beats.opening m) (hname : name ≠ []) : e.kind ≠ .scope name := by
  cases beats with
  | nil => cases h
  | cons beat below rest =>
      intro hkind
      rw [opening, List.mem_cons] at h
      rcases h with rfl | hmem
      · injection hkind with he
        exact hname he.symm
      · have hscope := isScope_of_mem_entries hmem
        rw [hkind] at hscope
        cases hscope

theorem mem_targets {beats : Beats args} {m : Margin} {level parent id line : Nat} {e : Entry α}
    {target : Text} {found : Option NodeId} (h : e ∈ beats.entries m level parent id line)
    (hkind : e.kind = .goTo target found) : target ≠ [] ∧ target ∈ beats.targets := by
  induction beats generalizing level parent id line with
  | nil => cases h
  | cons beat below rest ihbelow ihrest =>
      rw [entries, List.mem_cons, List.mem_append] at h
      rw [targets, List.append_assoc, List.mem_append, List.mem_append]
      rcases h with rfl | hmem | hmem
      · cases beat with
        | goTo name =>
            injection hkind with htarget
            subst htarget
            exact ⟨name.ne_nil, .inl (List.mem_singleton_self _)⟩
        | _ => cases hkind
      · obtain ⟨hname, htarget⟩ := ihbelow hmem
        exact ⟨hname, .inr (.inl htarget)⟩
      · obtain ⟨hname, htarget⟩ := ihrest hmem
        exact ⟨hname, .inr (.inr htarget)⟩

theorem exists_of_mem_lines {beats : Beats args} {m : Margin} {level : Nat} {raw : Text}
    (h : raw ∈ beats.lines m level) : ∃ (depth : Nat) (b : Beat args), raw = m.blanks depth ++ b.body := by
  induction beats generalizing level with
  | nil => cases h
  | cons beat below rest ihbelow ihrest =>
      rw [lines, List.mem_cons, List.mem_append] at h
      rcases h with rfl | hmem | hmem
      · exact ⟨level, beat, rfl⟩
      · exact ihbelow hmem
      · exact ihrest hmem

section Opening

variable {all : Array (Entry α)} {destination : Text → Option NodeId}

theorem childrenFrom_opening_eq_nil (beats : Beats args) (m : Margin) {q : Nat}
    (h : beats.leading ≤ q) : Draft.childrenFrom q 0 (beats.opening m) = [] := by
  cases beats with
  | nil => rfl
  | cons beat below rest =>
      rw [leading] at h
      exact childrenFrom_scope_eq_nil _ m 0 _ _ (.inr (by omega)) 0

theorem nodesFrom_opening (hdestination : ∀ name ≠ [], Draft.findScope? all name = destination name)
    (beats : Beats args) (m : Margin)
    (hchildren : ∀ q < beats.leading,
      Draft.childrenOf all q = Draft.childrenFrom q 0 (beats.opening m)) :
    Draft.nodesFrom all 0 (beats.opening m) = beats.untitled destination := by
  cases beats with
  | nil => rfl
  | cons beat below rest =>
      apply nodesFrom_scope hdestination
      intro q _ hlt
      exact hchildren q (by rw [leading]; omega)

end Opening

end Beats

namespace Draft

-- A statement is read as if what is without a header had its scope already.
theorem readLine_withScope (isGate : α → Bool) (d : Draft α) (document : Template α)
    (options : ParseOptions) (line : Nat) {raw : Text} {s : Statement} (hs : Statement.ofLine? options raw = some s)
    (hheader : ∀ name, s ≠ .header name) :
    d.readLine isGate document options line raw =
      (d.withScope line raw).readLine isGate document options line raw := by
  obtain ⟨spine, hspine⟩ := d.exists_spine_withScope line raw
  have htwice := withScope_of_spine hspine line raw
  rw [readLine_eq, readLine_eq, hs]
  cases s with
  | header name => exact absurd rfl (hheader name)
  | _ =>
      unfold readStatement
      rw [htwice]

theorem readLines_opening {m : Margin} {document : Template α} (hargs : document.args = args)
    (options : ParseOptions) (beats : Beats args) (howned : beats.Owned isGate) :
    ∃ d, Draft.readLines isGate document options .empty 0 (beats.lines m 0) = ([], .ok d) ∧
      d.entries.toList = beats.opening m ∧
      (d.indent = some ⟨m.blanks 1⟩ ∨ d.indent = none) ∧ (beats ≠ .nil → d.spine ≠ none) := by
  cases beats with
  | nil => exact ⟨.empty, rfl, rfl, .inr rfl, fun h => absurd rfl h⟩
  | cons beat below rest =>
      have hopened : ((Draft.empty : Draft α).withScope 0 (m.blanks 0 ++ beat.body)).Ready m 0 [] :=
        ⟨⟨_, rfl, rfl, .inl List.nil_suffix⟩, .inr ⟨rfl, Nat.zero_le 1⟩⟩
      obtain ⟨d, hlines, hentries, hready⟩ := hopened.readLines hargs options 0 (.cons beat below rest)
        howned
      obtain ⟨s, hs, -⟩ := hready.opens
      refine ⟨d, ?_, hentries, hready.indent.imp_right And.left, fun _ => by simp [hs]⟩
      have hfirst := readLine_withScope isGate .empty document options 0
        (ofLine?_beat m 0 beat options) beat.statement_ne_header
      rw [← hlines]
      simp only [List.length_nil, Beats.lines, Draft.readLines, hfirst]

end Draft

namespace Chapter

-- The scope of a chapter is found where it stands.
theorem findIdx?_entries (m : Margin) (id line : Nat) (chapters : List (Chapter args)) (name : Text) :
    ((entries m id line chapters).findIdx? (Entry.isNamed name)).map (id + ·) =
      (scopeIds id chapters).lookup name := by
  induction chapters generalizing id line with
  | nil => rfl
  | cons c rest ih =>
      rw [entries, scopeIds, List.findIdx?_cons, List.lookup_cons]
      by_cases hname : c.name.text = name
      · simp [Entry.isNamed, hname]
      · have hbeats : (c.beats.entries m 0 id (id + 1) (line + 1)).findIdx? (Entry.isNamed name) =
            none := by
          rw [List.findIdx?_eq_none_iff]
          intro e he
          refine eq_false_of_ne_true fun hnamed => ?_
          have hscope := Beats.isScope_of_mem_entries he
          rw [Entry.isNamed_eq_true_iff.1 hnamed] at hscope
          cases hscope
        have hlookup : (name == c.name.text) = false := beq_eq_false_iff_ne.2 (Ne.symm hname)
        rw [List.findIdx?_append, hbeats, Option.none_or, Beats.length_entries, hlookup]
        simp only [Entry.isNamed, hname, decide_false, Bool.false_eq_true, if_false, Option.map_map]
        rw [← ih (id + 1 + c.beats.size) (line + 1 + c.beats.size)]
        congr 1
        funext place
        simp only [Function.comp_apply]
        omega

theorem exists_of_mem_entries {m : Margin} {id line : Nat} {chapters : List (Chapter args)}
    {e : Entry α} (h : e ∈ entries m id line chapters) : ∃ c ∈ chapters, e.kind = .scope c.name.text ∨
      ∃ level parent id line, e ∈ c.beats.entries m level parent id line := by
  induction chapters generalizing id line with
  | nil => cases h
  | cons c rest ih =>
      rw [entries, List.mem_cons, List.mem_append] at h
      rcases h with rfl | hmem | hmem
      · exact ⟨c, List.mem_cons_self, .inl rfl⟩
      · exact ⟨c, List.mem_cons_self, .inr ⟨_, _, _, _, hmem⟩⟩
      · obtain ⟨other, hother, hcases⟩ := ih hmem
        exact ⟨other, List.mem_cons_of_mem _ hother, hcases⟩

theorem exists_lookup_scopeIds (id : Nat) {chapters : List (Chapter args)} {name : Text}
    (h : name ∈ chapters.map (·.name.text)) : ∃ place, (scopeIds id chapters).lookup name = some place := by
  induction chapters generalizing id with
  | nil => cases h
  | cons c rest ih =>
      rw [scopeIds, List.lookup_cons]
      by_cases hname : name = c.name.text
      · exact ⟨id, by rw [hname, BEq.rfl]⟩
      · rw [List.map_cons, List.mem_cons] at h
        rw [beq_eq_false_iff_ne.2 hname]
        exact ih _ (h.resolve_left hname)

end Chapter

namespace Outline

variable (o : Outline isGate args) (m : Margin)

-- What the parser adds for a story
def entries : List (Entry α) :=
  o.preamble.opening m ++ Chapter.entries m o.preamble.leading o.preamble.size o.chapters

theorem exists_readLines {document : Template α} (hargs : document.args = args)
    (options : ParseOptions) :
    ∃ d, Draft.readLines isGate document options .empty 0 (o.lines m) = ([], .ok d) ∧
      d.entries.toList = o.entries m ∧ d.spine ≠ none := by
  obtain ⟨d₁, hlines₁, hentries₁, hindent₁, hspine₁⟩ := Draft.readLines_opening (m := m) hargs options
    o.preamble (o.owned _ List.mem_cons_self)
  have hsize₁ : d₁.entries.size = o.preamble.leading := by
    rw [← Array.length_toList, hentries₁, Beats.length_opening]
  obtain ⟨d₂, hlines₂, hentries₂, hspine₂⟩ := Draft.readLines_chapters hargs options o.preamble.size
    o.chapters o.distinct (fun c hc => o.owned _ (List.mem_cons_of_mem _ (List.mem_map_of_mem hc)))
    hindent₁
    (fun c _ => Draft.hasScope_eq_false_iff.2 fun e he =>
      Beats.ne_scope_of_mem_opening (hentries₁ ▸ he) c.name.ne_nil)
    (o.present.imp_left hspine₁)
  refine ⟨d₂, ?_, by rw [hentries₂, hentries₁, hsize₁, entries], hspine₂⟩
  rw [lines, Draft.readLines_append, hlines₁]
  simp only [Beats.length_lines, Nat.zero_add, hlines₂, List.nil_append]

theorem findScope?_entries {entries : Array (Entry α)} (h : entries.toList = o.entries m) {name : Text}
    (hname : name ≠ []) : Draft.findScope? entries name = o.scopeId? name := by
  have hopening : (o.preamble.opening m).findIdx? (Entry.isNamed name) = none := by
    rw [List.findIdx?_eq_none_iff]
    intro e he
    refine eq_false_of_ne_true fun hnamed => ?_
    exact Beats.ne_scope_of_mem_opening he hname (Entry.isNamed_eq_true_iff.1 hnamed)
  have hfind : Draft.findScope? entries name = (o.entries m).findIdx? (Entry.isNamed name) := by
    rw [← h, ← List.findIdx?_toArray, Array.toArray_toList]
    rfl
  rw [hfind, Outline.entries, List.findIdx?_append, hopening, Option.none_or, Beats.length_opening,
    scopeId?, ← Chapter.findIdx?_entries m _ o.preamble.size]
  simp only [Nat.add_comm]

-- A go-to of the story leads to one of its chapters.
theorem exists_scopeId? {e : Entry α} (he : e ∈ o.entries m) {target : Text} {found : Option NodeId}
    (hkind : e.kind = .goTo target found) :
    target ≠ [] ∧ ∃ id, o.scopeId? target = some id := by
  have hnamed : target ≠ [] ∧ target ∈ o.chapters.map (·.name.text) := by
    rw [entries, List.mem_append] at he
    rcases he with hmem | hmem
    · have hbeats := o.declared _ List.mem_cons_self
      revert hmem hbeats
      cases o.preamble with
      | nil => exact fun hmem => by cases hmem
      | cons beat below rest =>
          intro hmem hbeats
          rw [Beats.opening, List.mem_cons] at hmem
          rcases hmem with rfl | hmem
          · cases hkind
          · obtain ⟨hname, htarget⟩ := Beats.mem_targets hmem hkind
            exact ⟨hname, hbeats target htarget⟩
    · obtain ⟨c, hc, hscope | ⟨level, parent, id, line, hmem⟩⟩ := Chapter.exists_of_mem_entries hmem
      · rw [hkind] at hscope
        cases hscope
      · obtain ⟨hname, htarget⟩ := Beats.mem_targets hmem hkind
        exact ⟨hname, o.declared _ (List.mem_cons_of_mem _ (List.mem_map_of_mem hc)) target htarget⟩
  exact ⟨hnamed.1, Chapter.exists_lookup_scopeIds _ hnamed.2⟩

theorem unknownScope?_entries {entries : Array (Entry α)} (h : entries.toList = o.entries m) :
    entries.toList.filterMap (Draft.unknownScope? entries) = [] := by
  rw [List.filterMap_eq_nil_iff]
  intro e he
  rw [h] at he
  unfold Draft.unknownScope?
  cases hkind : e.kind with
  | goTo target found =>
      obtain ⟨hname, id, hid⟩ := o.exists_scopeId? m he hkind
      dsimp only
      rw [o.findScope?_entries m h hname, hid]
      rfl
  | _ => rfl

theorem nodes_entries {d : Draft α} (h : d.entries.toList = o.entries m) : d.tree = o.tree := by
  have hdestination : ∀ name ≠ [], Draft.findScope? d.entries name = o.scopeId? name :=
    fun _ hname => o.findScope?_entries m h hname
  have hsplit : ∀ q, Draft.childrenOf d.entries q =
      Draft.childrenFrom q 0 (o.preamble.opening m) ++ Draft.childrenFrom q o.preamble.leading
        (Chapter.entries m o.preamble.leading o.preamble.size o.chapters) := by
    intro q
    rw [Draft.childrenOf_eq, h, entries, Draft.childrenFrom_append, Beats.length_opening, Nat.zero_add]
  have hopening : Draft.nodesFrom d.entries 0 (o.preamble.opening m) =
      o.preamble.untitled o.scopeId? := by
    apply Beats.nodesFrom_opening hdestination
    intro q hlt
    rw [hsplit q, Chapter.childrenFrom_eq_nil m o.chapters hlt, List.append_nil]
  have hchapters : Draft.nodesFrom d.entries o.preamble.leading
      (Chapter.entries m o.preamble.leading o.preamble.size o.chapters) =
        Chapter.nodes o.scopeId? o.preamble.leading o.preamble.size o.chapters := by
    apply Chapter.nodesFrom_entries hdestination
    intro q hle
    rw [hsplit q, o.preamble.childrenFrom_opening_eq_nil m hle, List.nil_append]
  have hnodes := d.nodes_tree
  rw [h, entries, Draft.nodesFrom_append, Beats.length_opening, Nat.zero_add, hopening, hchapters]
    at hnodes
  rw [tree, ← hnodes]
  rfl

theorem exists_of_mem_lines {raw : Text} (h : raw ∈ o.lines m) :
    (∃ (depth : Nat) (b : Beat args), raw = m.blanks depth ++ b.body) ∨ ∃ c : Chapter args, raw = c.header := by
  rw [lines, List.mem_append, List.mem_flatMap] at h
  rcases h with hmem | ⟨c, -, hmem⟩
  · exact .inl (Beats.exists_of_mem_lines hmem)
  · rcases List.mem_cons.1 hmem with rfl | hmem
    · exact .inr ⟨c, rfl⟩
    · exact .inl (Beats.exists_of_mem_lines hmem)

theorem scans_print : Template.Scans args.length (o.print m) := by
  apply Template.Scans.intercalate
  intro raw hraw
  rcases o.exists_of_mem_lines m hraw with ⟨depth, b, rfl⟩ | ⟨c, rfl⟩
  · exact (Template.Scans.of_plain (m.not_mem_blanks depth rfl) (m.not_mem_blanks depth rfl)).append
      b.scans_body
  · have hname : Template.Scans args.length c.name.text := .of_plain c.name.unbraced.1 c.name.unbraced.2
    exact ((Template.Scans.of_plain (by decide) (by decide)).append hname).append
      (.of_plain (by decide) (by decide))

theorem lines_print : Text.lines (o.print m) = o.lines m := by
  apply Text.lines_intercalate
  · intro hnil
    obtain ⟨hpreamble, hchapters⟩ := List.append_eq_nil_iff.1 hnil
    rcases o.present with hpresent | hpresent
    · revert hpreamble hpresent
      cases o.preamble with
      | nil => exact fun _ hpresent => hpresent rfl
      | cons beat below rest => exact fun hpreamble => by cases hpreamble
    · revert hchapters hpresent
      cases o.chapters with
      | nil => exact fun _ hpresent => hpresent rfl
      | cons c rest => exact fun hchapters => by cases hchapters
  · intro raw hraw
    rcases o.exists_of_mem_lines m hraw with ⟨depth, b, rfl⟩ | ⟨c, rfl⟩
    · exact List.not_mem_append (m.single_blanks depth) b.single_body
    · exact List.not_mem_append (List.not_mem_append (by decide) c.name.single) (by decide)

end Outline

-- What is printed is read back: the template is accepted, there is nothing to report, and
-- the tree is that of the story, for every margin and all options.
theorem parse_print (o : Outline isGate args) (m : Margin) (options : ParseOptions) :
    ∃ document, Template.ofFormat (o.print m) args = .ok document ∧
      parse isGate document options = ([], .ok o.tree) := by
  obtain ⟨document, hdocument, hformat, hargs⟩ := (o.scans_print m).exists_ofFormat
  obtain ⟨d, hlines, hentries, hspine⟩ := o.exists_readLines m hargs options
  obtain ⟨s, hs⟩ := Option.ne_none_iff_exists'.1 hspine
  have hclosed : d.closed = d := Draft.withScope_of_spine hs 0 []
  refine ⟨document, hdocument, parse_eq_ok_iff.2 ⟨[], d, ?_, ?_, ?_⟩⟩
  · rw [hformat, o.lines_print m, hlines]
  · rw [hclosed, o.unknownScope?_entries m hentries]
    rfl
  · rw [hclosed, o.nodes_entries m hentries]

-- A line that a gate can hide, an option below it, and a chapter that it leads to
theorem parse_print_gated :
    ∃ o : Outline (fun gate : Nat => gate == 7) [7],
      o.print ⟨true, 2, Nat.two_pos⟩ = "{0}\n\t\t> go\n\t\t\t\t-> S\n== S ==\n<-".toList ∧
      o.tree.nodes.size = 6 ∧
      ∃ document, Template.ofFormat (o.print ⟨true, 2, Nat.two_pos⟩) [7] = .ok document ∧
        parse (fun gate : Nat => gate == 7) document .default = ([], .ok o.tree) := by
  let name : ScopeName := ⟨['S'], by decide, by decide, by decide, by decide⟩
  let gate : Phrase [7] := ⟨"{0}".toList, [.hole ⟨['0'], [], ⟨0, none, none⟩⟩], by decide +kernel,
    by decide, by decide⟩
  let go : Phrase [7] := ⟨"go".toList, [.char 'g', .char 'o'], by decide +kernel, by decide, by decide⟩
  let preamble : Beats [7] :=
    .cons (.line gate ⟨by decide, by decide⟩) (.cons (.choice go) (.cons (.goTo name) .nil .nil) .nil) .nil
  let chapter : Chapter [7] := ⟨name, .cons .ret .nil .nil⟩
  let o : Outline (fun gate : Nat => gate == 7) [7] :=
    { preamble := preamble
      chapters := [chapter]
      present := .inr (List.cons_ne_nil _ _)
      distinct := List.nodup_singleton _
      owned := by
        intro beats hbeats
        rcases List.mem_cons.1 hbeats with rfl | hbeats
        · exact ⟨.inr rfl, ⟨.inr rfl, ⟨.inl rfl, trivial, trivial⟩, trivial⟩, trivial⟩
        · rw [List.mem_singleton.1 hbeats]
          exact ⟨.inl rfl, trivial, trivial⟩
      declared := by decide }
  exact ⟨o, by decide, by decide, parse_print o ⟨true, 2, Nat.two_pos⟩ .default⟩

end Narrative
