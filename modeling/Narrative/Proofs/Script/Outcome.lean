import Narrative.Proofs.Script.Headers
import Narrative.Proofs.Script.Placement
import Narrative.Proofs.Template.Cutting

namespace Narrative

variable {α : Type} {isGate : α → Bool}

namespace Statement

open Template (Scans)

-- What a statement has to show, which is made into a template of its own
def content? : Statement → Option Text
  | choice label => some label
  | comment note => some note
  | line shown => some shown
  | _ => none

-- What is cut out of a line that scans scans too.
theorem scans_content {count : Nat} {body content : Text} (h : Scans count body)
    (hcontent : (ofBody body).content? = some content) : Scans count content := by
  unfold ofBody at hcontent
  split at hcontent <;> cases hcontent
  · next rest => exact (h.tail (by decide) (by decide)).trim
  · next rest => exact ((h.tail (by decide) (by decide)).tail (by decide) (by decide)).trim
  · exact h.trimEnd

theorem eq_ofBody_of_ofLine? {options : ParseOptions} {raw : Text} {s : Statement}
    (h : ofLine? options raw = some s) : s = ofBody (Text.trimStart raw) := by
  unfold ofLine? at h
  split at h
  · cases h
  · split at h
    · next hbody =>
      split at h
      · rw [hbody]
        exact (Option.some.inj h).symm
      · cases h
    · exact (Option.some.inj h).symm

theorem exists_node? {document : Template α} {s : Statement}
    (h : ∀ content, s.content? = some content → Scans document.args.length content) :
    ∃ kind, s.node? document = .ok kind := by
  cases s with
  | choice content | comment content | line content =>
      obtain ⟨compacted, hcompact, -⟩ := (h content rfl).compactLine
      exact ⟨_, by rw [node?, hcompact]; rfl⟩
  | _ => exact ⟨_, rfl⟩

end Statement

namespace Draft

open Template (Scans)

variable {document : Template α} {options : ParseOptions}

theorem scans_of_ofLine? {raw content : Text} {s : Statement} {count : Nat} (h : Scans count raw)
    (hs : Statement.ofLine? options raw = some s) (hcontent : s.content? = some content) :
    Scans count content := by
  obtain rfl := Statement.eq_ofBody_of_ofLine? hs
  exact Statement.scans_content h.trimStart hcontent

-- A line is read if it scans and its header, if it is one, has a new name.
theorem exists_reads (isGate : α → Bool) (options : ParseOptions) (d : Draft α) (line : Nat) {raw : Text}
    (hraw : Scans document.args.length raw)
    (hnew : ∀ name, Statement.headerName? raw = some name → d.hasScope name = false) :
    ∃ issues d', Reads isGate document options line raw d issues d' := by
  cases hs : Statement.ofLine? options raw with
  | none => exact ⟨_, _, .silent hs⟩
  | some s =>
      obtain ⟨kind, hnode⟩ := Statement.exists_node? fun content => scans_of_ofLine? hraw hs
      obtain ⟨spine, hspine⟩ := exists_spine_withScope d line raw
      by_cases hheader : ∃ name, s = .header name
      · obtain ⟨name, rfl⟩ := hheader
        by_cases hname : name = []
        · subst hname
          exact ⟨_, _, .nameless hs⟩
        · have hfree := hnew name ((Statement.headerName?_eq_some_iff options).2 ⟨hs, hname⟩)
          exact ⟨_, _, .opened name hs hname hfree⟩
      · cases kind with
        | none => exact ⟨_, _, .unplaced s hs (not_exists.1 hheader) hnode⟩
        | some kind => exact ⟨_, _, .placed s kind spine hs hnode hspine⟩

theorem exists_readLines (isGate : α → Bool) (options : ParseOptions) {lines : List Text}
    (hlines : ∀ raw ∈ lines, Scans document.args.length raw)
    (hdistinct : (Statement.headerNames lines).Nodup) :
    ∃ issues d, readLines isGate document options .empty 0 lines = (issues, .ok d) := by
  induction lines using List.reverseRecOn with
  | nil => exact ⟨_, _, rfl⟩
  | append_singleton lines raw ih =>
      obtain ⟨hbefore, hnew⟩ := Statement.nodup_headerNames_append.1 hdistinct
      rw [List.forall_mem_append, List.forall_mem_singleton] at hlines
      obtain ⟨earlier, d, hd⟩ := ih hlines.1 hbefore
      have hcollects := collects_of_readLines hd
      have hfree : ∀ name, Statement.headerName? raw = some name → d.hasScope name = false := by
        intro name hraw
        have hname := ((Statement.headerName?_eq_some_iff options).1 hraw).2
        rw [← Bool.not_eq_true, hcollects.hasScope_iff hname]
        exact hnew name hraw
      obtain ⟨found, d', hreads⟩ := exists_reads isGate options d lines.length hlines.2 hfree
      have hline := (readLine_eq_ok_iff isGate document options lines.length raw d found d').2 hreads
      rw [← Nat.zero_add lines.length] at hline
      exact ⟨_, _, readLines_of_readLine isGate document options hd hline []⟩

-- A header of a name that is taken stops the reading, with its faults told.
theorem readLines_of_firstRepeat {before : List Text} {raw name : Text} (after : List Text)
    (hrepeat : FirstRepeat before raw name) {found : List Issue} {d : Draft α}
    (hbefore : readLines isGate document options .empty 0 before = (found, .ok d)) :
    readLines isGate document options .empty 0 (before ++ raw :: after) =
      (found ++ (d.headerFaults name raw).map (.ofFault before.length raw),
        .error (.duplicateScope name before.length)) := by
  obtain ⟨hs, hname⟩ := (Statement.headerName?_eq_some_iff options).1 hrepeat.header
  have htaken := ((collects_of_readLines hbefore).hasScope_iff hname).2 hrepeat.taken
  have hline : d.readLine isGate document options before.length raw =
      ((d.headerFaults name raw).map (.ofFault before.length raw),
        .error (.duplicateScope name before.length)) := by
    simp only [readLine_eq, hs, readHeader_eq, if_neg hname, htaken, if_true]
  rw [readLines_append, hbefore]
  simp only [readLines, Nat.zero_add, hline]

-- The unit that the blanks of a line are divided by, and the nodes that are looked up to
-- hang one more below them
structure Grounded (d : Draft α) : Prop where
  unit_pos : ∀ {indent : Indent}, d.indent = some indent → 0 < Text.byteSize indent.unit
  parent_lt : ∀ {s : Spine}, d.spine = some s → ∀ depth, (s.openAt depth).parent < d.entries.size
  last_lt : ∀ {s : Spine} {id : NodeId} {owns : Bool}, d.spine = some s → s.last = some (id, owns) →
    id < d.entries.size

theorem Sound.grounded {d : Draft α} (h : Sound isGate d)
    (hindent : ∀ {indent : Indent}, d.indent = some indent → indent.unit ≠ []) : Grounded d where
  unit_pos := by
    intro indent hi
    obtain ⟨c, t, hunit⟩ := List.exists_cons_of_ne_nil (hindent hi)
    rw [hunit, Text.byteSize]
    exact Nat.add_pos_left c.utf8Size_pos _
  parent_lt := by
    intro s hs depth
    obtain ⟨o, ho, -⟩ := (h.tracks hs).canOwn_parent h.nested depth
    exact (Array.getElem?_eq_some_iff.1 ho).1
  last_lt := by
    intro s id owns hs hlast
    obtain ⟨e, he, -⟩ := (h.tracks hs).owns hlast
    exact (Array.getElem?_eq_some_iff.1 he).1

theorem unit_ne_nil_of_readLines {lines : List Text} {found : List Issue} {d : Draft α}
    (h : readLines isGate document options .empty 0 lines = (found, .ok d)) (raw : Text)
    {indent : Indent} (hi : (d.measured raw).indent = some indent) : indent.unit ≠ [] := by
  rw [indent_measured, indent_eq_ofLines? h, Option.or_eq_some_iff] at hi
  rcases hi with hunit | ⟨-, hblanks⟩
  · exact Indent.unit_ne_nil_of_ofLines? hunit
  · split at hblanks
    · cases hblanks
    · next hne =>
      obtain rfl := Option.some.inj hblanks
      exact hne

end Draft

-- Whatever the reading of the next line does can be done: there are nodes to hang it under
-- and a unit to divide by, and what it shows is made into a template that scans.
structure Draft.Handles (document : Template α) (options : ParseOptions) (line : Nat) (raw : Text)
    (d : Draft α) : Prop where
  grounded_measured : (d.measured raw).Grounded
  grounded_withScope : ((d.withScope line raw).measured raw).Grounded
  exists_spine : ∃ spine, ((d.withScope line raw).measured raw).spine = some spine
  compacts : ∀ s content, Statement.ofLine? options raw = some s → s.content? = some content →
    ∃ compacted, document.compactLine content = .ok compacted ∧
      Template.ofFormat compacted.format compacted.args = .ok compacted

theorem Draft.handles_of_readLines {document : Template α} {options : ParseOptions} {before : List Text}
    {raw : Text} {found : List Issue} {d : Draft α} (hraw : Template.Scans document.args.length raw)
    (h : Draft.readLines isGate document options .empty 0 before = (found, .ok d)) :
    d.Handles document options before.length raw where
  grounded_measured := ((sound_of_readLines h).measured raw).grounded (unit_ne_nil_of_readLines h raw)
  grounded_withScope := by
    apply (((sound_of_readLines h).withScope before.length raw).measured raw).grounded
    intro indent hi
    rw [indent_measured, indent_withScope, ← indent_measured] at hi
    exact unit_ne_nil_of_readLines h raw hi
  exists_spine := by
    obtain ⟨spine, hspine⟩ := exists_spine_withScope d before.length raw
    exact ⟨spine, by rw [spine_measured, hspine]⟩
  compacts := fun _ _ hs hcontent => (scans_of_ofLine? hraw hs hcontent).compactLine

-- How a story is refused: by the first header of a name that is taken. What was found before
-- it and what is wrong with its blanks has been told.
inductive Refused (isGate : α → Bool) (document : Template α) (options : ParseOptions) :
    List Issue → ParseError → Prop
  | repeated {before after : List Text} {raw name : Text} {found : List Issue} {d : Draft α}
      (hlines : Text.lines document.format = before ++ raw :: after)
      (hrepeat : FirstRepeat before raw name)
      (hbefore : Draft.readLines isGate document options .empty 0 before = (found, .ok d))
      (hfaults : ∀ fault ∈ d.headerFaults name raw,
        fault.kind = .mixedIndentation ∨ fault.kind = .unexpectedIndentation) :
      Refused isGate document options
        (found ++ (d.headerFaults name raw).map (.ofFault before.length raw))
        (.duplicateScope name before.length)

namespace Refused

variable {document : Template α} {options : ParseOptions} {issues : List Issue} {e : ParseError}

theorem parse_eq (h : Refused isGate document options issues e) :
    parse isGate document options = (issues, .error e) := by
  cases h with
  | repeated hlines hrepeat hbefore =>
      rw [parse, hlines, Draft.readLines_of_firstRepeat _ hrepeat hbefore]

theorem exists_of_not_nodup (isGate : α → Bool) (options : ParseOptions)
    (hscans : Template.Scans document.args.length document.format)
    (h : ¬ (Statement.headerNames (Text.lines document.format)).Nodup) :
    ∃ issues e, Refused isGate document options issues e := by
  obtain ⟨before, raw, after, name, hlines, hrepeat⟩ := exists_firstRepeat h
  have hbefore : ∀ line ∈ before, Template.Scans document.args.length line := fun line hmem =>
    hscans.lines line (by rw [hlines]; exact List.mem_append_left _ hmem)
  obtain ⟨found, d, hd⟩ := Draft.exists_readLines isGate options hbefore hrepeat.distinct
  have hname := ((Statement.headerName?_eq_some_iff options).1 hrepeat.header).2
  refine ⟨_, _, .repeated hlines hrepeat hd fun fault hmem => ?_⟩
  rcases Draft.kind_of_mem_headerFaults hmem with he | he | ⟨hnil, -⟩
  · exact .inl he
  · exact .inr he
  · exact absurd hnil hname

theorem kind_ne_unknownScope (h : Refused isGate document options issues e) :
    ∀ issue ∈ issues, issue.kind ≠ .unknownScope := by
  cases h with
  | @repeated before after raw name found d hlines hrepeat hbefore hfaults =>
      intro issue hmem
      rcases List.mem_append.1 hmem with hfound | hheader
      · have hm : issue ∈ (Draft.readLines isGate document options .empty 0 before).1 := by rwa [hbefore]
        obtain ⟨i, line, fault, -, rfl, hkind⟩ := Draft.fault_of_mem_readLines isGate document options hm
        exact hkind
      · obtain ⟨fault, hfault, rfl⟩ := List.mem_map.1 hheader
        rcases hfaults fault hfault with he | he <;> simp [Issue.ofFault, he]

end Refused

-- A story is refused for nothing but a name that two headers have, at the first header whose
-- name an earlier one has, and before any go-to is looked at. No line that is come to can
-- stop the reading in another way.
theorem parse_refuses_repeated_names (isGate : α → Bool) {document : Template α} (h : document.Built)
    (options : ParseOptions) :
    ((∃ issues tree, parse isGate document options = (issues, .ok tree)) ↔
      (Statement.headerNames (Text.lines document.format)).Nodup) ∧
    (∀ issues e, parse isGate document options = (issues, .error e) ↔
      Refused isGate document options issues e) ∧
    (∀ issues e, parse isGate document options = (issues, .error e) →
      ∀ issue ∈ issues, issue.kind ≠ .unknownScope) ∧
    ∀ before raw after found d, Text.lines document.format = before ++ raw :: after →
      Draft.readLines isGate document options .empty 0 before = (found, .ok d) →
        d.Handles document options before.length raw := by
  have hok : (∃ issues tree, parse isGate document options = (issues, .ok tree)) ↔
      (Statement.headerNames (Text.lines document.format)).Nodup := by
    constructor
    · rintro ⟨issues, tree, hparse⟩
      obtain ⟨found, d, hd, -⟩ := parse_eq_ok_iff.1 hparse
      exact (Draft.collects_of_readLines hd).distinct
    · intro hdistinct
      obtain ⟨found, d, hd⟩ := Draft.exists_readLines isGate options h.scans.lines hdistinct
      exact ⟨_, _, parse_eq_ok_iff.2 ⟨found, d, hd, rfl, rfl⟩⟩
  have herror : ∀ issues e, parse isGate document options = (issues, .error e) ↔
      Refused isGate document options issues e := by
    refine fun issues e => ⟨fun hparse => ?_, Refused.parse_eq⟩
    have hnot : ¬ (Statement.headerNames (Text.lines document.format)).Nodup := by
      intro hdistinct
      obtain ⟨found, tree, hread⟩ := hok.2 hdistinct
      rw [hparse] at hread
      cases hread
    obtain ⟨issues', e', hrefused⟩ := Refused.exists_of_not_nodup isGate options h.scans hnot
    have he := hrefused.parse_eq
    rw [hparse] at he
    cases he
    exact hrefused
  refine ⟨hok, herror, fun issues e hparse => ((herror issues e).1 hparse).kind_ne_unknownScope, ?_⟩
  intro before raw after found d hlines hd
  exact Draft.handles_of_readLines (h.scans.lines raw (by rw [hlines]; simp)) hd

-- A placeholder that is told twice, blanks of both sorts, a go-to that leads nowhere, and an
-- indented header of a name that is taken
theorem parse_refuses_second_header :
    let document : Template Nat := ⟨"> \x7b1,4\x7d \x7b\x7b \x7b1\x7d\n\t\x7b0\x7d\n    -> B\n== A ==\n\t== A".toList,
      [7, 8], [.literal ['>', ' '], .placeholder ⟨1, some 4, none⟩, .literal [' ', '{', ' '],
        .placeholder ⟨1, none, none⟩, .literal ['\n', '\t'], .placeholder ⟨0, none, none⟩,
        .literal "\n    -> B\n== A ==\n\t== A".toList]⟩
    document.Built ∧
      Refused (fun _ => false) document .default
        [.ofFault 2 "    -> B".toList .mixedIndentation, .ofFault 4 "\t== A".toList .indentedHeader]
        (.duplicateScope ['A'] 4) := by
  intro document
  have hformat : Template.ofFormat document.format document.args = .ok document := by decide +kernel
  have hbuilt : document.Built := .format hformat
  refine ⟨hbuilt, ((parse_refuses_repeated_names _ hbuilt .default).2.1 _ _).1 ?_⟩
  decide +kernel

end Narrative
