import Narrative.Proofs.Script.WellFormed

namespace Narrative

variable {α : Type} {isGate : α → Bool} {document : Template α} {options : ParseOptions}

namespace Draft

-- Every node is kept with the number and the text of its line.
def Quotes (lines : List Text) (entries : Array (Entry α)) : Prop :=
  ∀ (id : Nat) (e : Entry α), entries[id]? = some e → lines[e.line]? = some e.raw

namespace Quotes

variable {lines : List Text} {entries : Array (Entry α)}

theorem push (h : Quotes lines entries) {e : Entry α} (he : lines[e.line]? = some e.raw) :
    Quotes lines (entries.push e) := by
  intro id o ho
  rw [Array.getElem?_push] at ho
  by_cases hid : id = entries.size
  · rw [if_pos hid] at ho
    have heo : e = o := Option.some.inj ho
    rwa [← heo]
  · rw [if_neg hid] at ho
    exact h id o ho

-- Lines that follow leave the numbers of those before.
theorem next (h : Quotes lines entries) (raw : Text) : Quotes (lines ++ [raw]) entries := by
  intro id e he
  have hline := h id e he
  have hlt : e.line < lines.length := (List.getElem?_eq_some_iff.1 hline).1
  rw [List.getElem?_append_left hlt, hline]

theorem withScope {d : Draft α} {line : Nat} {raw : Text} (h : Quotes lines d.entries)
    (hline : lines[line]? = some raw) : Quotes lines (d.withScope line raw).entries := by
  unfold Draft.withScope
  split
  · exact h.push hline
  · exact h

end Quotes

theorem Reads.quotes {lines : List Text} {raw : Text} {d d' : Draft α} {issues : List Issue}
    (h : Reads isGate document options lines.length raw d issues d') (hd : Quotes lines d.entries) :
    Quotes (lines ++ [raw]) d'.entries := by
  have hbefore := hd.next raw
  have hline : (lines ++ [raw])[lines.length]? = some raw := by simp
  have hscope := hbefore.withScope hline
  cases h with
  | silent => exact hbefore
  | nameless => rwa [entries_measured]
  | opened name =>
      apply Quotes.push _ hline
      rwa [entries_measured]
  | unplaced s => rwa [entries_measured]
  | placed s kind spine =>
      apply Quotes.push _ hline
      rwa [entries_measured]

theorem quotes_of_readLines {lines : List Text} {d : Draft α} {issues : List Issue}
    (h : readLines isGate document options .empty 0 lines = (issues, .ok d)) :
    Quotes lines d.entries :=
  readLines_induction isGate document options (P := fun lines _ d => Quotes lines d.entries)
    (by simp [Quotes, empty]) (fun _ _ _ _ _ _ hd hreads => hreads.quotes hd) h

-- Closing a story adds a scope at most.
theorem getElem?_of_closed {d : Draft α} {id : Nat} {e : Entry α}
    (he : d.closed.entries[id]? = some e) (hkind : e.kind.isScope = false) :
    d.entries[id]? = some e := by
  unfold closed Draft.withScope at he
  split at he
  · have hpush : (d.entries.push ⟨.scope [], 0, [], none⟩)[id]? = some e := he
    rw [Array.getElem?_push] at hpush
    by_cases hid : id = d.entries.size
    · rw [if_pos hid] at hpush
      have hscope := Option.some.inj hpush
      rw [← hscope] at hkind
      cases hkind
    · rwa [if_neg hid] at hpush
  · exact he

end Draft

-- A go-to that leads nowhere has been reported, with the line that it stands on.
theorem mem_issues_of_unresolved {issues : List Issue} {tree : Tree α}
    (h : parse isGate document options = (issues, .ok tree)) {id : NodeId} {node : Node α}
    (hnode : tree.get? id = some node) {target : Text} (hkind : node.kind = .goTo target none) :
    ∃ raw, (Text.lines document.format)[node.line]? = some raw ∧
      Issue.ofFault node.line raw (.unknownScope target) ∈ issues := by
  obtain ⟨found, d, hd, rfl, rfl⟩ := parse_eq_ok_iff.1 h
  obtain ⟨e, he, rfl⟩ := Draft.get?_tree_eq_some_iff.1 hnode
  obtain ⟨⟨written, hgoTo⟩, hfind⟩ := Draft.resolve_eq_goTo_iff.1 hkind
  have hentry := Draft.getElem?_of_closed he (by rw [hgoTo]; rfl)
  have hquoted := Draft.quotes_of_readLines hd id e hentry
  have hunknown : Draft.unknownScope? d.closed.entries e =
      some (.ofFault e.line e.raw (.unknownScope target)) := by
    simp only [Draft.unknownScope?, hgoTo, ← hfind, Option.isNone_none, if_true]
  have hmem : e ∈ d.closed.entries.toList := by
    rw [Array.mem_toList_iff]
    exact Array.mem_of_getElem? he
  exact ⟨e.raw, hquoted, List.mem_append_right _ (List.mem_filterMap.2 ⟨e, hmem, hunknown⟩)⟩

end Narrative
