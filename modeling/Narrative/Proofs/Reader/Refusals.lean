import Narrative.Proofs.Reader.Moves
import Narrative.Proofs.Script.Targets

namespace Narrative

variable {α κ σ : Type}

-- A go-to of the tree that leads nowhere
def Tree.Unresolved (tree : Tree α) (target : Text) (line : Nat) : Prop :=
  ∃ id node, tree.get? id = some node ∧ node.line = line ∧ node.kind = .goTo target none

-- What a call is refused for
def Command.refusal? (host : Host α κ σ) (tree : Tree α) :
    Command κ σ → Reader κ × σ → Option ReaderError
  | advance moves, (r, s) =>
    match r.advance host tree moves s with
    | some (.refused e, _) => some e
    | _ => none
  | choose index, (r, _) =>
    match r.choose index with
    | .error e => some e
    | .ok _ => none
  | reset, _ | context _, _ | gates _, _ => none

namespace Reader

-- All that a reader is refused for while one call follows the other, up to one that does
-- not come back
def refusals (host : Host α κ σ) (tree : Tree α) :
    List (Command κ σ) → Reader κ × σ → List ReaderError
  | [], _ => []
  | c :: commands, x =>
    (c.refusal? host tree x).toList ++
      match c.run host tree x with
      | some y => refusals host tree commands y
      | none => []

variable {host : Host α κ σ} {tree : Tree α} {r r' : Reader κ} {s s' : σ} {target : Text} {line : Nat}

theorem emitted_ne_refused {id : NodeId} {shown : Template α} {now now' : Shown} {e : ReaderError} :
    emitted host id shown now ≠ (some (.refused e), now') := by
  intro h
  rcases cases_of_emitted h with ⟨_, hp, -⟩ | ⟨hp, -⟩ | ⟨-, -, -, hp, -⟩ <;> cases hp

-- A step goes on, shows something or ends the session, unless it has come to a go-to that
-- leads nowhere.
theorem Steps.unresolved_of_refused
    (h : Steps host tree r s (some (.refused (.unresolvedGoTo target line))) r' s') :
    tree.Unresolved target line := by
  cases h with
  | passed _ _ _ hemitted => exact absurd hemitted emitted_ne_refused
  | @unresolved _ _ id child _ h hkind => exact ⟨id, child, h.get?_eq, rfl, hkind⟩

theorem unresolved_of_run {moves : Nat}
    (h : run host tree moves r s = some (.refused (.unresolvedGoTo target line), r', s')) :
    tree.Unresolved target line := by
  have hpause : ∀ {r r' : Reader κ} {s s' : σ} {p : Pause}, True →
      Steps host tree r s (some p) r' s' → p = .refused (.unresolvedGoTo target line) →
      tree.Unresolved target line := by
    rintro r r' s s' p - hstep rfl
    exact hstep.unresolved_of_refused
  exact run_induction host tree (P := fun _ _ => True)
    (Q := fun p _ _ => p = .refused (.unresolvedGoTo target line) → tree.Unresolved target line)
    (fun _ _ => trivial) hpause trivial h rfl

theorem unresolved_of_advance {moves : Nat}
    (h : r.advance host tree moves s = some (.refused (.unresolvedGoTo target line), r', s')) :
    tree.Unresolved target line := by
  rcases advance_cases h with ⟨-, hp, -⟩ | ⟨-, hrun⟩
  · simp at hp
  · exact unresolved_of_run hrun

theorem choose_ne_unresolved {index : Nat} : r.choose index ≠ .error (.unresolvedGoTo target line) := by
  unfold choose
  split
  · split <;> simp
  · simp

theorem unresolved_of_refusal? {c : Command κ σ} {x : Reader κ × σ}
    (h : c.refusal? host tree x = some (.unresolvedGoTo target line)) :
    tree.Unresolved target line := by
  obtain ⟨r, s⟩ := x
  cases c with
  | advance moves =>
      simp only [Command.refusal?] at h
      split at h
      · next e y hadvance =>
        obtain rfl := Option.some.inj h
        exact unresolved_of_advance hadvance
      · simp at h
  | choose index =>
      simp only [Command.refusal?] at h
      split at h
      · next e hchoose =>
        obtain rfl := Option.some.inj h
        exact absurd hchoose choose_ne_unresolved
      · simp at h
  | reset | context now | gates change => simp [Command.refusal?] at h

theorem unresolved_of_mem_refusals {commands : List (Command κ σ)} {x : Reader κ × σ}
    (h : .unresolvedGoTo target line ∈ refusals host tree commands x) :
    tree.Unresolved target line := by
  induction commands generalizing x with
  | nil => simp [refusals] at h
  | cons c commands ih =>
      rw [refusals, List.mem_append] at h
      rcases h with hfirst | hrest
      · rw [Option.mem_toList] at hfirst
        exact unresolved_of_refusal? hfirst
      · split at hrest
        · exact ih hrest
        · simp at hrest

-- No reader of a story, whatever is asked of it and whatever its gates answer, comes to a
-- go-to that leads nowhere without a report of it: the parse has named its line and its
-- target. A story that is read without such a report never refuses to go on for that reason.
theorem refusals_are_reported {isGate : α → Bool} {document : Template α} {options : ParseOptions}
    {issues : List Issue} {tree : Tree α} (h : parse isGate document options = (issues, .ok tree))
    (host : Host α κ σ) (context : κ) (s : σ) (commands : List (Command κ σ)) :
    (∀ target line, .unresolvedGoTo target line ∈ refusals host tree commands (.ofTree tree context, s) →
      ∃ raw, (Text.lines document.format)[line]? = some raw ∧
        Issue.ofFault line raw (.unknownScope target) ∈ issues) ∧
    ((∀ issue ∈ issues, issue.kind ≠ .unknownScope) → ∀ target line,
      .unresolvedGoTo target line ∉ refusals host tree commands (.ofTree tree context, s)) := by
  have hreported : ∀ target line,
      .unresolvedGoTo target line ∈ refusals host tree commands (.ofTree tree context, s) →
      ∃ raw, (Text.lines document.format)[line]? = some raw ∧
        Issue.ofFault line raw (.unknownScope target) ∈ issues := by
    intro target line hmem
    obtain ⟨id, node, hnode, rfl, hkind⟩ := unresolved_of_mem_refusals hmem
    exact mem_issues_of_unresolved h hnode hkind
  refine ⟨hreported, ?_⟩
  intro hclean target line hmem
  obtain ⟨raw, -, hissue⟩ := hreported target line hmem
  exact hclean _ hissue rfl

-- A go-to below an option that is chosen, in a scope that is called
theorem refusals_are_reported_below_option :
    let host : Host Nat Unit Unit := ⟨fun _ _ => .ok [], fun _ => false, fun _ _ _ s => (true, s)⟩
    let commands : List (Command Unit Unit) := [.advance 9, .choose 1, .choose 0, .advance 9, .reset]
    ∃ (tree : Tree Nat) (issues : List Issue),
      parse (fun _ => false) ⟨"-> S\n== S\n> a\n\t-> T".toList, [], []⟩ .default = (issues, .ok tree) ∧
      refusals host tree commands (.ofTree tree (), ()) =
        [.choiceOutOfRange 1 1, .unresolvedGoTo ['T'] 3] ∧
      ∃ raw, (Text.lines "-> S\n== S\n> a\n\t-> T".toList)[3]? = some raw ∧
        Issue.ofFault 3 raw (.unknownScope ['T']) ∈ issues := by
  intro host commands
  let tree : Tree Nat := ⟨#[⟨0, .scope [], 0, [1]⟩, ⟨1, .goTo ['S'] (some 2), 0, []⟩,
    ⟨2, .scope ['S'], 1, [3]⟩, ⟨3, .choice ⟨['a'], [], [.literal ['a']]⟩, 2, [4]⟩,
    ⟨4, .goTo ['T'] none, 3, []⟩], 0⟩
  have h : parse (fun _ => false) ⟨"-> S\n== S\n> a\n\t-> T".toList, [], []⟩ .default =
      ([.ofFault 3 "\t-> T".toList (.unknownScope ['T'])], .ok tree) := by
    decide +kernel
  have hrefusals : refusals host tree commands (.ofTree tree (), ()) =
      [.choiceOutOfRange 1 1, .unresolvedGoTo ['T'] 3] := by
    decide +kernel
  refine ⟨tree, _, h, hrefusals, (refusals_are_reported h host () () commands).1 _ _ ?_⟩
  rw [hrefusals]
  simp

end Reader

end Narrative
