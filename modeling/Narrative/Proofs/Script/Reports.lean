import Narrative.Proofs.Script.Placement

namespace Narrative

variable {α : Type} {isGate : α → Bool} {document : Template α} {options : ParseOptions}

def IssueKind.isToken : IssueKind → Bool
  | tokenEmpty | tokenNonEmpty => true
  | _ => false

-- What is wrong with the indentation of one line: that its blanks are mixed, and that it is
-- not where it should be, each told once at most
structure Fault.Indented (faults : List Fault) : Prop where
  kind_eq : ∀ fault ∈ faults, fault.kind = .mixedIndentation ∨ fault.kind = .unexpectedIndentation
  mixed_le : faults.countP (·.kind = .mixedIndentation) ≤ 1
  unexpected_le : faults.countP Fault.isIndentation ≤ 1

theorem Measure.countP_mixed (m : Measure) (height : Nat) :
    (m.faults height).countP (·.kind = .mixedIndentation) = if m.mixed then 1 else 0 := by
  have hunits : (if !m.whole then [Fault.partialUnit]
      else if height < m.depth then [Fault.tooDeep m.depth height] else []).countP
        (·.kind = .mixedIndentation) = 0 := by
    split
    · rfl
    · split <;> rfl
  rw [faults, List.countP_append, hunits]
  cases m.mixed <;> rfl

-- A line that its measure is to blame for is not blamed again.
theorem Measure.indented_append (m : Measure) (height : Nat) (more : List Fault)
    (hkind : ∀ fault ∈ more, fault.kind = .unexpectedIndentation)
    (hmore : more.length ≤ if m.blamed height then 0 else 1) :
    Fault.Indented (m.faults height ++ more) where
  kind_eq := by
    intro fault hmem
    rcases List.mem_append.1 hmem with hmeasure | hmem
    · exact kind_of_mem_faults hmeasure
    · exact .inr (hkind fault hmem)
  mixed_le := by
    have hnone : more.countP (·.kind = .mixedIndentation) = 0 := by
      rw [List.countP_eq_zero]
      intro fault hmem
      simp [hkind fault hmem]
    rw [List.countP_append, countP_mixed, hnone]
    split <;> omega
  unexpected_le := by
    have hle := List.countP_le_length (p := Fault.isIndentation) (l := more)
    rw [List.countP_append, countP_faults]
    split at hmore
    · next hblamed =>
      rw [if_pos hblamed]
      omega
    · next hblamed =>
      rw [if_neg hblamed]
      omega

theorem Statement.length_faults_le (s : Statement) : s.faults.length ≤ 1 := by
  cases s with
  | header content | goTo content | ret content | closeChoice content =>
      rw [faults]
      split <;> simp
  | choice content | comment content | line content => exact Nat.zero_le 1

namespace Draft

-- The issues of a line that says something are about its indentation and about what it says.
theorem Reads.exists_indented {line : Nat} {raw : Text} {d d' : Draft α} {issues : List Issue}
    (h : Reads isGate document options line raw d issues d') {s : Statement}
    (hs : Statement.ofLine? options raw = some s) :
    ∃ indentation, Fault.Indented indentation ∧
      issues.Perm ((indentation ++ s.faults).map (.ofFault line raw)) := by
  have heq : ∀ {other : Statement}, Statement.ofLine? options raw = some other → other = s :=
    fun ho => Option.some.inj (ho.symm.trans hs)
  have hheader : ∀ name, Statement.header name = s → ∃ indentation, Fault.Indented indentation ∧
      d.headerFaults name raw = indentation ++ s.faults := by
    rintro name rfl
    refine ⟨_, (d.measureOf raw).indented_append d.height _ ?_ ?_, rfl⟩
    · simp only [List.mem_ite_nil_right, List.mem_singleton]
      rintro fault ⟨-, rfl⟩
      rfl
    · cases (d.measureOf raw).blamed d.height with
      | true => simp
      | false =>
          split
          · exact Nat.le_refl 1
          · exact Nat.zero_le 1
  cases h with
  | silent hnone =>
      rw [hs] at hnone
      cases hnone
  | nameless ho =>
      obtain ⟨indentation, hindented, hfaults⟩ := hheader [] (heq ho)
      exact ⟨indentation, hindented, by rw [hfaults]⟩
  | opened name ho =>
      obtain ⟨indentation, hindented, hfaults⟩ := hheader name (heq ho)
      exact ⟨indentation, hindented, by rw [hfaults]⟩
  | unplaced other ho =>
      obtain rfl := heq ho
      have hindented := ((d.withScope line raw).measureOf raw).indented_append
        (d.withScope line raw).height [] (by simp) (by simp)
      rw [List.append_nil] at hindented
      exact ⟨_, hindented, .refl _⟩
  | placed other kind spine ho =>
      obtain rfl := heq ho
      refine ⟨_, ((d.withScope line raw).measureOf raw).indented_append
        (d.withScope line raw).height (if spine.fits ((d.withScope line raw).depthOf raw) ||
          ((d.withScope line raw).measureOf raw).blamed (d.withScope line raw).height then []
          else [.cannotOwn]) ?_ ?_, ?_⟩
      · simp only [List.mem_ite_nil_left, List.mem_singleton]
        rintro fault ⟨-, rfl⟩
        rfl
      · cases ((d.withScope line raw).measureOf raw).blamed (d.withScope line raw).height with
        | true => simp
        | false =>
            split
            · exact Nat.zero_le 1
            · exact Nat.le_refl 1
      · rw [nodeFaults, List.append_assoc, List.append_assoc]
        exact (List.Perm.append_left _ List.perm_append_comm).map _

-- Each line is reported for each of these once at most.
structure Sparing (issues : List Issue) : Prop where
  mixed_le : issues.countP (·.kind = .mixedIndentation) ≤ 1
  unexpected_le : issues.countP Issue.isIndentation ≤ 1
  token_le : issues.countP (·.kind.isToken) ≤ 1

theorem Reads.sparing {line : Nat} {raw : Text} {d d' : Draft α} {issues : List Issue}
    (h : Reads isGate document options line raw d issues d') : Sparing issues := by
  cases hs : Statement.ofLine? options raw with
  | none =>
      obtain rfl : issues = [] := by
        cases h with
        | silent => rfl
        | nameless ho | opened _ ho | unplaced _ ho | placed _ _ _ ho =>
            rw [hs] at ho
            cases ho
      exact ⟨Nat.zero_le 1, Nat.zero_le 1, Nat.zero_le 1⟩
  | some s =>
      obtain ⟨indentation, hindented, hperm⟩ := h.exists_indented hs
      have hmixed : s.faults.countP (·.kind = .mixedIndentation) = 0 := by
        rw [List.countP_eq_zero]
        intro fault hmem
        rcases Statement.kind_of_mem_faults hmem with he | he <;> simp [he]
      have htoken : indentation.countP (·.kind.isToken) = 0 := by
        rw [List.countP_eq_zero]
        intro fault hmem
        rcases hindented.kind_eq fault hmem with he | he <;> simp [he, IssueKind.isToken]
      refine ⟨?_, ?_, ?_⟩
      · rw [hperm.countP_eq, List.countP_map, List.countP_append]
        have hle := hindented.mixed_le
        exact hmixed ▸ hle
      · rw [hperm.countP_eq, List.countP_map, List.countP_append]
        have hle := hindented.unexpected_le
        exact s.countP_faults ▸ hle
      · rw [hperm.countP_eq, List.countP_map, List.countP_append]
        have hle := List.countP_le_length (p := fun fault : Fault => fault.kind.isToken)
          (l := s.faults) |>.trans s.length_faults_le
        rw [← Nat.zero_add (s.faults.countP _), ← htoken] at hle
        exact hle

-- The issues with the number of a line are those that were found when it was read.
theorem exists_reads_of_readLines {lines : List Text} {found : List Issue} {d : Draft α}
    (h : readLines isGate document options .empty 0 lines = (found, .ok d)) {line : Nat} {raw : Text}
    (hraw : lines[line]? = some raw) :
    ∃ before issues after, Reads isGate document options line raw before issues after ∧
      ∀ p : Issue → Bool,
        found.countP (fun issue => issue.line = line ∧ p issue) = issues.countP p := by
  obtain ⟨front, back, rfl, rfl⟩ : ∃ front back, lines = front ++ raw :: back ∧ line = front.length := by
    obtain ⟨hlt, rfl⟩ := List.getElem?_eq_some_iff.1 hraw
    refine ⟨lines.take line, lines.drop (line + 1), ?_, (List.length_take_of_le hlt.le).symm⟩
    rw [← List.drop_eq_getElem_cons hlt, List.take_append_drop]
  obtain ⟨earlier, before, issues, after, hbefore, hline⟩ :=
    exists_readLine_of_readLines isGate document options h
  rw [Nat.zero_add] at hline
  have hfound : (readLines isGate document options .empty 0 (front ++ raw :: back)).1 = found :=
    congrArg Prod.fst h
  refine ⟨before, issues, after, (readLine_eq_ok_iff ..).1 hline, fun p => ?_⟩
  rw [← hfound, countP_readLines isGate document options p hbefore, hline]

-- What is reported is a fault of a line that is there.
theorem exists_fault_of_readLines {lines : List Text} {found : List Issue} {d : Draft α}
    (h : readLines isGate document options .empty 0 lines = (found, .ok d)) {issue : Issue}
    (hmem : issue ∈ found) :
    ∃ raw fault, lines[issue.line]? = some raw ∧ issue = .ofFault issue.line raw fault ∧
      fault.kind ≠ .unknownScope := by
  obtain ⟨i, raw, fault, hraw, he, hkind⟩ :=
    fault_of_mem_readLines isGate document options (by rwa [h])
  rw [Nat.zero_add] at he
  subst he
  exact ⟨raw, fault, hraw, rfl, hkind⟩

theorem sparing_of_readLines {lines : List Text} {found : List Issue} {d : Draft α}
    (h : readLines isGate document options .empty 0 lines = (found, .ok d)) (line : Nat) :
    Sparing (found.filter fun issue => issue.line = line) := by
  cases hraw : lines[line]? with
  | some raw =>
      obtain ⟨before, issues, after, hreads, hcount⟩ := exists_reads_of_readLines h hraw
      have hfilter : ∀ p : Issue → Bool,
          (found.filter fun issue => issue.line = line).countP p = issues.countP p := by
        intro p
        rw [List.countP_filter, ← hcount]
        refine List.countP_congr fun issue _ => ?_
        simp only [Bool.and_eq_true, decide_eq_true_eq, and_comm]
      obtain ⟨hmixed, hunexpected, htoken⟩ := hreads.sparing
      exact ⟨hfilter _ ▸ hmixed, hfilter _ ▸ hunexpected, hfilter _ ▸ htoken⟩
  | none =>
      -- there is no such line
      have hnone : (found.filter fun issue => issue.line = line) = [] := by
        rw [List.filter_eq_nil_iff]
        intro issue hmem
        obtain ⟨raw, -, hline, -⟩ := exists_fault_of_readLines h hmem
        rw [decide_eq_true_eq]
        rintro rfl
        rw [hraw] at hline
        cases hline
      rw [hnone]
      exact ⟨Nat.zero_le 1, Nat.zero_le 1, Nat.zero_le 1⟩

-- Lines are read in their order, and so are their issues reported.
theorem pairwise_line_of_readLines {lines : List Text} {found : List Issue} {d : Draft α}
    (h : readLines isGate document options .empty 0 lines = (found, .ok d)) :
    found.Pairwise fun a b => a.line ≤ b.line := by
  have hall := readLines_induction isGate document options
    (P := fun lines found _ => (found.Pairwise fun a b => a.line ≤ b.line) ∧
      ∀ issue ∈ found, issue.line < lines.length) ?_ ?_ h
  · exact hall.1
  · exact ⟨.nil, by simp⟩
  · rintro before earlier issues raw d d' ⟨hsorted, hbound⟩ hreads
    have hline : ∀ issue ∈ issues, issue.line = before.length := by
      have hread := (readLine_eq_ok_iff ..).2 hreads
      intro issue hmem
      obtain ⟨fault, rfl, -⟩ := fault_of_mem_readLine isGate document options before.length raw d
        (by rwa [hread])
      rfl
    rw [List.length_append, List.length_singleton]
    refine ⟨List.pairwise_append.2 ⟨hsorted, ?_, ?_⟩, ?_⟩
    · exact List.pairwise_of_forall_mem_list fun a ha b hb => by rw [hline a ha, hline b hb]
    · intro a ha b hb
      rw [hline b hb]
      exact (hbound a ha).le
    · intro issue hmem
      rcases List.mem_append.1 hmem with hmem | hmem
      · exact Nat.lt_succ_of_lt (hbound issue hmem)
      · rw [hline issue hmem]
        exact Nat.lt_succ_self _

end Draft

end Narrative
