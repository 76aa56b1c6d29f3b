import Narrative.Proofs.Script.Placement

namespace Narrative

namespace Indent

def fourSpaces : Text := [' ', ' ', ' ', ' ']

theorem not_prefix_of_foldFours {c : Char} {t : Text}
    (h : ∀ u, c = ' ' → t = ' ' :: ' ' :: ' ' :: u → False) : ¬ fourSpaces <+: c :: t := by
  rintro ⟨u, he⟩
  obtain ⟨hc, ht⟩ := List.cons.inj he
  exact h u hc.symm ht.symm

-- Nothing is folded where no four spaces stand together.
theorem foldFours_eq_self {t : Text} (h : ¬ fourSpaces <:+: t) : foldFours t = t := by
  fun_induction foldFours t with
  | case1 t ih => exact absurd ⟨[], t, rfl⟩ h
  | case2 c t hnot ih =>
      rw [List.infix_cons_iff, not_or] at h
      rw [ih h.2]
  | case3 => rfl

-- Four spaces are four bytes, and the tab that they are folded into is one.
theorem byteSize_fourSpaces_append (t : Text) :
    Text.byteSize (' ' :: ' ' :: ' ' :: ' ' :: t) = 4 + Text.byteSize t := by
  rw [show ' ' :: ' ' :: ' ' :: ' ' :: t = fourSpaces ++ t from rfl, Text.byteSize_append]
  rfl

theorem byteSize_tab_cons (t : Text) : Text.byteSize ('\t' :: t) = 1 + Text.byteSize t := rfl

theorem byteSize_foldFours_le (t : Text) : Text.byteSize (foldFours t) ≤ Text.byteSize t := by
  fun_induction foldFours t with
  | case1 t ih =>
      rw [byteSize_tab_cons, byteSize_fourSpaces_append]
      omega
  | case2 c t hnot ih => exact Nat.add_le_add_left ih c.utf8Size
  | case3 => exact Nat.le_refl 0

theorem byteSize_foldFours_lt {t : Text} (h : fourSpaces <:+: t) :
    Text.byteSize (foldFours t) < Text.byteSize t := by
  fun_induction foldFours t with
  | case1 t ih =>
      have hle := byteSize_foldFours_le t
      rw [byteSize_tab_cons, byteSize_fourSpaces_append]
      omega
  | case2 c t hnot ih =>
      rcases List.infix_cons_iff.1 h with hfront | hrest
      · exact absurd hfront (not_prefix_of_foldFours hnot)
      · exact Nat.add_lt_add_left (ih hrest) c.utf8Size
  | case3 => exact absurd (List.eq_nil_of_infix_nil h) (List.cons_ne_nil _ _)

-- Spaces and tabs are of one size.
theorem byteSize_map_tab (t : Text) :
    Text.byteSize (t.map fun c => if c = ' ' then '\t' else c) = Text.byteSize t := by
  induction t with
  | nil => rfl
  | cons c t ih =>
      rw [List.map_cons, Text.byteSize, Text.byteSize, ih]
      by_cases hc : c = ' '
      · rw [if_pos hc, hc]
        rfl
      · rw [if_neg hc]

-- Blanks keep their size where there is nothing to fold.
theorem byteSize_normalize_iff {i : Indent} {blanks : Text} (htab : '\t' ∈ blanks → '\t' ∈ i.unit) :
    Text.byteSize (i.normalize blanks) = Text.byteSize blanks ↔
      ('\t' ∈ i.unit → ¬ fourSpaces <:+: blanks) := by
  unfold normalize usesTabs
  by_cases hunit : '\t' ∈ i.unit
  · rw [if_pos (List.contains_iff_mem.2 hunit), byteSize_map_tab]
    constructor
    · intro hsize _ hfour
      exact (byteSize_foldFours_lt hfour).ne hsize
    · intro h
      rw [foldFours_eq_self (h hunit)]
  · have hplain : blanks.flatMap (fun c => if c = '\t' then i.unit else [c]) = blanks := by
      rw [List.flatMap_congr fun c hc => if_neg (ne_of_mem_of_not_mem hc (mt htab hunit)),
        List.flatMap_singleton']
    rw [if_neg (by simpa using hunit), hplain]
    exact iff_of_true rfl fun h => absurd h hunit

end Indent

-- So many of a text, one behind the other
def Text.times (n : Nat) (t : Text) : Text := (List.replicate n t).flatten

theorem Text.byteSize_times (n : Nat) (t : Text) : byteSize (times n t) = n * byteSize t := by
  induction n with
  | zero => rw [Nat.zero_mul]; rfl
  | succ n ih =>
      rw [times, List.replicate_succ, List.flatten_cons, byteSize_append, ← times, ih, Nat.succ_mul,
        Nat.add_comm]

theorem Text.mem_of_mem_times {n : Nat} {t : Text} {c : Char} (h : c ∈ times n t) : c ∈ t := by
  obtain ⟨part, hpart, hc⟩ := List.mem_flatten.1 h
  rwa [List.eq_of_mem_replicate hpart] at hc

theorem Text.times_ne_nil {n : Nat} {t : Text} (hn : 1 ≤ n) (ht : t ≠ []) : times n t ≠ [] := by
  obtain ⟨m, rfl⟩ := Nat.exists_eq_add_of_le' hn
  rw [times, List.replicate_succ, List.flatten_cons]
  exact List.append_ne_nil_of_left_ne_nil ht _

theorem Text.byteSize_pos {t : Text} (h : t ≠ []) : 0 < byteSize t := by
  obtain ⟨c, rest, rfl⟩ := List.exists_cons_of_ne_nil h
  exact Nat.add_pos_left c.utf8Size_pos _

namespace Indent

-- So many units are so many units deep as long as a unit with a tab has no four spaces that
-- are folded, neither in itself nor where two of it meet.
theorem measure_times_iff {i : Indent} (hunit : i.unit ≠ []) (n : Nat) :
    (i.measure (Text.times n i.unit)).depth = n ∧ (i.measure (Text.times n i.unit)).whole = true ↔
      ('\t' ∈ i.unit → ¬ fourSpaces <:+: Text.times n i.unit) := by
  have hpos := Text.byteSize_pos hunit
  rw [← byteSize_normalize_iff Text.mem_of_mem_times, Text.byteSize_times]
  unfold measure
  simp only [decide_eq_true_eq]
  constructor
  · rintro ⟨hdepth, hwhole⟩
    have hmul := Nat.div_mul_cancel (Nat.dvd_of_mod_eq_zero hwhole)
    rw [hdepth] at hmul
    exact hmul.symm
  · intro hsize
    rw [hsize]
    exact ⟨Nat.mul_div_cancel n hpos, Nat.mul_mod_left n _⟩

end Indent

-- Whether an issue says that a line is indented by no whole number of units
def Issue.isPartialUnit (issue : Issue) : Bool :=
  issue.kind = .unexpectedIndentation ∧ issue.message = Fault.partialUnit.message

theorem Fault.message_tooDeep_ne (depth height : Nat) :
    (tooDeep depth height).message ≠ partialUnit.message := by
  have hfront : ∀ a b c e f : Text, a <+: a ++ b ++ c ++ e ++ f := by
    intro a b c e f
    exact ⟨b ++ c ++ e ++ f, by simp only [List.append_assoc]⟩
  have htooDeep : "indented ".toList <+: (tooDeep depth height).message := hfront _ _ _ _ _
  have hpartial : ¬ "indented ".toList <+: partialUnit.message := by decide
  intro he
  exact hpartial (he ▸ htooDeep)

theorem Fault.eq_partialUnit {fault : Fault} (hkind : fault.kind = .unexpectedIndentation)
    (hmessage : fault.message = partialUnit.message) : fault = .partialUnit := by
  cases fault with
  | partialUnit => rfl
  | tooDeep depth height => exact absurd hmessage (message_tooDeep_ne depth height)
  | indentedHeader | cannotOwn => exact absurd hmessage (by decide)
  | _ => cases hkind

theorem Issue.isPartialUnit_ofFault {line : Nat} {raw : Text} {fault : Fault} :
    (ofFault line raw fault).isPartialUnit = true ↔ fault = .partialUnit := by
  rw [isPartialUnit, decide_eq_true_eq]
  constructor
  · exact fun h => Fault.eq_partialUnit h.1 h.2
  · rintro rfl
    exact ⟨rfl, rfl⟩

theorem Measure.partialUnit_mem_faults {m : Measure} {height : Nat} :
    .partialUnit ∈ m.faults height ↔ m.whole = false := by
  unfold faults
  cases m.whole with
  | false => simp
  | true => simp

variable {α : Type} {isGate : α → Bool} {document : Template α} {options : ParseOptions}

namespace Draft

variable {before after : List Text} {raw : Text} {s : Statement} {d : Draft α}

theorem partialUnit_not_mem_faults (s : Statement) : .partialUnit ∉ s.faults := by
  intro hmem
  rcases Statement.kind_of_mem_faults hmem with he | he <;> cases he

theorem partialUnit_mem_headerFaults {name : Text} :
    .partialUnit ∈ d.headerFaults name raw ↔ (d.measureOf raw).whole = false := by
  rw [headerFaults, List.mem_append, List.mem_append, Measure.partialUnit_mem_faults,
    or_iff_left (partialUnit_not_mem_faults _), or_iff_left]
  simp

theorem partialUnit_mem_nodeFaults {spine : Spine} :
    .partialUnit ∈ d.nodeFaults spine s raw ↔ (d.measureOf raw).whole = false := by
  rw [nodeFaults, List.mem_append, List.mem_append, Measure.partialUnit_mem_faults,
    or_iff_left (partialUnit_not_mem_faults s), or_iff_left]
  simp

-- A line that says something is measured, whatever it says and also when it stops the
-- reading.
theorem exists_faults_of_ofLine? (d : Draft α) (line : Nat) (hs : Statement.ofLine? options raw = some s) :
    ∃ faults : List Fault,
      (d.readLine isGate document options line raw).1 = faults.map (.ofFault line raw) ∧
      (.partialUnit ∈ faults ↔ (d.measureOf raw).whole = false) := by
  by_cases hheader : ∃ name, s = .header name
  · obtain ⟨name, rfl⟩ := hheader
    refine ⟨d.headerFaults name raw, ?_, partialUnit_mem_headerFaults⟩
    rw [readLine_eq, hs]
    simp only [readHeader_eq]
  · obtain ⟨spine, hspine⟩ := d.exists_spine_withScope line raw
    rw [readLine_eq_readStatement isGate document options line raw d hs (not_exists.1 hheader),
      readStatement_eq isGate document line raw d s hspine, ← measureOf_withScope d line raw raw]
    rcases s.node? document with e | _ | kind
    · exact ⟨_, rfl, Measure.partialUnit_mem_faults⟩
    · refine ⟨_, rfl, ?_⟩
      rw [List.mem_append, or_iff_left (partialUnit_not_mem_faults s), Measure.partialUnit_mem_faults]
    · exact ⟨_, rfl, partialUnit_mem_nodeFaults⟩

theorem exists_isPartialUnit_iff (d : Draft α) (line : Nat) (hs : Statement.ofLine? options raw = some s) :
    (∃ issue ∈ (d.readLine isGate document options line raw).1, issue.isPartialUnit = true) ↔
      (d.measureOf raw).whole = false := by
  obtain ⟨faults, hissues, hfaults⟩ := exists_faults_of_ofLine? d line hs
  rw [hissues, ← hfaults]
  simp only [List.mem_map, exists_exists_and_eq_and, Issue.isPartialUnit_ofFault, exists_eq_right]

-- What is reported on a line is what reading it reports.
theorem exists_parse_line_iff {p : Issue → Bool} (hp : ∀ issue, issue.kind = .unknownScope → p issue = false)
    {earlier : List Issue} (hlines : Text.lines document.format = before ++ raw :: after)
    (hbefore : readLines isGate document options .empty 0 before = (earlier, .ok d)) :
    (∃ issue ∈ (parse isGate document options).1, issue.line = before.length ∧ p issue = true) ↔
      ∃ issue ∈ (d.readLine isGate document options before.length raw).1, p issue = true := by
  have hline : ∀ issue : Issue, issue.kind = .unknownScope →
      decide (issue.line = before.length ∧ p issue = true) = false := by
    intro issue hkind
    simp [hp issue hkind]
  have hcount := countP_parse isGate document options hline
  rw [hlines, countP_readLines isGate document options p hbefore] at hcount
  rw [← List.countP_pos_iff, ← hcount, List.countP_pos_iff]
  simp only [decide_eq_true_eq]

-- Nothing is reported on lines behind the one that stops the reading.
theorem line_lt_of_mem_parse {e : ParseError} {earlier : List Issue}
    (hlines : Text.lines document.format = before ++ raw :: after)
    (hbefore : readLines isGate document options .empty 0 before = (earlier, .error e)) {issue : Issue}
    (hmem : issue ∈ (parse isGate document options).1) : issue.line < before.length := by
  have hall : (parse isGate document options).1 = earlier := by
    rw [parse, hlines, readLines_append, hbefore]
  have hissue : issue ∈ (readLines isGate document options .empty 0 before).1 := by
    rwa [hbefore, ← hall]
  have hlt := (line_of_mem_readLines isGate document options hissue).2
  rwa [Nat.zero_add] at hlt

end Draft

-- A line that is indented by so many units is that many units deep, and is not reported as no
-- whole number of them, as long as a unit with a tab has no four spaces, neither in itself
-- nor where two of it meet. The unit is taken as it is written, but what is measured has its
-- four spaces folded first: such a line is reported or is less deep, and the one that fixes
-- the unit may be such a line.
theorem parse_nests_repeated_unit (isGate : α → Bool) (document : Template α) (options : ParseOptions)
    {before after : List Text} {raw unit : Text} {n : Nat}
    (hlines : Text.lines document.format = before ++ raw :: after)
    (hunit : Indent.ofLines? options (Text.lines document.format) = some ⟨unit⟩) (hn : 1 ≤ n)
    (hraw : Text.leadingBlanks raw = Text.times n unit) :
    let reported := ∃ issue ∈ (parse isGate document options).1,
      issue.line = before.length ∧ issue.isPartialUnit = true
    let unfolded := '\t' ∈ unit → ¬ Indent.fourSpaces <:+: Text.times n unit
    (unfolded → ¬ reported) ∧
      ∀ (earlier : List Issue) (d : Draft α) (s : Statement),
        Draft.readLines isGate document options .empty 0 before = (earlier, .ok d) →
        Statement.ofLine? options raw = some s →
        ((d.measure (Text.leadingBlanks raw)).1.depth = n ∧ ¬ reported ↔ unfolded) := by
  intro reported unfolded
  have hne : unit ≠ [] := Indent.unit_ne_nil_of_ofLines? hunit
  have hblanks : Text.leadingBlanks raw ≠ [] := by
    rw [hraw]
    exact Text.times_ne_nil hn hne
  have hkind : ∀ issue : Issue, issue.kind = .unknownScope → issue.isPartialUnit = false := by
    intro issue he
    simp [Issue.isPartialUnit, he]
  rw [hlines] at hunit
  have hmeasured : ∀ (earlier : List Issue) (d : Draft α) (s : Statement),
      Draft.readLines isGate document options .empty 0 before = (earlier, .ok d) →
      Statement.ofLine? options raw = some s →
      ((d.measureOf raw).depth = n ∧ ¬ reported ↔ unfolded) := by
    intro earlier d s hbefore hs
    have hreported : reported ↔ (d.measureOf raw).whole = false :=
      (Draft.exists_parse_line_iff hkind hlines hbefore).trans
        (Draft.exists_isPartialUnit_iff d before.length hs)
    rw [hreported, Bool.not_eq_false, Draft.measureOf_eq raw (Draft.indent_eq_ofLines? hbefore),
      if_neg hblanks, Indent.behind_eq hunit hs hblanks, hraw]
    exact Indent.measure_times_iff hne n
  refine ⟨?_, hmeasured⟩
  intro hunfolded
  rcases hbefore : Draft.readLines isGate document options .empty 0 before with ⟨earlier, e | d⟩
  · rintro ⟨issue, hmem, hline, -⟩
    exact (Draft.line_lt_of_mem_parse hlines hbefore hmem).ne hline
  · cases hs : Statement.ofLine? options raw with
    | some s => exact ((hmeasured earlier d s hbefore hs).2 hunfolded).2
    | none =>
        intro hreported
        obtain ⟨issue, hmem, -⟩ := (Draft.exists_parse_line_iff hkind hlines hbefore).1 hreported
        rw [Draft.readLine_eq, hs] at hmem
        cases hmem

-- A unit of a tab and two spaces nests twice.
theorem parse_nests_tab_and_spaces_twice :
    ∃ (document : Template Nat) (d : Draft Nat),
      document.format = "> a\n\t  > b\n\t  \t  c".toList ∧
      (d.measure (Text.leadingBlanks "\t  \t  c".toList)).1.depth = 2 ∧
      ¬ ∃ issue ∈ (parse (fun _ => false) document .default).1,
        issue.line = 2 ∧ issue.isPartialUnit = true := by
  have hlines : Text.lines "> a\n\t  > b\n\t  \t  c".toList =
      ["> a".toList, "\t  > b".toList] ++ "\t  \t  c".toList :: [] := by decide
  have hbefore : Draft.readLines (fun _ => false) ⟨"> a\n\t  > b\n\t  \t  c".toList, ([] : List Nat), []⟩
      .default .empty 0 ["> a".toList, "\t  > b".toList] =
      ([.ofFault 1 "\t  > b".toList .mixedIndentation], .ok ⟨#[⟨.scope [], 0, "> a".toList, none⟩,
        ⟨.choice ⟨['a'], [], [.literal ['a']]⟩, 0, "> a".toList, some 0⟩,
        ⟨.choice ⟨['b'], [], [.literal ['b']]⟩, 1, "\t  > b".toList, some 1⟩],
        some ⟨"\t  ".toList⟩, some ⟨0, [1], some (2, true)⟩⟩) := by
    decide +kernel
  have hunit : Indent.ofLines? .default (Text.lines "> a\n\t  > b\n\t  \t  c".toList) =
      some ⟨"\t  ".toList⟩ := by
    decide +kernel
  have hraw : Text.leadingBlanks "\t  \t  c".toList = Text.times 2 "\t  ".toList := by decide
  have hnests := parse_nests_repeated_unit (fun _ => false)
    ⟨"> a\n\t  > b\n\t  \t  c".toList, ([] : List Nat), []⟩ .default hlines hunit (by decide) hraw
  obtain ⟨hdepth, hreported⟩ := (hnests.2 _ _ (.line ['c']) hbefore (by decide)).2 (by decide)
  exact ⟨_, _, rfl, hdepth, hreported⟩

-- The line that fixes the unit, a tab and four spaces, is reported as no whole number of it.
-- It counts as not indented: what it says is not below the choice but beside it.
theorem parse_misses_repeated_unit :
    ∃ (document : Template Nat) (tree : Tree Nat), document.format = "> a\n\t    b".toList ∧
      Indent.ofLines? .default (Text.lines document.format) = some ⟨"\t    ".toList⟩ ∧
      Text.leadingBlanks "\t    b".toList = Text.times 1 "\t    ".toList ∧
      parse (fun _ => false) document .default =
        ([.ofFault 1 "\t    b".toList .mixedIndentation, .ofFault 1 "\t    b".toList .partialUnit],
          .ok tree) ∧
      tree.children 0 = [1, 2] ∧ tree.children 1 = [] := by
  refine ⟨⟨"> a\n\t    b".toList, [], []⟩, ⟨#[⟨0, .scope [], 0, [1, 2]⟩,
    ⟨1, .choice ⟨['a'], [], [.literal ['a']]⟩, 0, []⟩,
    ⟨2, .line ⟨['b'], [], [.literal ['b']]⟩, 1, []⟩], 0⟩, rfl, ?_⟩
  decide +kernel

end Narrative
