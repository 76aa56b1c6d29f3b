import Narrative.Proofs.Outline.Basic
import Narrative.Proofs.Script.Reading
import Narrative.Proofs.Template.Scanning
import Narrative.Proofs.Text.Trimming

namespace Narrative

variable {α : Type} {args : List α}

-- A text that does not begin with a mark is a line.
theorem Statement.ofBody_of_marks {t : Text} (h : ∀ mark ∈ Phrase.marks, ¬ mark <+: t) :
    ofBody t = line (Text.trimEnd t) := by
  have hmark : ∀ mark ∈ Phrase.marks, ∀ rest, t ≠ mark ++ rest :=
    fun mark hmem rest he => h mark hmem ⟨rest, he.symm⟩
  unfold ofBody
  split
  · next rest => exact absurd rfl (hmark "==".toList (by decide) rest)
  · next rest => exact absurd rfl (hmark "->".toList (by decide) rest)
  · next rest => exact absurd rfl (hmark "<".toList (by decide) ('-' :: rest))
  · next rest => exact absurd rfl (hmark ">".toList (by decide) rest)
  · next rest _ => exact absurd rfl (hmark "<".toList (by decide) rest)
  · next rest => exact absurd rfl (hmark "//".toList (by decide) rest)
  · rfl

namespace Beat

-- What the parser makes of it
def statement : Beat args → Statement
  | line shown _ => .line shown.text
  | choice label => .choice label.text
  | goTo target => .goTo target.text
  | ret => .ret []
  | closeChoice => .closeChoice []

theorem ofBody_body (b : Beat args) : Statement.ofBody b.body = b.statement := by
  cases b with
  | line shown h => rw [body, Statement.ofBody_of_marks h.2, Text.trimEnd_eq_self shown.trim_eq]; rfl
  | choice label =>
      have htrim : Text.trim (' ' :: label.text) = label.text :=
        (Text.trim_cons_of_blank rfl label.text).trans label.trim_eq
      exact congrArg Statement.choice htrim
  | goTo target =>
      have htrim : Text.trim (' ' :: target.text) = target.text :=
        (Text.trim_cons_of_blank rfl target.text).trans target.trim_eq
      exact congrArg Statement.goTo htrim
  | ret => rfl
  | closeChoice => rfl

theorem exists_body_eq_cons (b : Beat args) : ∃ c t, b.body = c :: t ∧ isBlank c = false := by
  cases b with
  | line shown h =>
      obtain ⟨c, t, ht⟩ := List.exists_cons_of_ne_nil h.1
      have htrim := shown.trim_eq
      rw [ht] at htrim
      exact ⟨c, t, ht, Text.isBlank_head htrim⟩
  | choice label => exact ⟨'>', ' ' :: label.text, rfl, rfl⟩
  | goTo target => exact ⟨'-', '>' :: ' ' :: target.text, rfl, rfl⟩
  | ret => exact ⟨'<', ['-'], rfl, rfl⟩
  | closeChoice => exact ⟨'<', [], rfl, rfl⟩

theorem scans_body (b : Beat args) : Template.Scans args.length b.body := by
  cases b with
  | line shown h => exact ⟨shown.items, shown.scan_eq⟩
  | choice label =>
      exact (Template.Scans.of_plain (by decide) (by decide)).append ⟨label.items, label.scan_eq⟩
  | goTo target =>
      exact (Template.Scans.of_plain (by decide) (by decide)).append
        (.of_plain target.unbraced.1 target.unbraced.2)
  | ret => exact .of_plain (by simp [body]) (by simp [body])
  | closeChoice => exact .of_plain (by simp [body]) (by simp [body])

theorem single_body (b : Beat args) : '\n' ∉ b.body := by
  cases b with
  | line shown h => exact shown.single
  | choice label => exact List.not_mem_append (by decide) label.single
  | goTo target => exact List.not_mem_append (by decide) target.single
  | ret => simp [body]
  | closeChoice => simp [body]

theorem faults_statement (b : Beat args) : b.statement.faults = [] := by
  cases b with
  | goTo target => exact if_neg target.ne_nil
  | _ => rfl

theorem statement_ne_header (b : Beat args) (name : Text) : b.statement ≠ .header name := by
  cases b <;> simp [statement]

theorem node?_statement {document : Template α} (h : document.args = args) (b : Beat args) :
    b.statement.node? document = .ok (some (b.kind fun _ => none)) := by
  subst h
  have hcompact : ∀ p : Phrase document.args, document.compactLine p.text = .ok p.template := by
    intro p
    rw [Template.compactLine, p.scan_eq]
    rfl
  cases b with
  | line shown h => simp only [statement, Statement.node?, hcompact]; rfl
  | choice label => simp only [statement, Statement.node?, hcompact]; rfl
  | goTo target => simp only [statement, Statement.node?, if_neg target.ne_nil]; rfl
  | ret => rfl
  | closeChoice => rfl

theorem isScope_kind (destination : Text → Option NodeId) (b : Beat args) :
    (b.kind destination).isScope = false := by
  cases b <;> rfl

theorem canOwn_kind (isGate : α → Bool) (destination : Text → Option NodeId) (b : Beat args) :
    (b.kind destination).canOwn isGate = b.owns isGate := by
  cases b with
  | line shown h =>
      rw [Bool.eq_iff_iff]
      simp only [kind, NodeKind.canOwn, owns, Template.hasGate, Phrase.template, Phrase.mentions,
        List.any_eq_true, List.mem_filterMap, Template.firstOccurrences, List.mem_eraseDups,
        Option.any_eq_true]
      constructor
      · rintro ⟨arg, ⟨index, hindex, harg⟩, hgate⟩
        exact ⟨index, hindex, arg, harg, hgate⟩
      · rintro ⟨index, hindex, arg, harg, hgate⟩
        exact ⟨arg, ⟨index, hindex, harg⟩, hgate⟩
  | _ => rfl

end Beat

namespace Margin

variable (m : Margin) (level : Nat)

theorem isBlank_blank : isBlank m.blank = true := by
  unfold blank
  split <;> rfl

theorem eq_blank_of_mem {c : Char} {level : Nat} (h : c ∈ m.blanks level) : c = m.blank :=
  List.eq_of_mem_replicate h

theorem isBlank_of_mem {c : Char} {level : Nat} (h : c ∈ m.blanks level) : isBlank c = true := by
  rw [m.eq_blank_of_mem h]
  exact m.isBlank_blank

theorem not_mem_blanks {c : Char} (h : isBlank c = false) : c ∉ m.blanks level := by
  intro hmem
  rw [m.isBlank_of_mem hmem] at h
  cases h

theorem single_blanks : '\n' ∉ m.blanks level := by
  intro hmem
  have hblank := m.eq_blank_of_mem hmem
  unfold blank at hblank
  split at hblank <;> cases hblank

theorem blanks_eq_nil_iff {level : Nat} : m.blanks level = [] ↔ level = 0 := by
  have hpos := m.pos
  rw [blanks, List.replicate_eq_nil_iff, Nat.mul_eq_zero]
  omega

theorem byteSize_blanks : Text.byteSize (m.blanks level) = level * m.width := by
  have hsize : ∀ n, Text.byteSize (List.replicate n m.blank) = n := by
    intro n
    induction n with
    | zero => rfl
    | succ n ih =>
        have hblank : m.blank.utf8Size = 1 := by
          unfold blank
          split <;> rfl
        rw [List.replicate_succ, Text.byteSize, ih, hblank]
        omega
  exact hsize _

theorem normalize_blanks : (⟨m.blanks 1⟩ : Indent).normalize (m.blanks level) = m.blanks level := by
  have htabs : (⟨m.blanks 1⟩ : Indent).usesTabs = m.tabs := by
    have hpos := m.pos
    rw [Indent.usesTabs, blanks, List.contains_replicate, blank]
    cases m.tabs with
    | true => simp; omega
    | false => simp
  have hfold : ∀ n, Indent.foldFours (List.replicate n '\t') = List.replicate n '\t' := by
    intro n
    induction n with
    | zero => rfl
    | succ n ih => rw [List.replicate_succ, Indent.foldFours, ih]; simp
  rw [Indent.normalize, htabs, blanks, blank]
  cases m.tabs with
  | true => simp [hfold]
  | false => simp [List.flatMap_replicate]

theorem measure_blanks :
    (⟨m.blanks 1⟩ : Indent).measure (m.blanks level) = ⟨level, false, true⟩ := by
  have hpos := m.pos
  rw [Indent.measure, normalize_blanks, byteSize_blanks, byteSize_blanks, Nat.one_mul,
    Nat.mul_div_cancel _ hpos, Nat.mul_mod_left]
  simp

end Margin

section Lines

variable (m : Margin) (level : Nat) (b : Beat args) (c : Chapter args) (options : ParseOptions)

theorem leadingBlanks_beat : Text.leadingBlanks (m.blanks level ++ b.body) = m.blanks level := by
  obtain ⟨first, rest, hbody, hblank⟩ := b.exists_body_eq_cons
  rw [hbody, Text.leadingBlanks_append rest (fun _ => m.isBlank_of_mem) hblank]

theorem ofLine?_beat :
    Statement.ofLine? options (m.blanks level ++ b.body) = some b.statement := by
  have hstatement := b.ofBody_body
  obtain ⟨first, rest, hbody, hblank⟩ := b.exists_body_eq_cons
  rw [hbody] at hstatement ⊢
  rw [Statement.ofLine?, Text.allBlank_append rest hblank, if_neg Bool.false_ne_true,
    Text.trimStart_append rest (fun _ => m.isBlank_of_mem) hblank, hstatement]
  cases b <;> rfl

theorem Chapter.headerName_eq : Statement.headerName (' ' :: (c.name.text ++ " ==".toList)) = c.name.text := by
  obtain ⟨first, rest, hname⟩ := List.exists_cons_of_ne_nil c.name.ne_nil
  have htrim := c.name.trim_eq
  have hend : Text.trimEnd c.name.text = c.name.text := Text.trimEnd_eq_self htrim
  -- from the end: the equals signs go, the blank before them stays and is trimmed later
  have hsigns : ' ' :: (c.name.text ++ " ==".toList) = ' ' :: c.name.text ++ [' '] ++ ['='] ++ ['='] := by
    simp
  have hblank : Text.trimEnd (c.name.text ++ [' ']) = c.name.text := by
    rw [Text.trimEnd, Text.dropEndWhile_append_singleton, if_pos (by decide)]
    exact hend
  have hstart : Text.trimStart (c.name.text ++ [' ']) = c.name.text ++ [' '] := by
    rw [hname] at htrim ⊢
    show Text.trimStart ([] ++ first :: (rest ++ [' '])) = first :: (rest ++ [' '])
    exact Text.trimStart_append _ (List.forall_mem_nil _) (Text.isBlank_head htrim)
  rw [Statement.headerName, List.dropWhile_cons_of_neg (by decide), hsigns, Text.trimEnd,
    Text.dropEndWhile_append_singleton, if_neg (by decide), Text.dropEndWhile_append_singleton,
    if_pos (by decide), Text.dropEndWhile_append_singleton, if_pos (by decide),
    Text.dropEndWhile_append_singleton, if_neg (by decide), List.cons_append,
    Text.trim_cons_of_blank rfl, Text.trim, hstart, hblank]

theorem leadingBlanks_header : Text.leadingBlanks c.header = [] := by
  show Text.leadingBlanks ([] ++ '=' :: ('=' :: ' ' :: (c.name.text ++ " ==".toList))) = []
  exact Text.leadingBlanks_append _ (List.forall_mem_nil _) rfl

theorem ofLine?_header : Statement.ofLine? options c.header = some (.header c.name.text) := by
  have hbody : c.header = [] ++ '=' :: ('=' :: ' ' :: (c.name.text ++ " ==".toList)) := rfl
  have hstatement : Statement.ofBody ('=' :: ('=' :: ' ' :: (c.name.text ++ " ==".toList))) =
      .header c.name.text :=
    congrArg Statement.header c.headerName_eq
  rw [Statement.ofLine?, hbody, Text.allBlank_append _ rfl, if_neg Bool.false_ne_true,
    Text.trimStart_append _ (by simp) rfl, hstatement]

end Lines

end Narrative
