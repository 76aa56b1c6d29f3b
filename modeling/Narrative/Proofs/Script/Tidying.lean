import Narrative.Proofs.Script.Lines
import Narrative.Proofs.Script.Sections

namespace Narrative

namespace Text

-- Whether a line is a comment, at whatever indentation
def isComment (raw : Text) : Bool := "//".toList.isPrefixOf (trimStart raw)

-- Whether a line is neither blank nor a comment
def isKept (raw : Text) : Bool := !allBlank raw && !isComment raw

-- The lines of a script that are not blank and no comments, without the blanks behind them
def keptLines (lines : List Text) : List Text := (lines.filter isKept).map trimEnd

-- A script of those lines only
def tidied (script : Text) : Text := List.intercalate ['\n'] (keptLines (lines script))

-- Where a line of a script is found when it is tidied
def placeOf (lines : List Text) (line : Nat) : Nat := (lines.take line).countP isKept

section Lines

variable {lines rest : List Text} {line : Nat} {raw : Text}

theorem keptLines_cons (h : isKept raw = true) : keptLines (raw :: rest) = trimEnd raw :: keptLines rest := by
  rw [keptLines, List.filter_cons_of_pos h, List.map_cons, keptLines]

theorem keptLines_cons_of_not (h : isKept raw = false) : keptLines (raw :: rest) = keptLines rest := by
  rw [keptLines, List.filter_cons_of_neg (ne_true_of_eq_false h), keptLines]

theorem length_keptLines_take (lines : List Text) (line : Nat) :
    (keptLines (lines.take line)).length = placeOf lines line := by
  rw [placeOf, keptLines, List.length_map, List.countP_eq_length_filter]

theorem placeOf_succ (hraw : lines[line]? = some raw) :
    placeOf lines (line + 1) = placeOf lines line + if isKept raw then 1 else 0 := by
  obtain ⟨hlt, rfl⟩ := List.getElem?_eq_some_iff.1 hraw
  rw [placeOf, placeOf, List.take_succ_eq_append_getElem hlt, List.countP_append, List.countP_singleton]

-- What is kept of a line is found at its place, behind what is kept of the lines before.
theorem getElem?_keptLines (hraw : lines[line]? = some raw) (hkept : isKept raw = true) :
    (keptLines lines)[placeOf lines line]? = some (trimEnd raw) := by
  obtain ⟨hlt, rfl⟩ := List.getElem?_eq_some_iff.1 hraw
  have hsplit : keptLines lines =
      keptLines (lines.take line) ++ trimEnd lines[line] :: keptLines (lines.drop (line + 1)) := by
    rw [← keptLines_cons hkept, ← List.drop_eq_getElem_cons hlt, keptLines, keptLines, keptLines,
      ← List.map_append, ← List.filter_append, List.take_append_drop]
  rw [← length_keptLines_take, hsplit, List.getElem?_append_right (Nat.le_refl _), Nat.sub_self]
  rfl

theorem placeOf_lt_placeOf (hraw : lines[line]? = some raw) (hkept : isKept raw = true) {later : Nat}
    (hlater : line < later) : placeOf lines line < placeOf lines later := by
  have hnext := placeOf_succ hraw
  have hle : placeOf lines (line + 1) ≤ placeOf lines later :=
    (List.take_prefix_take_left hlater).sublist.countP_le
  rw [if_pos hkept] at hnext
  omega

end Lines

end Text

-- What is said with the lines of a script, said with those of the tidied one
def Issue.tidied (place : Nat → Nat) (issue : Issue) : Issue :=
  { issue with line := place issue.line, text := issue.text.map Text.trimEnd }

def ParseError.tidied (place : Nat → Nat) : ParseError → ParseError
  | duplicateScope name line => duplicateScope name (place line)
  | format e => format e

variable {α β γ : Type} {isGate : α → Bool} {document own : Template α} {options : ParseOptions}

def Entry.tidied (place : Nat → Nat) (e : Entry α) : Entry α :=
  { e with line := place e.line, raw := Text.trimEnd e.raw }

def Draft.tidied (place : Nat → Nat) (d : Draft α) : Draft α :=
  { d with entries := d.entries.map (Entry.tidied place) }

def Node.tidied (place : Nat → Nat) (node : Node α) : Node α := { node with line := place node.line }

def Tree.tidied (place : Nat → Nat) (tree : Tree α) : Tree α :=
  { tree with nodes := tree.nodes.map (Node.tidied place) }

def Reported.tidied (place : Nat → Nat) (f : β → γ) (report : Reported β) : Reported γ :=
  (report.1.map (Issue.tidied place), (report.2.mapError (ParseError.tidied place)).map f)

theorem Reported.tidied_append (place : Nat → Nat) (f : β → γ) (found : List Issue) (report : Reported β) :
    Reported.tidied place f (found ++ report.1, report.2) =
      (found.map (Issue.tidied place) ++ (Reported.tidied place f report).1,
        (Reported.tidied place f report).2) := by
  rw [Reported.tidied, List.map_append]
  rfl

namespace Statement

theorem headerName_trimEnd (t : Text) : headerName (Text.trimEnd t) = headerName t := by
  have hcomm : (Text.trimEnd t).dropWhile (· = '=') = Text.trimEnd (t.dropWhile (· = '=')) :=
    Text.dropWhile_dropEndWhile _ isBlank t
  rw [headerName, hcomm, Text.trimEnd_trimEnd, headerName]

-- What stands behind a line is not part of what it says.
theorem Says.trimEnd {body : Text} {s : Statement} (h : Says body s) : Says (Text.trimEnd body) s := by
  cases h with
  | @header rest h =>
      rw [← headerName_trimEnd rest]
      exact .header (h ▸ Text.trimEnd_append_cons (by decide) ['='] rest)
  | @goTo rest h =>
      rw [← Text.trim_trimEnd rest]
      exact .goTo (h ▸ Text.trimEnd_append_cons (by decide) ['-'] rest)
  | @ret rest h =>
      rw [← Text.trim_trimEnd rest]
      exact .ret (h ▸ Text.trimEnd_append_cons (by decide) ['<'] rest)
  | @choice rest h =>
      rw [← Text.trim_trimEnd rest]
      exact .choice (h ▸ Text.trimEnd_append_cons (by decide) [] rest)
  | @closeChoice rest h hret =>
      rw [← Text.trim_trimEnd rest]
      refine .closeChoice (h ▸ Text.trimEnd_append_cons (by decide) [] rest) ?_
      exact fun hfront => hret (hfront.trans (Text.trimEnd_isPrefix body))
  | @comment rest h =>
      rw [← Text.trim_trimEnd rest]
      exact .comment (h ▸ Text.trimEnd_append_cons (by decide) ['/'] rest)
  | line h =>
      have hline : Says (Text.trimEnd body) (.line (Text.trimEnd (Text.trimEnd body))) :=
        .line fun mark hmark hfront => h mark hmark (hfront.trans (Text.trimEnd_isPrefix body))
      rwa [Text.trimEnd_trimEnd] at hline

theorem ofLine?_trimEnd (options : ParseOptions) (raw : Text) :
    ofLine? options (Text.trimEnd raw) = ofLine? options raw := by
  have hbody : ofBody (Text.trimEnd (Text.trimStart raw)) = ofBody (Text.trimStart raw) :=
    says_iff.1 (says_iff.2 rfl).trimEnd
  rw [ofLine?, Text.allBlank_trimEnd, Text.trimStart_trimEnd, hbody, ofLine?]

theorem allBlank_of_ofLine? {raw : Text} {s : Statement} (h : ofLine? options raw = some s) :
    Text.allBlank raw = false := by
  unfold ofLine? at h
  split at h
  · cases h
  · next hblank => exact eq_false_of_ne_true hblank

theorem exists_ofBody_eq_comment_iff {body : Text} :
    (∃ note, ofBody body = .comment note) ↔ "//".toList <+: body := by
  constructor
  · rintro ⟨note, hbody⟩
    cases says_iff.2 hbody with
    | @comment rest h => exact ⟨rest, h.symm⟩
  · rintro ⟨rest, rfl⟩
    exact ⟨_, says_iff.1 (.comment rfl)⟩

-- Lines that are kept are those that say something to a parser that drops comments.
theorem isSome_ofLine?_eq_isKept (hcomments : options.keepComments = false) (raw : Text) :
    (ofLine? options raw).isSome = Text.isKept raw := by
  have hcomment : Text.isComment raw = true ↔ ∃ note, ofBody (Text.trimStart raw) = .comment note := by
    rw [exists_ofBody_eq_comment_iff, Text.isComment, List.isPrefixOf_iff_prefix]
  unfold ofLine? Text.isKept
  cases Text.allBlank raw with
  | true => rfl
  | false =>
      rw [if_neg Bool.false_ne_true, Bool.not_false, Bool.true_and]
      cases hbody : ofBody (Text.trimStart raw) with
      | comment note =>
          rw [hcomment.2 ⟨note, hbody⟩]
          simp [hcomments]
      | _ =>
          rw [eq_false_of_ne_true (mt hcomment.1 (by simp [hbody]))]
          rfl

end Statement

namespace Draft

variable (place : Nat → Nat) {d : Draft α} {raw : Text} {line : Nat}

theorem addScope_tidied (d : Draft α) (name : Text) (line : Nat) (raw : Text) :
    (d.tidied place).addScope name (place line) (Text.trimEnd raw) =
      (d.addScope name line raw).tidied place := by
  simp [addScope, tidied, Entry.tidied]

theorem addNode_tidied (d : Draft α) (spine : Spine) (kind : NodeKind α) (line : Nat) (raw : Text) :
    (d.tidied place).addNode isGate spine kind (place line) (Text.trimEnd raw) =
      (d.addNode isGate spine kind line raw).tidied place := by
  simp [addNode, tidied, Entry.tidied]

theorem withScope_tidied (d : Draft α) (line : Nat) (raw : Text) :
    (d.tidied place).withScope (place line) (Text.trimEnd raw) = (d.withScope line raw).tidied place := by
  unfold withScope
  split
  · next hnone => rw [if_pos (show d.spine.isNone = true from hnone), addScope_tidied]
  · next hsome => rw [if_neg (show ¬ d.spine.isNone = true from hsome)]

theorem hasScope_tidied (d : Draft α) (name : Text) : (d.tidied place).hasScope name = d.hasScope name := by
  rw [hasScope, tidied, Array.any_map]
  rfl

-- A line without the blanks behind it is measured like the line.
theorem measureOf_tidied (d : Draft α) (hblank : Text.allBlank raw = false) :
    (d.tidied place).measureOf (Text.trimEnd raw) = d.measureOf raw := by
  rw [measureOf, Text.leadingBlanks_trimEnd hblank, measureOf, measure, measure]
  split <;> rfl

theorem measured_tidied (d : Draft α) (hblank : Text.allBlank raw = false) :
    (d.tidied place).measured (Text.trimEnd raw) = (d.measured raw).tidied place := by
  rw [measured, Text.leadingBlanks_trimEnd hblank, measured, measure, measure]
  split <;> rfl

theorem map_ofFault_tidied (faults : List Fault) (line : Nat) (raw : Text) :
    faults.map (.ofFault (place line) (Text.trimEnd raw)) =
      (faults.map (.ofFault line raw)).map (Issue.tidied place) := by
  rw [List.map_map]
  rfl

theorem readHeader_tidied (d : Draft α) (name : Text) (line : Nat) (hblank : Text.allBlank raw = false) :
    (d.tidied place).readHeader name (place line) (Text.trimEnd raw) =
      Reported.tidied place (tidied place) (d.readHeader name line raw) := by
  have hfaults : (d.tidied place).headerFaults name (Text.trimEnd raw) = d.headerFaults name raw := by
    rw [headerFaults, measureOf_tidied place d hblank]
    rfl
  rw [readHeader_eq, readHeader_eq, hfaults, hasScope_tidied, measured_tidied place d hblank,
    addScope_tidied, map_ofFault_tidied]
  by_cases hname : name = []
  · rw [if_pos hname, if_pos hname]
    rfl
  · rw [if_neg hname, if_neg hname]
    split <;> rfl

theorem readStatement_tidied (hargs : own.args = document.args) (d : Draft α) (s : Statement)
    (line : Nat) (hblank : Text.allBlank raw = false) :
    (d.tidied place).readStatement isGate own s (place line) (Text.trimEnd raw) =
      Reported.tidied place (tidied place) (d.readStatement isGate document s line raw) := by
  obtain ⟨spine, hspine⟩ := d.exists_spine_withScope line raw
  have hscope := withScope_tidied place d line raw
  have hmeasure := measureOf_tidied place (d.withScope line raw) hblank
  have htidied : ((d.tidied place).withScope (place line) (Text.trimEnd raw)).spine = some spine := by
    rw [hscope]
    exact hspine
  have hdepth : ((d.withScope line raw).tidied place).depthOf (Text.trimEnd raw) =
      (d.withScope line raw).depthOf raw := by
    rw [depthOf, hmeasure]
    rfl
  have hfaults : ((d.withScope line raw).tidied place).nodeFaults spine s (Text.trimEnd raw) =
      (d.withScope line raw).nodeFaults spine s raw := by
    rw [nodeFaults, hmeasure, hdepth]
    rfl
  rw [readStatement_eq isGate own _ _ _ s htidied, readStatement_eq isGate document line raw d s hspine,
    s.node?_eq_of_args hargs, hscope, hmeasure, hfaults, hdepth, measured_tidied place _ hblank]
  rcases s.node? document with e | _ | kind
  · dsimp only
    rw [map_ofFault_tidied]
    rfl
  · dsimp only
    rw [map_ofFault_tidied]
    rfl
  · dsimp only
    rw [map_ofFault_tidied, addNode_tidied]
    rfl

-- A line does in a tidied draft what it does in the draft.
theorem readLine_tidied (hargs : own.args = document.args) (d : Draft α) (line : Nat) (raw : Text) :
    (d.tidied place).readLine isGate own options (place line) (Text.trimEnd raw) =
      Reported.tidied place (tidied place) (d.readLine isGate document options line raw) := by
  rw [readLine_eq, readLine_eq, Statement.ofLine?_trimEnd]
  cases hs : Statement.ofLine? options raw with
  | none => rfl
  | some s =>
      have hblank := Statement.allBlank_of_ofLine? hs
      cases s with
      | header name => exact readHeader_tidied place d name line hblank
      | _ => exact readStatement_tidied place hargs d _ line hblank

theorem readLines_cons_of_silent {rest : List Text} (d : Draft α) (line : Nat)
    (hs : Statement.ofLine? options raw = none) :
    readLines isGate document options d line (raw :: rest) =
      readLines isGate document options d (line + 1) rest := by
  rw [readLines, readLine_eq, hs]
  rfl

-- Lines that are dropped do nothing, and each of the others does what it did. The lines in
-- front only tell where the next one is found.
theorem readLines_tidied (hargs : own.args = document.args) (hcomments : options.keepComments = false)
    (front rest : List Text) (d : Draft α) :
    let place := Text.placeOf (front ++ rest)
    readLines isGate own options (d.tidied place) (place front.length) (Text.keptLines rest) =
      Reported.tidied place (tidied place) (readLines isGate document options d front.length rest) := by
  intro place
  induction rest generalizing front d with
  | nil => rfl
  | cons raw rest ih =>
      have hrest : ∀ d : Draft α,
          readLines isGate own options (d.tidied place) (place (front.length + 1)) (Text.keptLines rest) =
            Reported.tidied place (tidied place)
              (readLines isGate document options d (front.length + 1) rest) := by
        intro d
        have hshort := ih (front ++ [raw]) d
        rwa [← List.append_cons, List.length_append, List.length_singleton] at hshort
      have hnext : place (front.length + 1) = place front.length + if Text.isKept raw then 1 else 0 :=
        Text.placeOf_succ (by simp)
      have hkept := Statement.isSome_ofLine?_eq_isKept hcomments raw
      cases hraw : Text.isKept raw with
      | false =>
          rw [hraw, Option.isSome_eq_false_iff, Option.isNone_iff_eq_none] at hkept
          have hsame : place (front.length + 1) = place front.length := by
            rw [hnext, hraw]
            rfl
          rw [Text.keptLines_cons_of_not hraw, readLines_cons_of_silent d front.length hkept, ← hsame]
          exact hrest d
      | true =>
          rw [hraw, if_pos rfl] at hnext
          have htidied : (d.tidied place).readLine isGate own options (place front.length)
              (Text.trimEnd raw) = Reported.tidied place (tidied place)
                (d.readLine isGate document options front.length raw) :=
            readLine_tidied place hargs d front.length raw
          rw [Text.keptLines_cons hraw]
          rcases hline : d.readLine isGate document options front.length raw with ⟨found, e | next⟩
          · rw [hline] at htidied
            rw [readLines, readLines, htidied, hline]
            rfl
          · rw [hline] at htidied
            rw [readLines, readLines, htidied, hline, Reported.tidied_append, ← hrest next, hnext]
            rfl

theorem closed_tidied (hplace : place 0 = 0) (d : Draft α) : (d.tidied place).closed = d.closed.tidied place := by
  have hscope := withScope_tidied place d 0 []
  rwa [hplace] at hscope

section Entries

variable (entries : Array (Entry α))

theorem findScope?_tidied (name : Text) :
    findScope? (entries.map (Entry.tidied place)) name = findScope? entries name := by
  rw [findScope?, Array.findIdx?_map]
  rfl

theorem resolve_tidied (kind : NodeKind α) :
    resolve (entries.map (Entry.tidied place)) kind = resolve entries kind := by
  cases kind with
  | goTo target destination => rw [resolve, findScope?_tidied, resolve]
  | _ => rfl

theorem unknownScope?_tidied (e : Entry α) :
    unknownScope? (entries.map (Entry.tidied place)) (e.tidied place) =
      (unknownScope? entries e).map (Issue.tidied place) := by
  unfold unknownScope?
  rw [show (e.tidied place).kind = e.kind from rfl]
  cases e.kind with
  | goTo target destination =>
      dsimp only
      rw [findScope?_tidied]
      split <;> rfl
  | _ => rfl

theorem filterMap_unknownScope?_tidied :
    (entries.map (Entry.tidied place)).toList.filterMap
        (unknownScope? (entries.map (Entry.tidied place))) =
      (entries.toList.filterMap (unknownScope? entries)).map (Issue.tidied place) := by
  rw [Array.toList_map, List.filterMap_map, List.map_filterMap]
  exact List.filterMap_congr fun e _ => unknownScope?_tidied place entries e

theorem childrenOf_tidied (id : NodeId) :
    childrenOf (entries.map (Entry.tidied place)) id = childrenOf entries id := by
  unfold childrenOf
  rw [Array.size_map]
  refine List.filter_congr fun child _ => ?_
  rw [Array.getElem?_map]
  cases entries[child]? <;> rfl

end Entries

theorem tree_tidied (d : Draft α) : (d.tidied place).tree = d.tree.tidied place := by
  have hnodes : (d.tidied place).tree.nodes = (d.tree.tidied place).nodes := by
    apply Array.ext_getElem?
    intro id
    simp only [tree, tidied, Tree.tidied, Array.getElem?_mapIdx, Array.getElem?_map, Option.map_map]
    congr 1
    funext e
    simp only [Function.comp, resolve_tidied, childrenOf_tidied]
    rfl
  exact congrArg (Tree.mk · 0) hnodes

end Draft

theorem Text.lines_tidied (script : Text) (h : keptLines (lines script) ≠ []) :
    lines (tidied script) = keptLines (lines script) := by
  apply lines_intercalate h
  intro part hpart
  obtain ⟨raw, hraw, rfl⟩ := List.mem_map.1 hpart
  have hnot := not_mem_of_mem_splitOn (List.mem_of_mem_filter hraw)
  exact fun hmem => hnot ((trimEnd_isPrefix raw).subset hmem)

-- A script of which nothing is kept is empty, and an empty line says nothing.
theorem Draft.readLines_lines_tidied (script : Text) (d : Draft α) :
    readLines isGate document options d 0 (Text.lines (Text.tidied script)) =
      readLines isGate document options d 0 (Text.keptLines (Text.lines script)) := by
  by_cases h : Text.keptLines (Text.lines script) = []
  · rw [Text.tidied, h]
    exact readLines_cons_of_silent d 0 rfl
  · rw [Text.lines_tidied script h]

theorem parse_of_tidied (hformat : own.format = Text.tidied document.format) (hargs : own.args = document.args)
    (hcomments : options.keepComments = false) :
    let place := Text.placeOf (Text.lines document.format)
    parse isGate own options =
      Reported.tidied place (Tree.tidied place) (parse isGate document options) := by
  intro place
  have hempty : (Draft.empty : Draft α).tidied place = .empty := by
    simp [Draft.tidied, Draft.empty]
  have hkept : Draft.readLines isGate own options ((Draft.empty : Draft α).tidied place) (place 0)
      (Text.keptLines (Text.lines document.format)) =
        Reported.tidied place (Draft.tidied place)
          (Draft.readLines isGate document options .empty 0 (Text.lines document.format)) :=
    Draft.readLines_tidied hargs hcomments [] _ .empty
  have hread : Draft.readLines isGate own options .empty 0 (Text.lines own.format) =
      Reported.tidied place (Draft.tidied place)
        (Draft.readLines isGate document options .empty 0 (Text.lines document.format)) := by
    rw [hempty] at hkept
    rw [hformat, Draft.readLines_lines_tidied]
    exact hkept
  rw [parse, hread, parse]
  rcases Draft.readLines isGate document options .empty 0 (Text.lines document.format) with ⟨found, e | d⟩
  · rfl
  · have hclosed : (d.tidied place).closed = d.closed.tidied place := Draft.closed_tidied place rfl d
    have hunknown := Draft.filterMap_unknownScope?_tidied place d.closed.entries
    simp only [Reported.tidied, Except.mapError, Except.map, List.map_append, hclosed, Draft.tree_tidied]
    rw [← hunknown]
    rfl

-- Blank lines, comments that are not kept, and blanks behind lines are nothing to the parser:
-- the script without them is read as the script is, with the same issues and the same tree or
-- the same error. Only the numbers of the lines are those of the shorter script, in the same
-- order, and the issues show its lines.
theorem parse_tidied (isGate : α → Bool) (hdocument : document.Built)
    (hcomments : options.keepComments = false) :
    let lines := Text.lines document.format
    let place := Text.placeOf lines
    ∃ tidy, Template.ofFormat (Text.tidied document.format) document.args = .ok tidy ∧
      parse isGate tidy options =
        Reported.tidied place (Tree.tidied place) (parse isGate document options) ∧
      place 0 = 0 ∧
      ∀ (line : Nat) (raw : Text), lines[line]? = some raw → Text.isKept raw = true →
        (Text.lines tidy.format)[place line]? = some (Text.trimEnd raw) ∧
        ∀ later, line < later → place line < place later := by
  intro lines place
  have hscans : Template.Scans document.args.length (Text.tidied document.format) := by
    apply Template.Scans.intercalate
    intro part hpart
    obtain ⟨raw, hraw, rfl⟩ := List.mem_map.1 hpart
    exact (hdocument.scans.lines raw (List.mem_of_mem_filter hraw)).trimEnd
  obtain ⟨tidy, htidy, hformat, hargs⟩ := hscans.exists_ofFormat
  refine ⟨tidy, htidy, parse_of_tidied hformat hargs hcomments, rfl, ?_⟩
  intro line raw hraw hkept
  have hfound := Text.getElem?_keptLines hraw hkept
  refine ⟨?_, fun later hlater => Text.placeOf_lt_placeOf hraw hkept hlater⟩
  rwa [hformat, Text.lines_tidied]
  intro hnil
  rw [hnil] at hfound
  cases hfound

-- A comment behind a tab does not fix the unit, and a comment between a choice and its line
-- does not part them. The issue moves from the sixth line to the third.
theorem parse_tidied_comments_and_blanks :
    let format : Text := "\t// a\n> b \n\n// c\n  d\t\n-> T ".toList
    let document : Template Nat := ⟨format, [], [.literal format]⟩
    document.Built ∧
      ∃ tidy, Template.ofFormat "> b\n  d\n-> T".toList ([] : List Nat) = .ok tidy ∧
        parse (fun _ => false) tidy .default =
          ([.ofFault 2 "-> T".toList (.unknownScope ['T'])],
            .ok ⟨#[⟨0, .scope [], 0, [1, 3]⟩, ⟨1, .choice ⟨['b'], [], [.literal ['b']]⟩, 0, [2]⟩,
              ⟨2, .line ⟨['d'], [], [.literal ['d']]⟩, 1, []⟩, ⟨3, .goTo ['T'] none, 2, []⟩], 0⟩) := by
  intro format document
  have hbuilt : document.Built :=
    .format (show Template.ofFormat document.format document.args = .ok document by decide +kernel)
  have hparse : parse (fun _ => false) document .default =
      ([.ofFault 5 "-> T ".toList (.unknownScope ['T'])],
        .ok ⟨#[⟨0, .scope [], 1, [1, 3]⟩, ⟨1, .choice ⟨['b'], [], [.literal ['b']]⟩, 1, [2]⟩,
          ⟨2, .line ⟨['d'], [], [.literal ['d']]⟩, 4, []⟩, ⟨3, .goTo ['T'] none, 5, []⟩], 0⟩) := by
    decide +kernel
  have htext : Text.tidied format = "> b\n  d\n-> T".toList := by decide
  obtain ⟨tidy, htidy, htold, -⟩ := parse_tidied (fun _ => false) hbuilt (show ParseOptions.default.keepComments = false from rfl)
  refine ⟨hbuilt, tidy, htext ▸ htidy, ?_⟩
  rw [htold, hparse]
  decide +kernel

end Narrative
