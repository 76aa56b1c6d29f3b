import Narrative.Proofs.Reader.Outputs
import Narrative.Proofs.Reader.Refusals
import Narrative.Proofs.Script.Resolution
import Narrative.Proofs.Template.Rendering
import Narrative.Proofs.Tool.Answering

namespace Narrative

section Playable

variable {α κ σ : Type} {host : Host α κ σ} {tree : Tree α}

-- A story of which everything can be shown
structure Tree.Playable (host : Host α κ σ) (tree : Tree α) : Prop where
  traversable : tree.Traversable
  renders : ∀ {id : NodeId} {t : Template α}, tree.template? id = some t →
    ∃ shown, t.render host.render = .ok shown

-- A story of which everything can be shown and every go-to leads somewhere
structure Tree.Clean (host : Host α κ σ) (tree : Tree α) : Prop where
  traversable : tree.Traversable
  resolved : ∀ target line, ¬ tree.Unresolved target line
  renders : ∀ {id : NodeId} {t : Template α}, tree.template? id = some t →
    ∃ shown, t.render host.render = .ok shown

-- A pause of which a reader needs no answer, unless it has come to a go-to that leads nowhere
inductive Pause.Expected (tree : Tree α) : Pause → Prop
  | shown : Expected tree .shown
  | ended : Expected tree .ended
  | unresolved {target : Text} {line : Nat} (h : tree.Unresolved target line) :
      Expected tree (.refused (.unresolvedGoTo target line))

namespace Reader

variable {r r' : Reader κ} {s s' : σ}

theorem Steps.expected (htree : tree.Playable host) {p : Pause} (h : Steps host tree r s (some p) r' s') :
    p.Expected tree := by
  cases h with
  | idle | ended => exact .ended
  | @passed _ _ id child shown _ _ _ hfaces hkind _ hemitted =>
      have htemplate : tree.template? id = some shown :=
        Tree.template?_eq_some hfaces.get?_eq (by rw [hkind]; rfl)
      obtain ⟨t, ht⟩ := htree.renders htemplate
      simp only [emitted, ht] at hemitted
      split at hemitted
      · cases hemitted
      · cases hemitted
        exact .shown
  | offered => exact .shown
  | @unresolved _ _ id child target hfaces hkind =>
      exact .unresolved ⟨id, child, hfaces.get?_eq, rfl, hkind⟩

theorem expected_of_advance (htree : tree.Playable host) {moves : Nat} {p : Pause} (hidle : r.isChoice = false)
    (h : r.advance host tree moves s = some (p, r', s')) : p.Expected tree := by
  rcases advance_cases h with ⟨hchoice, -⟩ | ⟨-, hrun⟩
  · rw [hidle] at hchoice
    cases hchoice
  · obtain ⟨_, _, -, hlast⟩ := exists_unpaused_of_run host tree hrun
    exact hlast.expected htree

-- Where a reader stops to show something there is an output.
theorem exists_output_of_advance (htree : tree.Traversable) (hr : Placed tree r) {moves : Nat}
    (h : r.advance host tree moves s = some (.shown, r', s')) : ∃ output, r'.output tree = some output := by
  have hplaced : Placed tree r' := placed_advance htree hr h
  obtain ⟨r₁, s₁, hmoved, hlast⟩ := exists_unpaused_of_advance h (by simp)
  rcases hlast.stopsAt_or_choices htree (x := (r, s)) hmoved with ⟨id, shown, hstops, hline⟩ | ⟨ids, hids⟩
  · exact ⟨_, hstops.output_eq hline⟩
  · obtain ⟨labels, hlabels, -⟩ := hplaced.exists_output_of_choices hids
    exact ⟨_, hlabels⟩

-- Each of the options that a reader gives can be chosen.
theorem exists_choose_of_output {labels : List (Template α)} (h : r.output tree = some (.choices labels))
    {index : Nat} (hlt : index < labels.length) : ∃ r', r.choose index = .ok r' := by
  unfold output at h
  split at h
  · cases h
  · obtain ⟨_, -, he⟩ := Option.map_eq_some_iff.1 h
    cases he
  · next ids hshown =>
    cases h
    exact exists_choose hshown (hlt.trans_le (List.length_filterMap_le _ ids))

end Reader

end Playable

namespace Story

theorem ofSource_congr {options other : ParseOptions} (h : options.keepComments = other.keepComments)
    (source : Text) : ofSource options source = ofSource other source := by
  unfold ofSource
  simp only [parse_congr host.isGate _ h]

theorem exists_parse {options : ParseOptions} {source : Text} {issues : List Issue} {story : Story}
    (h : ofSource options source = .ok (issues, story)) :
    ∃ document : Template Empty, parse host.isGate document options = (issues, .ok story) := by
  unfold ofSource at h
  split at h
  · cases h
  · next document _ =>
    split at h
    · cases h
    · next hparse =>
      cases h
      exact ⟨document, hparse⟩

-- A story without arguments shows whatever it has.
theorem playable_of_ofSource {options : ParseOptions} {source : Text} {issues : List Issue} {story : Story}
    (h : ofSource options source = .ok (issues, story)) : story.Playable Story.host := by
  obtain ⟨document, hparse⟩ := exists_parse h
  refine ⟨Tree.traversable_of_parse hparse, fun ht => ?_⟩
  exact Template.exists_render (Tree.ofFormat_of_parse hparse ht) fun arg => arg.elim

-- Nothing is unresolved if there are no issues.
theorem clean_of_ofSource {options : ParseOptions} {source : Text} {story : Story}
    (h : ofSource options source = .ok ([], story)) : story.Clean Story.host := by
  have hplayable := playable_of_ofSource h
  obtain ⟨document, hparse⟩ := exists_parse h
  refine ⟨hplayable.traversable, ?_, hplayable.renders⟩
  rintro target line ⟨id, node, hnode, -, hkind⟩
  obtain ⟨raw, -, hmem⟩ := mem_issues_of_unresolved hparse hnode hkind
  cases hmem

end Story

namespace Play

variable {story : Story} (player : Player) (moves steps : Nat)

-- What a step of the tool can do, and the calls that it makes
inductive Session.Steps (story : Story) (player : Player) (moves : Nat) (s : Session) :
    Noted (Stretch ⊕ (Text × Session)) → Prop
  | stopped (h : player.outOfSteps s.steps = true) :
      Steps story player moves s (.ofResult (.inl
        ⟨outputLine ("\n(stopped after ".toList ++ Numeral.ofNat s.steps ++ " steps)".toList), .ends 0 []⟩))
  | waiting (h : s.reader.advance Story.host story moves () = none) :
      Steps story player moves s ⟨[.advance s.reader none], none⟩
  | ended {r : Reader Unit} (h : s.reader.advance Story.host story moves () = some (.ended, r, ())) :
      Steps story player moves s ⟨[.advance s.reader (some .ended)],
        some (.inl ⟨outputLine "\n(the end)".toList, .ends 0 []⟩)⟩
  | refused {e : ReaderError} {r : Reader Unit}
      (h : s.reader.advance Story.host story moves () = some (.refused e, r, ())) :
      Steps story player moves s ⟨[.advance s.reader (some (.refused e))],
        some (.inl ⟨[], .ends 1 (errorLine e.message)⟩)⟩
  | unrendered {e : RenderError} {r : Reader Unit}
      (h : s.reader.advance Story.host story moves () = some (.unrendered e, r, ())) :
      Steps story player moves s ⟨[.advance s.reader (some (.unrendered e))], some (.inl ⟨[], .ends 1 []⟩)⟩
  | silent {r : Reader Unit} (h : s.reader.advance Story.host story moves () = some (.shown, r, ()))
      (houtput : r.output story = none) :
      Steps story player moves s ⟨[.advance s.reader (some .shown), .output r none],
        some (.inr ([], s.advanced r))⟩
  | told {r : Reader Unit} {t : Template Empty}
      (h : s.reader.advance Story.host story moves () = some (.shown, r, ()))
      (houtput : r.output story = some (.line t)) :
      Steps story player moves s ⟨[.advance s.reader (some .shown), .output r (some (.line t))],
        some (.inr (outputLine (shown t), s.advanced r))⟩
  | asked {r : Reader Unit} {labels : List (Template Empty)} (hplayer : player = .person)
      (h : s.reader.advance Story.host story moves () = some (.shown, r, ()))
      (houtput : r.output story = some (.choices labels)) :
      Steps story player moves s
        ⟨[.advance s.reader (some .shown), .output r (some (.choices labels)), .prompt r labels.length],
          some (.inl ⟨menu labels ++ prompt, .asks (s.advanced r) labels.length⟩)⟩
  | picked {r r' : Reader Unit} {labels : List (Template Empty)} {maxSteps : Nat} {picks : Nat → Nat}
      (hplayer : player = .auto maxSteps picks)
      (h : s.reader.advance Story.host story moves () = some (.shown, r, ()))
      (houtput : r.output story = some (.choices labels))
      (hchoose : r.choose (picks s.picked % labels.length) = .ok r') :
      Steps story player moves s
        ⟨[.advance s.reader (some .shown), .output r (some (.choices labels)),
            .choose r (picks s.picked % labels.length) (.ok r')],
          some (.inr
            (menu labels ++ outputLine ("> ".toList ++ Numeral.ofNat (picks s.picked % labels.length + 1)),
              { s.advanced r with reader := r', picked := s.picked + 1 }))⟩
  | mispicked {r : Reader Unit} {e : ReaderError} {labels : List (Template Empty)} {maxSteps : Nat}
      {picks : Nat → Nat} (hplayer : player = .auto maxSteps picks)
      (h : s.reader.advance Story.host story moves () = some (.shown, r, ()))
      (houtput : r.output story = some (.choices labels))
      (hchoose : r.choose (picks s.picked % labels.length) = .error e) :
      Steps story player moves s
        ⟨[.advance s.reader (some .shown), .output r (some (.choices labels)),
            .choose r (picks s.picked % labels.length) (.error e)],
          some (.inl
            ⟨menu labels ++ outputLine ("> ".toList ++ Numeral.ofNat (picks s.picked % labels.length + 1)),
              .ends 1 (errorLine e.message)⟩)⟩

theorem Session.steps_stepNoting (s : Session) :
    s.Steps story player moves (s.stepNoting story player moves) := by
  unfold stepNoting
  split
  · next hstop => exact .stopped hstop
  · cases hreply : s.reader.advance Story.host story moves () with
    | none => exact .waiting hreply
    | some reply =>
        obtain ⟨p, reader, _⟩ := reply
        cases p with
        | ended => exact .ended hreply
        | refused e => exact .refused hreply
        | unrendered e => exact .unrendered hreply
        | shown =>
            dsimp only
            cases houtput : reader.output story with
            | none => exact .silent hreply houtput
            | some output =>
                cases output with
                | line t => exact .told hreply houtput
                | choices labels =>
                    cases player with
                    | person => exact .asked rfl hreply houtput
                    | auto maxSteps picks =>
                        dsimp only [advanced]
                        cases hchoose : reader.choose (picks s.picked % labels.length) with
                        | ok reader' => exact .picked rfl hreply houtput hchoose
                        | error e => exact .mispicked rfl hreply houtput hchoose

-- Ready for the next step
structure Session.Poised (story : Story) (s : Session) : Prop where
  placed : s.reader.Placed story
  idle : s.reader.isChoice = false

-- A turn asks for one of the options that are pending, or it ends well, or with the report of a
-- go-to that leads nowhere.
def Turn.Proper (story : Story) : Turn → Prop
  | asks s count => s.reader.Placed story ∧ ∃ ids, s.reader.shown = .choices ids ∧ ids.length = count
  | ends code err => code = 0 ∧ err = [] ∨
      code = 1 ∧ ∃ target line, story.Unresolved target line ∧
        err = errorLine (ReaderError.unresolvedGoTo target line).message

-- A call that keeps to what a reader is for. It is not asked to go on while options are pending,
-- has something to show whenever it says so, and the index that is chosen is one of its options.
def Call.Kept (story : Story) : Call → Prop
  | advance _ reply => ∀ p, reply = some p → p.Expected story
  | output _ reply => reply.isSome = true
  | choose reader index reply => ∃ labels, reader.output story = some (.choices labels) ∧
      index < labels.length ∧ ∃ reader', reply = .ok reader'
  | prompt reader count => ∃ labels, reader.output story = some (.choices labels) ∧
      labels.length = count ∧ 0 < count

-- All calls are kept, and what it comes to is as it should be.
structure Noted.Kept {β : Type} (story : Story) (P : β → Prop) (n : Noted β) : Prop where
  calls : ∀ call ∈ n.calls, call.Kept story
  result : ∀ b, n.result? = some b → P b

namespace Noted.Kept

variable {β γ : Type} {P : β → Prop} {Q : γ → Prop} {n : Noted β}

theorem ofResult {b : β} (h : P b) : Kept story P (.ofResult b) where
  calls := List.forall_mem_nil _
  result := by
    rintro _ ⟨⟩
    exact h

theorem map {f : β → γ} (h : Kept story P n) (hf : ∀ b, P b → Q (f b)) : Kept story Q (n.map f) where
  calls := h.calls
  result := by
    intro c hc
    obtain ⟨b, hb, rfl⟩ := Option.map_eq_some_iff.1 hc
    exact hf b (h.result b hb)

theorem bind {f : β → Noted γ} (h : Kept story P n) (hf : ∀ b, P b → Kept story Q (f b)) :
    Kept story Q (n.bind f) := by
  obtain ⟨calls, _ | b⟩ := n
  · exact ⟨h.calls, nofun⟩
  · obtain ⟨hcalls, hresult⟩ := hf b (h.result b rfl)
    exact ⟨List.forall_mem_append.2 ⟨h.calls, hcalls⟩, hresult⟩

end Noted.Kept

theorem Session.poised_start (htree : story.Traversable) : (ofStory story).Poised story :=
  ⟨Reader.placed_start htree (), rfl⟩

-- A step comes to a proper turn, or is ready for the next one.
theorem Session.kept_stepNoting (htree : story.Playable Story.host) {s : Session} (hs : s.Poised story) :
    (s.stepNoting story player moves).Kept story fun next =>
      next.elim (fun stretch => stretch.turn.Proper story) fun further => further.2.Poised story := by
  have hplaced : ∀ {p : Pause} {r : Reader Unit},
      s.reader.advance Story.host story moves () = some (p, r, ()) → r.Placed story :=
    fun hadvance => Reader.placed_advance htree.traversable hs.placed hadvance
  have hexpected : ∀ {p : Pause} {r : Reader Unit},
      s.reader.advance Story.host story moves () = some (p, r, ()) →
        (Call.advance s.reader (some p)).Kept story := by
    rintro p r hadvance _ ⟨⟩
    exact Reader.expected_of_advance htree hs.idle hadvance
  have hoffered : ∀ {r : Reader Unit} {labels : List (Template Empty)},
      s.reader.advance Story.host story moves () = some (.shown, r, ()) →
      r.output story = some (.choices labels) →
        ∃ ids, r.shown = .choices ids ∧ ids.length = labels.length ∧ 0 < labels.length := by
    intro r labels hadvance houtput
    obtain ⟨ids, hshown, hne, hlength⟩ := (hplaced hadvance).exists_choices_of_output houtput
    exact ⟨ids, hshown, hlength, hlength ▸ List.length_pos_iff.2 hne⟩
  generalize hn : s.stepNoting story player moves = n
  have hsteps : s.Steps story player moves n := hn ▸ steps_stepNoting player moves s
  cases hsteps with
  | stopped => exact .ofResult (.inl ⟨rfl, rfl⟩)
  | waiting => exact ⟨List.forall_mem_singleton.2 nofun, nofun⟩
  | ended hadvance =>
      refine ⟨List.forall_mem_singleton.2 (hexpected hadvance), ?_⟩
      rintro _ ⟨⟩
      exact .inl ⟨rfl, rfl⟩
  | refused hadvance =>
      refine ⟨List.forall_mem_singleton.2 (hexpected hadvance), ?_⟩
      rintro _ ⟨⟩
      cases hexpected hadvance _ rfl with
      | unresolved h => exact .inr ⟨rfl, _, _, h, rfl⟩
  | unrendered hadvance => cases hexpected hadvance _ rfl
  | silent hadvance houtput =>
      obtain ⟨output, hshown⟩ := Reader.exists_output_of_advance htree.traversable hs.placed hadvance
      rw [houtput] at hshown
      cases hshown
  | @told r t hadvance houtput =>
      have hidle : r.isChoice = false := by
        rw [Bool.eq_false_iff, ne_eq, Reader.isChoice_iff_output story, houtput]
        simp
      refine ⟨List.forall_mem_cons.2 ⟨hexpected hadvance, List.forall_mem_singleton.2 rfl⟩, ?_⟩
      rintro _ ⟨⟩
      exact ⟨hplaced hadvance, hidle⟩
  | asked _ hadvance houtput =>
      obtain ⟨ids, hshown, hlength, hpos⟩ := hoffered hadvance houtput
      refine ⟨List.forall_mem_cons.2 ⟨hexpected hadvance, List.forall_mem_cons.2 ⟨rfl,
        List.forall_mem_singleton.2 ⟨_, houtput, rfl, hpos⟩⟩⟩, ?_⟩
      rintro _ ⟨⟩
      exact ⟨hplaced hadvance, ids, hshown, hlength⟩
  | @picked r r' labels _ picks _ hadvance houtput hchoose =>
      obtain ⟨-, -, -, hpos⟩ := hoffered hadvance houtput
      refine ⟨List.forall_mem_cons.2 ⟨hexpected hadvance, List.forall_mem_cons.2 ⟨rfl,
        List.forall_mem_singleton.2 ⟨labels, houtput, Nat.mod_lt _ hpos, r', rfl⟩⟩⟩, ?_⟩
      rintro _ ⟨⟩
      exact ⟨Reader.placed_choose htree.traversable (hplaced hadvance) hchoose, Reader.isChoice_of_choose hchoose⟩
  | @mispicked _ _ _ _ picks _ hadvance houtput hchoose =>
      obtain ⟨-, -, -, hpos⟩ := hoffered hadvance houtput
      obtain ⟨r', hpicked⟩ := Reader.exists_choose_of_output houtput (Nat.mod_lt (picks s.picked) hpos)
      rw [hpicked] at hchoose
      cases hchoose

theorem Session.kept_goNoting (htree : story.Playable Story.host) {s : Session} (hs : s.Poised story) :
    (s.goNoting story player moves steps).Kept story fun stretch => stretch.turn.Proper story := by
  induction steps generalizing s with
  | zero => exact ⟨List.forall_mem_nil _, nofun⟩
  | succ steps ih =>
      refine (kept_stepNoting player moves htree hs).bind fun next hnext => ?_
      cases next with
      | inl stretch => exact .ofResult hnext
      | inr further => exact (ih hnext).map fun stretch hstretch => hstretch

-- Where the options of a turn are pending, the reader gives as many.
theorem Turn.Proper.exists_output {s : Session} {count : Nat} (h : Turn.Proper story (.asks s count)) :
    ∃ labels, s.reader.output story = some (.choices labels) ∧ labels.length = count ∧ 0 < count := by
  obtain ⟨hplaced, ids, hshown, rfl⟩ := h
  obtain ⟨labels, houtput, hne, hlength, -⟩ := hplaced.exists_output_of_choices hshown
  have hcount : labels.length = ids.length := by rw [hlength, Reader.pending, hshown]
  exact ⟨labels, houtput, hcount, hcount ▸ List.length_pos_iff.2 hne⟩

-- Whatever is answered, the turn that follows is proper.
theorem Session.kept_resumeNoting (htree : story.Playable Story.host) {s : Session} {count : Nat}
    (hs : Turn.Proper story (.asks s count)) (input : Option Text) :
    (s.resumeNoting story player moves steps count input).Kept story fun stretch =>
      stretch.turn.Proper story := by
  obtain ⟨labels, houtput, hlength, hpos⟩ := hs.exists_output
  unfold resumeNoting
  cases hanswer : Answer.ofInput count input with
  | quit => exact .ofResult (.inl ⟨rfl, rfl⟩)
  | unclear =>
      refine ⟨List.forall_mem_singleton.2 ⟨labels, houtput, hlength, hpos⟩, ?_⟩
      rintro _ ⟨⟩
      exact hs
  | pick index =>
      have hlt : index < labels.length := hlength ▸ Answer.pick_lt hanswer
      obtain ⟨reader, hchoose⟩ := Reader.exists_choose_of_output houtput hlt
      have hplaced := Reader.placed_choose htree.traversable hs.1 hchoose
      have hchosen : Noted.Kept story (fun r : Reader Unit => r.Placed story ∧ r.isChoice = false)
          ⟨[.choose s.reader index (.ok reader)], some reader⟩ := by
        refine ⟨List.forall_mem_singleton.2 ⟨labels, houtput, hlt, reader, rfl⟩, ?_⟩
        rintro _ ⟨⟩
        exact ⟨hplaced, Reader.isChoice_of_choose hchoose⟩
      simp only [hchoose]
      exact hchosen.bind fun r hr => kept_goNoting player moves steps htree ⟨hr.1, hr.2⟩

-- A session ends properly, with the input or before. The induction is on the input: what is
-- answered to a proper turn leads to one.
theorem Stretch.kept_finishNoting (htree : story.Playable Story.host) (inputs : List (Option Text))
    {stretch : Stretch} (hproper : stretch.turn.Proper story) :
    (stretch.finishNoting story player moves steps inputs).Kept story fun report =>
      Turn.Proper story (.ends report.code report.err) := by
  induction inputs generalizing stretch with
  | nil =>
      unfold finishNoting
      cases hturn : stretch.turn with
      | ends code err => exact .ofResult (hturn ▸ hproper)
      | asks s count => exact .ofResult (.inl ⟨rfl, rfl⟩)
  | cons input inputs ih =>
      unfold finishNoting
      cases hturn : stretch.turn with
      | ends code err => exact .ofResult (hturn ▸ hproper)
      | asks s count =>
          rw [hturn] at hproper
          exact (Session.kept_resumeNoting player moves steps htree hproper input).bind fun next hnext => ih hnext

-- Where every go-to leads somewhere, what ends properly ends well.
theorem Turn.Proper.ends_well (hclean : story.Clean Story.host) {code : Nat} {err : Text}
    (h : Turn.Proper story (.ends code err)) : code = 0 ∧ err = [] := by
  refine h.resolve_right ?_
  rintro ⟨-, target, line, hunresolved, -⟩
  exact hclean.resolved target line hunresolved

end Play

end Narrative
