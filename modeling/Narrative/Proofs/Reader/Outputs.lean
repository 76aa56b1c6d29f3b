import Narrative.Proofs.Reader.Choices
import Narrative.Proofs.Reader.Fields

namespace Narrative

variable {α κ σ : Type} {host : Host α κ σ} {tree : Tree α}

namespace Reader

variable {r r' : Reader κ} {s s' : σ}

-- Without anything shown there is no output, and nothing to choose from.
theorem output_of_shown_eq_nothing (h : r.shown = .nothing) : r.output tree = none ∧ r.pending = [] := by
  obtain ⟨frames, shown, context⟩ := r
  obtain rfl : shown = .nothing := h
  exact ⟨rfl, rfl⟩

-- A line that is shown leaves nothing to choose from.
theorem line_of_shown_eq_line {id : NodeId} (h : r.shown = .line id) :
    r.line? = some id ∧ r.isChoice = false ∧ r.pending = [] := by
  simp [line?, isChoice, pending, h]

-- A line that a reader comes to in a call and stops at: its gates are asked last of all and
-- agree, and there is something of it to see.
structure StopsAt (host : Host α κ σ) (tree : Tree α) (x : Reader κ × σ) (id : NodeId) (shown : Template α)
    (s' : σ) : Prop where
  line : ∃ node, tree.get? id = some node ∧ node.kind = .line shown
  agreed : ∃ before now answers, Unpaused host tree ({ x.1 with shown := .nothing }, x.2) (before, now) ∧
    (∃ frame below node, Faces tree before frame below id node) ∧
    host.ask x.1.context id (shown.args.filter host.isGate) now = (answers, s') ∧
    ∀ answer ∈ answers, answer.2 = true
  visible : ∃ t, shown.render host.render = .ok t ∧ t.allBlank = false

-- Where a reader stops at a line, the output is that line.
theorem StopsAt.output_eq {x : Reader κ × σ} {id : NodeId} {shown : Template α}
    (h : StopsAt host tree x id shown s) (hr : r.shown = .line id) : r.output tree = some (.line shown) := by
  obtain ⟨node, hget, hkind⟩ := h.line
  have htemplate : tree.template? id = some shown := Tree.template?_eq_some hget (by rw [hkind]; rfl)
  simp only [output, hr, htemplate, Option.map_some]

-- Options that are shown have a label each, and there is one at least.
theorem Placed.exists_output_of_choices (hr : Placed tree r) {ids : List NodeId} (h : r.shown = .choices ids) :
    ∃ labels, r.output tree = some (.choices labels) ∧ labels ≠ [] ∧ labels.length = r.pending.length ∧
      List.Forall₂ tree.Offers r.pending labels ∧ r.isChoice = true := by
  have hoffers : List.Forall₂ tree.Offers ids (ids.filterMap tree.template?) := hr.forall₂_offers h
  obtain ⟨hne, -⟩ := hr.choices h
  simp only [output, pending, isChoice, h]
  refine ⟨_, rfl, ?_, hoffers.length_eq.symm, hoffers, trivial⟩
  intro hnil
  rw [hnil, List.forall₂_nil_right_iff] at hoffers
  exact hne hoffers

-- A step that shows something has come to a line that passes, or to options.
theorem Steps.stopsAt_or_choices (htree : tree.Traversable) {x : Reader κ × σ}
    (hmoved : Unpaused host tree ({ x.1 with shown := .nothing }, x.2) (r, s))
    (h : Steps host tree r s (some .shown) r' s') :
    (∃ id shown, StopsAt host tree x id shown s' ∧ r'.shown = .line id) ∨ ∃ ids, r'.shown = .choices ids := by
  cases h with
  | @passed frame below id child shown _ _ now hfaces hkind htest hemitted =>
      have hid := htree.id_eq hfaces.get?_eq
      have hcontext : r.context = x.1.context := hmoved.context_eq
      rw [hid] at htest hemitted
      obtain ⟨_, hp, -⟩ | ⟨hp, -⟩ | ⟨t, hrender, hvisible, -, rfl⟩ := cases_of_emitted hemitted
      · cases hp
      · cases hp
      · rw [Template.testGates_eq_ask, hcontext, Prod.mk.injEq, List.all_eq_true] at htest
        obtain ⟨hagreed, rfl⟩ := htest
        exact .inl ⟨id, shown, ⟨⟨child, hfaces.get?_eq, hkind⟩,
          ⟨r, s, _, hmoved, ⟨frame, below, child, hfaces⟩, rfl, hagreed⟩, t, hrender, hvisible⟩, rfl⟩
  | @offered _ _ _ _ _ _ ids => exact .inr ⟨ids, rfl⟩

-- What a reader has to give after a call: where it has stopped to show something, a line whose
-- gates have let it pass in that call and that is not all blank, or a set of options with a label
-- for each pending node. When the session is over, when an option has been picked and after a
-- reset there is nothing. It is so with three fields that are written one by one, which hold at
-- any time what the reader stopped at.
theorem reachable_output_after_call {isGate : α → Bool} {document : Template α} {options : ParseOptions}
    {issues : List Issue} {tree : Tree α} (h : parse isGate document options = (issues, .ok tree))
    (host : Host α κ σ) {x : Fields κ} {s : σ} (hx : Fields.Reachable host tree (x, s)) :
    ∃ r : Reader κ, x = .ofReader r ∧ Reachable host tree (r, s) ∧
    (∀ moves, x.advance host tree moves s =
      (r.advance host tree moves s).map fun y => (y.1, .ofReader y.2.1, y.2.2)) ∧
    (∀ index, x.choose index = (r.choose index).map .ofReader) ∧
    x.reset tree = .ofReader (r.reset tree) ∧ x.output tree = r.output tree ∧
    (∀ moves x' s', x.advance host tree moves s = some (.shown, x', s') →
      (∃ id shown, x'.output tree = some (.line shown) ∧ x'.line? = some id ∧
        StopsAt host tree (r, s) id shown s' ∧ x'.isChoice = false ∧ x'.pending = []) ∨
      ∃ labels, x'.output tree = some (.choices labels) ∧ labels ≠ [] ∧
        labels.length = x'.pending.length ∧ List.Forall₂ tree.Offers x'.pending labels ∧
        x'.isChoice = true) ∧
    (∀ moves x' s', x.advance host tree moves s = some (.ended, x', s') →
      x'.output tree = none ∧ x'.pending = []) ∧
    (∀ index x', x.choose index = .ok x' → x'.output tree = none ∧ x'.pending = []) ∧
    (x.reset tree).output tree = none ∧ (x.reset tree).pending = [] := by
  have htree := Tree.traversable_of_parse h
  obtain ⟨r, rfl, hr⟩ := hx.exists_reader
  have hplaced : Placed tree r := hr.placed htree
  refine ⟨r, rfl, hr, fun _ => Fields.advance_ofReader _ s, Fields.choose_ofReader,
    Fields.reset_ofReader, Fields.output_ofReader, fun moves x' s' hx' => ?_, fun moves x' s' hx' => ?_,
    fun index x' hx' => ?_, rfl, rfl⟩
  · obtain ⟨r', hadvance, rfl⟩ := Fields.exists_advance hx'
    rw [Fields.output_ofReader]
    have hplaced' : Placed tree r' := placed_advance htree hplaced hadvance
    obtain ⟨r₁, s₁, hmoved, hlast⟩ := exists_unpaused_of_advance hadvance (by simp)
    rcases hlast.stopsAt_or_choices htree (x := (r, s)) hmoved with ⟨id, shown, hstops, hline⟩ | ⟨ids, hids⟩
    · obtain ⟨hid, hchoice, hpending⟩ := line_of_shown_eq_line hline
      exact .inl ⟨id, shown, hstops.output_eq hline, hid, hstops, hchoice, hpending⟩
    · exact .inr (hplaced'.exists_output_of_choices hids)
  · obtain ⟨r', hadvance, rfl⟩ := Fields.exists_advance hx'
    rw [Fields.output_ofReader]
    obtain ⟨r₁, s₁, hmoved, hlast⟩ := exists_unpaused_of_advance hadvance (by simp)
    exact output_of_shown_eq_nothing ((hlast.shown_eq_of_ne (by simp)).trans hmoved.shown_eq)
  · obtain ⟨r', hchoose, rfl⟩ := Fields.exists_choose hx'
    obtain ⟨ids, id, -, -, rfl⟩ := exists_of_choose hchoose
    exact ⟨rfl, rfl⟩

-- A gate that agrees the second time it is asked: the first line is passed over, the second one
-- is read, and then there is an option.
theorem reachable_output_after_call_hidden :
    let host : Host Nat Unit Nat := ⟨fun _ _ => .ok ['x'], fun _ => true, fun _ _ _ s => (s != 0, s + 1)⟩
    let gated : Template Nat := ⟨"\x7b0\x7d".toList, [7], [.placeholder ⟨0, none, none⟩]⟩
    ∃ (tree : Tree Nat) (x x' : Fields Unit),
      parse (fun _ => true) ⟨"\x7b0\x7d\n\x7b0\x7d\n> b".toList, [7], [.placeholder ⟨0, none, none⟩,
        .literal ['\n'], .placeholder ⟨0, none, none⟩, .literal "\n> b".toList]⟩ .default =
          ([], .ok tree) ∧
      (Fields.ofTree tree ()).advance host tree 9 0 = some (.shown, x, 2) ∧
      x.output tree = some (.line gated) ∧ StopsAt host tree (ofTree tree (), 0) 2 gated 2 ∧
      Fields.Reachable host tree (x, 2) ∧ x.advance host tree 9 2 = some (.shown, x', 2) ∧
      x'.pending = [3] ∧
      ∃ labels, x'.output tree = some (.choices labels) ∧ List.Forall₂ tree.Offers [3] labels := by
  intro host gated
  let tree : Tree Nat := ⟨#[⟨0, .scope [], 0, [1, 2, 3]⟩, ⟨1, .line gated, 0, []⟩,
    ⟨2, .line gated, 1, []⟩, ⟨3, .choice ⟨['b'], [], [.literal ['b']]⟩, 2, []⟩], 0⟩
  have h : parse (fun _ => true) ⟨"\x7b0\x7d\n\x7b0\x7d\n> b".toList, [7], [.placeholder ⟨0, none, none⟩,
      .literal ['\n'], .placeholder ⟨0, none, none⟩, .literal "\n> b".toList]⟩ .default =
        ([], .ok tree) := by
    decide +kernel
  have hline : (Fields.ofTree tree ()).advance host tree 9 0 =
      some (.shown, ⟨[⟨0, 2⟩], [], false, some 2, ()⟩, 2) := rfl
  have hoption : Fields.advance host tree 9 ⟨[⟨0, 2⟩], [], false, some 2, ()⟩ 2 =
      some (.shown, ⟨[⟨0, 3⟩], [3], true, none, ()⟩, 2) := rfl
  have hstart : Fields.Reachable host tree (.ofTree tree (), 0) := .start () 0
  have hx : Fields.Reachable host tree (⟨[⟨0, 2⟩], [], false, some 2, ()⟩, 2) :=
    .command hstart (.advance 9) rfl
  refine ⟨tree, _, _, h, hline, rfl, ?_, hx, hoption, rfl, ?_⟩
  · obtain ⟨r, hr, -, -, -, -, -, hshown, -⟩ := reachable_output_after_call h host hstart
    obtain ⟨id, shown, houtput, hid, hstops, -⟩ | ⟨labels, hlabels, -⟩ := hshown 9 _ _ hline
    · cases hid
      cases houtput
      rwa [← Fields.ofReader_inj (r := ofTree tree ()) hr] at hstops
    · cases hlabels
  · obtain ⟨r, -, -, -, -, -, -, hshown, -⟩ := reachable_output_after_call h host hx
    obtain ⟨id, shown, houtput, -⟩ | ⟨labels, hlabels, -, -, hoffers, -⟩ := hshown 9 _ _ hoption
    · cases houtput
    · exact ⟨labels, hlabels, hoffers⟩

end Reader

end Narrative
