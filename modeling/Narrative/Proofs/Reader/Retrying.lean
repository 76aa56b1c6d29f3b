import Mathlib.Data.List.Lex
import Mathlib.Order.WithBot
import Narrative.Proofs.Reader.Refusals
import Narrative.Proofs.Reader.Stack

namespace Narrative

variable {α κ σ : Type} {tree : Tree α}

namespace Reader

-- The places of frames, the outermost first. The end of the stack counts as further than any
-- place, so that a frame that is left is passed.
def places (frames : List Frame) : List (WithTop Nat) :=
  frames.reverse.map (fun frame => WithTop.some frame.next) ++ [⊤]

theorem places_cons (frame : Frame) (below : List Frame) :
    places (frame :: below) =
      below.reverse.map (fun frame => WithTop.some frame.next) ++ [WithTop.some frame.next, ⊤] := by
  rw [places, List.reverse_cons, List.map_append, List.append_assoc]
  rfl

theorem places_leave_lt (frame : Frame) (below : List Frame) : places (frame :: below) < places below := by
  rw [places_cons]
  exact List.append_left_lt (.rel (WithTop.coe_lt_top frame.next))

theorem places_past_lt (frame : Frame) (below : List Frame) {count : Nat} (hcount : 0 < count) :
    places (frame :: below) < places (frame.past count :: below) := by
  rw [places_cons, places_cons]
  exact List.append_left_lt (.rel (WithTop.coe_lt_coe.2 (Nat.lt_add_of_pos_right hcount)))

theorem places_enter_lt (frame opened : Frame) (below : List Frame) {count : Nat} (hcount : 0 < count) :
    places (frame :: below) < places (opened :: frame.past count :: below) := by
  rw [places_cons, places_cons, List.reverse_cons, List.map_append, List.append_assoc]
  exact List.append_left_lt (.rel (WithTop.coe_lt_coe.2 (Nat.lt_add_of_pos_right hcount)))

theorem places_unwind_lt (frame : Frame) (below : List Frame) :
    places (frame :: below) < places (unwind tree (frame :: below)) := by
  induction below generalizing frame with
  | nil =>
      have hleave := places_leave_lt frame []
      rw [unwind]
      split
      · exact hleave
      · exact hleave
  | cons other below ih =>
      have hleave := places_leave_lt frame (other :: below)
      rw [unwind]
      split
      · exact hleave
      · exact hleave.trans (ih other)

variable {host : Host α κ σ} {r r' : Reader κ} {s s' : σ}

-- Every step that does not pause gets on.
theorem Steps.places_lt (h : Steps host tree r s none r' s') : places r.frames < places r'.frames := by
  cases h with
  | left hframes =>
      rw [hframes]
      exact places_leave_lt _ _
  | lost hframes =>
      rw [hframes]
      exact places_past_lt _ _ Nat.one_pos
  | hidden h | silent h =>
      rw [h.frames_eq]
      exact places_past_lt _ _ Nat.one_pos
  | passed h =>
      rw [h.frames_eq]
      dsimp only
      split
      · exact places_past_lt _ _ Nat.one_pos
      · exact places_enter_lt _ _ _ Nat.one_pos
  | unoffered h hkind hrun =>
      rw [h.frames_eq]
      exact places_past_lt _ _ (h.length_run_pos hkind hrun)
  | returned h =>
      rw [h.frames_eq]
      exact places_unwind_lt _ _
  | called h =>
      rw [h.frames_eq]
      exact places_enter_lt _ _ _ Nat.one_pos

theorem Unpaused.places_le {x y : Reader κ × σ} (h : Unpaused host tree x y) :
    places x.1.frames ≤ places y.1.frames :=
  h.keeps host tree (P := fun r _ => places x.1.frames ≤ places r.frames)
    (fun hr hstep => hr.trans hstep.places_lt.le) le_rfl

-- Past a go-to that leads nowhere, which steps that do not pause have come to
inductive PassesUnresolved (host : Host α κ σ) (tree : Tree α) (target : Text) (x : Reader κ × σ) :
    Nat → Reader κ × σ → Prop
  | intro {r : Reader κ} {s : σ} {frame : Frame} {below : List Frame} {id : NodeId} {child : Node α}
      (hmoved : Unpaused host tree ({ x.1 with shown := .nothing }, x.2) (r, s))
      (h : Faces tree r frame below id child) (hkind : child.kind = .goTo target none) :
      PassesUnresolved host tree target x child.line ({ r with frames := frame.past 1 :: below }, s)

namespace PassesUnresolved

variable {target : Text} {line : Nat} {x y : Reader κ × σ}

theorem places_lt (h : PassesUnresolved host tree target x line y) :
    places x.1.frames < places y.1.frames := by
  cases h with
  | @intro r s frame below id child hmoved hfaces =>
      have hle : places x.1.frames ≤ places r.frames := hmoved.places_le
      rw [hfaces.frames_eq] at hle
      exact hle.trans_lt (places_past_lt frame below Nat.one_pos)

theorem shown_eq (h : PassesUnresolved host tree target x line y) : y.1.shown = .nothing := by
  cases h with
  | intro hmoved => exact hmoved.shown_eq

end PassesUnresolved

-- A run is refused at a go-to that leads nowhere, and only there.
theorem Steps.passesUnresolved {x : Reader κ × σ} {e : ReaderError}
    (hmoved : Unpaused host tree ({ x.1 with shown := .nothing }, x.2) (r, s))
    (h : Steps host tree r s (some (.refused e)) r' s') :
    ∃ target line, e = .unresolvedGoTo target line ∧ PassesUnresolved host tree target x line (r', s') := by
  cases h with
  | passed _ _ _ hemitted => exact absurd hemitted emitted_ne_refused
  | unresolved h hkind => exact ⟨_, _, rfl, .intro hmoved h hkind⟩

-- What a call is refused for, and what it has done then
theorem cases_of_refusal? {c : Command κ σ} {x : Reader κ × σ} {e : ReaderError}
    (h : c.refusal? host tree x = some e) :
    ∃ y, c.run host tree x = some y ∧
      (y = x ∧ (∀ target line, e ≠ .unresolvedGoTo target line) ∨
        ∃ target line, e = .unresolvedGoTo target line ∧ PassesUnresolved host tree target x line y) := by
  obtain ⟨r, s⟩ := x
  cases c with
  | advance moves =>
      simp only [Command.refusal?] at h
      split at h
      · next e' y hadvance =>
        cases h
        refine ⟨y, by rw [Command.run, hadvance, Option.map_some], ?_⟩
        rcases advance_cases hadvance with ⟨-, he, rfl, rfl⟩ | ⟨-, hrun⟩
        · cases he
          exact .inl ⟨rfl, fun target line he => ReaderError.noConfusion he⟩
        · obtain ⟨r₁, s₁, hmoved, hlast⟩ := exists_unpaused_of_run host tree hrun
          exact .inr (hlast.passesUnresolved hmoved)
      · cases h
  | choose index =>
      simp only [Command.refusal?] at h
      split at h
      · next e' hchoose =>
        cases h
        refine ⟨(r, s), by rw [Command.run, hchoose], .inl ⟨rfl, ?_⟩⟩
        rintro target line rfl
        exact choose_ne_unresolved hchoose
      · cases h
  | reset | context now | gates change => cases h

-- A call that is refused leaves all as it was, unless it has come to a go-to that leads
-- nowhere. Then it has always moved on, nothing is shown any more, and the next call goes on
-- behind the go-to.
theorem refused_call_moves_past_unresolved {c : Command κ σ} {x : Reader κ × σ} {e : ReaderError}
    (h : c.refusal? host tree x = some e) :
    ∃ y, c.run host tree x = some y ∧
      (y.1.frames = x.1.frames ↔ ∀ target line, e ≠ .unresolvedGoTo target line) ∧
      ((∀ target line, e ≠ .unresolvedGoTo target line) → y = x) ∧
      ∀ target line, e = .unresolvedGoTo target line →
        PassesUnresolved host tree target x line y ∧ y.1.output tree = none ∧
          ∀ moves, y.1.advance host tree moves y.2 = run host tree moves y.1 y.2 := by
  obtain ⟨y, hrun, ⟨rfl, he⟩ | ⟨target, line, rfl, hpasses⟩⟩ := cases_of_refusal? h
  · exact ⟨y, hrun, iff_of_true rfl he, fun _ => rfl,
      fun target line hunresolved => absurd hunresolved (he target line)⟩
  · have hmoved : y.1.frames ≠ x.1.frames := by
      intro hframes
      exact hpasses.places_lt.ne (by rw [hframes])
    have hunresolved :
        ¬ ∀ other number, ReaderError.unresolvedGoTo target line ≠ .unresolvedGoTo other number :=
      fun hnot => hnot target line rfl
    refine ⟨y, hrun, iff_of_false hmoved hunresolved, fun hnot => absurd hnot hunresolved, ?_⟩
    intro other number he
    cases he
    obtain ⟨⟨frames, shown, context⟩, s⟩ := y
    obtain rfl : shown = .nothing := hpasses.shown_eq
    exact ⟨hpasses, rfl, fun moves => rfl⟩

-- A go-to below an option that has been chosen
theorem refused_call_moves_past_unresolved_below_option :
    let host : Host Nat Unit Unit := ⟨fun _ _ => .ok [], fun _ => false, fun _ _ _ s => (true, s)⟩
    ∃ (tree : Tree Nat) (y : Reader Unit × Unit),
      parse (fun _ => false) ⟨"> a\n\t-> X\nb".toList, [], []⟩ .default =
        ([.ofFault 1 "\t-> X".toList (.unknownScope ['X'])], .ok tree) ∧
      Command.run host tree (.advance 9) (⟨[⟨1, 0⟩, ⟨0, 1⟩], .nothing, ()⟩, ()) = some y ∧
      y.1.frames ≠ [⟨1, 0⟩, ⟨0, 1⟩] ∧
      PassesUnresolved host tree ['X'] (⟨[⟨1, 0⟩, ⟨0, 1⟩], .nothing, ()⟩, ()) 1 y := by
  intro host
  let tree : Tree Nat := ⟨#[⟨0, .scope [], 0, [1, 3]⟩, ⟨1, .choice ⟨['a'], [], [.literal ['a']]⟩, 0, [2]⟩,
    ⟨2, .goTo ['X'] none, 1, []⟩, ⟨3, .line ⟨['b'], [], [.literal ['b']]⟩, 2, []⟩], 0⟩
  have h : parse (fun _ => false) ⟨"> a\n\t-> X\nb".toList, [], []⟩ .default =
      ([.ofFault 1 "\t-> X".toList (.unknownScope ['X'])], .ok tree) := by
    decide +kernel
  have hrefusal : Command.refusal? host tree (.advance 9) (⟨[⟨1, 0⟩, ⟨0, 1⟩], .nothing, ()⟩, ()) =
      some (.unresolvedGoTo ['X'] 1) := rfl
  obtain ⟨y, hrun, hiff, -, hpasses⟩ := refused_call_moves_past_unresolved hrefusal
  exact ⟨tree, y, h, hrun, fun hframes => hiff.1 hframes ['X'] 1 rfl, (hpasses ['X'] 1 rfl).1⟩

-- The line that was shown is forgotten when the next call is refused, and the call after it
-- shows what stands behind the go-to.
theorem retry_shows_line_behind_unresolved :
    let host : Host Nat Unit Unit := ⟨fun _ _ => .ok [], fun _ => false, fun _ _ _ s => (true, s)⟩
    ∃ (tree : Tree Nat) (x y z : Reader Unit × Unit),
      parse (fun _ => false) ⟨"first\n-> Nowhere\nsecond".toList, [], []⟩ .default =
        ([.ofFault 1 "-> Nowhere".toList (.unknownScope "Nowhere".toList)], .ok tree) ∧
      Reachable host tree x ∧ x.1.line? = some 1 ∧
      x.1.advance host tree 9 x.2 = some (.refused (.unresolvedGoTo "Nowhere".toList 1), y) ∧
      y.1.frames ≠ x.1.frames ∧ y.1.line? = none ∧
      y.1.advance host tree 9 y.2 = some (.shown, z) ∧ z.1.line? = some 3 := by
  intro host
  let tree : Tree Nat := ⟨#[⟨0, .scope [], 0, [1, 2, 3]⟩,
    ⟨1, .line ⟨"first".toList, [], [.literal "first".toList]⟩, 0, []⟩,
    ⟨2, .goTo "Nowhere".toList none, 1, []⟩,
    ⟨3, .line ⟨"second".toList, [], [.literal "second".toList]⟩, 2, []⟩], 0⟩
  have h : parse (fun _ => false) ⟨"first\n-> Nowhere\nsecond".toList, [], []⟩ .default =
      ([.ofFault 1 "-> Nowhere".toList (.unknownScope "Nowhere".toList)], .ok tree) := by
    decide +kernel
  refine ⟨tree, (⟨[⟨0, 1⟩], .line 1, ()⟩, ()), (⟨[⟨0, 2⟩], .nothing, ()⟩, ()),
    (⟨[⟨0, 3⟩], .line 3, ()⟩, ()), h, ?_⟩
  have hreachable : Reachable host tree (⟨[⟨0, 1⟩], .line 1, ()⟩, ()) :=
    .command (.start () ()) (.advance 9) rfl
  exact ⟨hreachable, rfl, rfl, by decide, rfl, rfl, rfl⟩

end Reader

end Narrative
