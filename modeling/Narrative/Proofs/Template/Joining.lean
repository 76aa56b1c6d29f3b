import Narrative.Proofs.Template.Rendering

namespace Narrative

namespace Segment

-- One row of segments behind another. A literal that meets a literal at the seam becomes
-- one with it.
def join : List Segment → List Segment → List Segment
  | [], more => more
  | [literal t], literal u :: more => literal (t ++ u) :: more
  | segment :: segments, more => segment :: join segments more

theorem join_consChar (c : Char) (segments more : List Segment) :
    join (consChar c segments) more = consChar c (join segments more) := by
  cases segments with
  | nil =>
      cases more with
      | nil => rfl
      | cons next more => cases next <;> rfl
  | cons segment segments =>
      cases segment with
      | placeholder p => rfl
      | literal t =>
          cases segments with
          | cons next segments => rfl
          | nil =>
              cases more with
              | nil => rfl
              | cons next more => cases next <;> rfl

-- Items that stand one behind the other are shown so.
theorem ofItems_append (items more : List Item) :
    ofItems (items ++ more) = join (ofItems items) (ofItems more) := by
  induction items with
  | nil => rfl
  | cons item items ih =>
      rw [List.cons_append]
      cases item with
      | char c => rw [ofItems, ih, ofItems, join_consChar]
      | brace b => rw [ofItems, ih, ofItems, join_consChar]
      | hole h =>
          rw [ofItems, ih, ofItems]
          rfl

theorem signs_join (segments more : List Segment) :
    (join segments more).flatMap signs = segments.flatMap signs ++ more.flatMap signs := by
  fun_induction join segments more with
  | case1 more => rfl
  | case2 t u more => simp [signs]
  | case3 more segment segments hseam ih =>
      rw [List.flatMap_cons, ih, List.flatMap_cons, List.append_assoc]

theorem merged_ofText (t : Text) : Text.Merged text? (ofText t) := by
  cases t with
  | nil => exact .nil
  | cons c t => exact Text.Merged.nil.cons_text rfl (by simp)

theorem signs_ofText (t : Text) : (ofText t).flatMap signs = t.map .inl := by
  cases t with
  | nil => rfl
  | cons c t => exact List.append_nil _

end Segment

namespace Template

variable {α : Type} {a b : Text} {args : List α} {front back : Template α}

theorem ofFormat_append_ok (ha : ofFormat a args = .ok front) (hb : ofFormat b args = .ok back) :
    ofFormat (a ++ b) args = .ok ⟨a ++ b, args, Segment.join front.segments back.segments⟩ := by
  obtain ⟨items, hitems, rfl⟩ := ofFormat_eq_ok_iff.1 ha
  obtain ⟨more, hmore, rfl⟩ := ofFormat_eq_ok_iff.1 hb
  refine ofFormat_eq_ok_iff.2 ⟨items ++ more, hitems.append hmore, ?_⟩
  rw [Segment.ofItems_append]

-- The offence behind a text stays the first one, as far behind as the text is long.
theorem ofFormat_append_error {e : FormatError} (ha : ofFormat a args = .ok front)
    (hb : ofFormat b args = .error e) :
    ofFormat (a ++ b) args = .error (e.shift (Text.byteSize a)) := by
  obtain ⟨items, hitems, -⟩ := ofFormat_eq_ok_iff.1 ha
  rw [ofFormat_eq_error_iff] at hb ⊢
  rw [scan_append (scan_eq_ok_iff_splits.2 hitems), hb, Item.foldr_before_error, hitems.print_eq]

theorem ofFormat_escape (t : Text) (args : List α) :
    ofFormat (escape t) args = .ok ⟨escape t, args, Segment.ofText t⟩ := by
  obtain ⟨items, hitems, hsigns⟩ : ∃ items, Splits args.length (escape t) items ∧ _ :=
    exists_splits_escape t
  have hsegments : Segment.ofText t = Segment.ofItems items := by
    apply Segment.eq_of_signs (Segment.merged_ofText t) (Segment.merged_ofItems items)
    rw [Segment.signs_ofText, Segment.signs_ofItems, hsigns]
  exact ofFormat_eq_ok_iff.2 ⟨items, hitems, by rw [hsegments]⟩

theorem renderSegments_join (render : α → Option Text → Except RenderError Text) (args : List α)
    (segments more : List Segment) :
    renderSegments render args (Segment.join segments more) = do
      return (← renderSegments render args segments) ++ (← renderSegments render args more) := by
  rw [renderSegments_eq, Segment.signs_join, renderSigns_append, renderSegments_eq, renderSegments_eq]

-- Behind a text that makes a template, another text makes one exactly when it does so by
-- itself. The whole shows the two one behind the other, or is refused for what the text
-- behind is refused for. Escaped text makes a template of every text.
theorem ofFormat_append (args : List α) :
    (∀ a b front, ofFormat a args = .ok front →
      ((∃ t, ofFormat (a ++ b) args = .ok t) ↔ ∃ back, ofFormat b args = .ok back) ∧
      (∀ t back, ofFormat (a ++ b) args = .ok t → ofFormat b args = .ok back →
        t.format = a ++ b ∧ t.args = args ∧
        t.segments = Segment.join front.segments back.segments ∧
        ∀ render : α → Option Text → Except RenderError Text,
          t.render render = do return (← front.render render) ++ (← back.render render)) ∧
      ∀ e, ofFormat b args = .error e →
        ofFormat (a ++ b) args = .error (e.shift (Text.byteSize a))) ∧
    ∀ s, ∃ t, ofFormat (escape s) args = .ok t ∧ t.segments = (ofText s : Template α).segments := by
  constructor
  · intro a b front ha
    cases hb : ofFormat b args with
    | error e =>
        have hwhole := ofFormat_append_error ha hb
        refine ⟨by simp [hwhole], ?_, ?_⟩
        · intro t back ht hback
          cases hback
        · intro other hother
          cases hother
          exact hwhole
    | ok back =>
        have hwhole := ofFormat_append_ok ha hb
        refine ⟨by simp [hwhole], ?_, ?_⟩
        · intro t other ht hother
          cases hother
          rw [hwhole] at ht
          cases ht
          refine ⟨rfl, rfl, rfl, fun render => ?_⟩
          obtain ⟨items, -, rfl⟩ := ofFormat_eq_ok_iff.1 ha
          obtain ⟨more, -, rfl⟩ := ofFormat_eq_ok_iff.1 hb
          exact renderSegments_join render args _ _
        · intro e he
          cases he
  · intro s
    exact ⟨_, ofFormat_escape s args, rfl⟩

-- A character of two bytes and a brace in front of a literal, and in front of a brace that
-- stands alone
theorem ofFormat_append_seam :
    let a : Text := "é\x7b\x7b".toList
    let b : Text := "x\x7b0\x7d".toList
    ∃ front back t, ofFormat a [7] = .ok front ∧ ofFormat b [7] = .ok back ∧
      ofFormat (a ++ b) [7] = .ok t ∧ t.segments = Segment.join front.segments back.segments ∧
      t.segments = [.literal "é\x7bx".toList, .placeholder ⟨0, none, none⟩] ∧
      ofFormat (a ++ ['\x7d']) [7] = .error (.unmatchedClose 4) := by
  intro a b
  have ha : ofFormat a [7] = .ok ⟨a, [7], [.literal ['é', '\x7b']]⟩ := by decide +kernel
  have hb : ofFormat b [7] = .ok ⟨b, [7], [.literal ['x'], .placeholder ⟨0, none, none⟩]⟩ := by
    decide +kernel
  obtain ⟨hiff, hjoin, -⟩ := (ofFormat_append [7]).1 a b _ ha
  obtain ⟨t, ht⟩ := hiff.2 ⟨_, hb⟩
  obtain ⟨-, -, hsegments, -⟩ := hjoin t _ ht hb
  have hlone : ofFormat ['\x7d'] [7] = .error (.unmatchedClose 0) := by decide +kernel
  exact ⟨_, _, t, ha, hb, ht, hsegments, hsegments.trans (by decide),
    ((ofFormat_append [7]).1 a ['\x7d'] _ ha).2.2 _ hlone⟩

end Template

end Narrative
