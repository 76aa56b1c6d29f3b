import Narrative.Proofs.Content.Numbers
import Narrative.Tool.Play

namespace Narrative.Play

def quitWords : List Text := ["quit".toList, "exit".toList, "q".toList]

-- Lines that leave a session: one that is no text, the end of the input, and three words
def Quits (line : Option Text) : Prop := ∀ t, line = some t → t = [] ∨ Text.trim t ∈ quitWords

-- Lines that pick an option, by its index: a numeral from one to the number of options, perhaps
-- with a plus sign, between blanks
def Chooses (count : Nat) (line : Option Text) (index : Nat) : Prop :=
  ∃ t ds, line = some t ∧ (Text.trim t = ds ∨ Text.trim t = '+' :: ds) ∧ Numeral.IsDigits ds ∧
    Numeral.digitsValue ds = index + 1 ∧ index + 1 < Numeral.countBound ∧ index < count

-- What is chosen is there.
theorem Chooses.lt {count index : Nat} {line : Option Text} (h : Chooses count line index) : index < count := by
  obtain ⟨_, _, -, -, -, -, -, hlt⟩ := h
  exact hlt

theorem readNat?_of_mem_quitWords {word : Text} (h : word ∈ quitWords) :
    Numeral.readNat? Numeral.countBound word = none := by
  revert word
  decide

namespace Answer

variable {count index : Nat}

theorem ofWord_of_mem {word : Text} (h : word ∈ quitWords) : ofWord count word = .quit := by
  have hquit : word = "quit".toList ∨ word = "exit".toList ∨ word = "q".toList := by
    simpa only [quitWords, List.mem_cons, List.not_mem_nil, or_false] using h
  rw [ofWord, if_pos hquit]

theorem ofWord_eq_quit_iff {word : Text} : ofWord count word = .quit ↔ word ∈ quitWords := by
  refine ⟨fun h => ?_, ofWord_of_mem⟩
  unfold ofWord at h
  split at h
  · next hquit => simpa only [quitWords, List.mem_cons, List.not_mem_nil, or_false] using hquit
  · split at h
    · split at h <;> cases h
    · cases h

theorem ofWord_eq_pick_iff {word : Text} :
    ofWord count word = .pick index ↔
      Numeral.readNat? Numeral.countBound word = some (index + 1) ∧ index < count := by
  by_cases hquit : word ∈ quitWords
  · rw [ofWord_of_mem hquit, readNat?_of_mem_quitWords hquit]
    simp
  · have hword : ¬ (word = "quit".toList ∨ word = "exit".toList ∨ word = "q".toList) := by
      simpa only [quitWords, List.mem_cons, List.not_mem_nil, or_false] using hquit
    rw [ofWord, if_neg hword]
    cases Numeral.readNat? Numeral.countBound word with
    | none => simp
    | some n =>
        simp only [Option.some.injEq]
        split
        · next hn =>
          rw [pick.injEq]
          omega
        · simp only [reduceCtorEq, false_iff]
          omega

theorem ofInput_of_ne_nil {t : Text} (ht : t ≠ []) : ofInput count (some t) = ofWord count (Text.trim t) :=
  if_neg ht

theorem ofInput_eq_quit_iff {line : Option Text} : ofInput count line = .quit ↔ Quits line := by
  cases line with
  | none => simp [ofInput, Quits]
  | some t =>
      by_cases ht : t = []
      · simp [ofInput, Quits, ht]
      · rw [ofInput_of_ne_nil ht, ofWord_eq_quit_iff]
        simp only [Quits, Option.some.injEq, forall_eq', ht, false_or]

theorem ofInput_eq_pick_iff {line : Option Text} : ofInput count line = .pick index ↔ Chooses count line index := by
  constructor
  · intro h
    rcases line with _ | t
    · cases h
    · by_cases ht : t = []
      · rw [ht] at h
        cases h
      · rw [ofInput_of_ne_nil ht, ofWord_eq_pick_iff, Numeral.readNat?_eq_some_iff] at h
        obtain ⟨⟨⟨ds, htrim, hdigits, hvalue⟩, hbound⟩, hlt⟩ := h
        exact ⟨t, ds, rfl, htrim, hdigits, hvalue.symm, hbound, hlt⟩
  · rintro ⟨t, ds, rfl, htrim, hdigits, hvalue, hbound, hlt⟩
    have ht : t ≠ [] := by
      rintro rfl
      rcases htrim with rfl | he
      · exact hdigits.1 rfl
      · cases he
    rw [ofInput_of_ne_nil ht, ofWord_eq_pick_iff, Numeral.readNat?_eq_some_iff]
    exact ⟨⟨⟨ds, htrim, hdigits, hvalue.symm⟩, hbound⟩, hlt⟩

theorem pick_lt {line : Option Text} (h : ofInput count line = .pick index) : index < count :=
  (ofInput_eq_pick_iff.1 h).lt

theorem ofInput_eq_unclear {line : Option Text} (hquit : ¬ Quits line) (hpick : ∀ index, ¬ Chooses count line index) :
    ofInput count line = .unclear := by
  cases hanswer : ofInput count line with
  | quit => exact absurd (ofInput_eq_quit_iff.1 hanswer) hquit
  | pick index => exact absurd (ofInput_eq_pick_iff.1 hanswer) (hpick index)
  | unclear => rfl

end Answer

section Answered

variable {story : Story} {player : Player} {moves steps count : Nat} {s : Session} {out : Text}
  {line : Option Text} {rest : List (Option Text)}

theorem finish_ends {code : Nat} {err : Text} {lines : List (Option Text)} :
    Stretch.finish story player moves steps lines ⟨out, .ends code err⟩ = some ⟨code, out, err⟩ := by
  unfold Stretch.finish Stretch.finishNoting
  rfl

theorem finish_input_over :
    Stretch.finish story player moves steps [] ⟨out, .asks s count⟩ = some ⟨0, out, []⟩ := rfl

theorem finish_asks :
    Stretch.finish story player moves steps (line :: rest) ⟨out, .asks s count⟩ =
      (s.resume story player moves steps count line).bind fun next =>
        Stretch.finish story player moves steps rest (next.after out) := by
  rw [Stretch.finish, Stretch.finishNoting]
  exact Noted.result?_bind _ _

theorem finish_of_quits (h : Quits line) :
    Stretch.finish story player moves steps (line :: rest) ⟨out, .asks s count⟩ = some ⟨0, out, []⟩ := by
  have hresume : s.resume story player moves steps count line = some ⟨[], .ends 0 []⟩ := by
    rw [Session.resume, Session.resumeNoting, Answer.ofInput_eq_quit_iff.2 h]
    rfl
  rw [finish_asks, hresume, Option.bind_some, Stretch.after, finish_ends, List.append_nil]

theorem finish_of_unclear (hquit : ¬ Quits line) (hpick : ∀ index, ¬ Chooses count line index) :
    Stretch.finish story player moves steps (line :: rest) ⟨out, .asks s count⟩ =
      Stretch.finish story player moves steps rest ⟨out ++ (tryAgain count ++ prompt), .asks s count⟩ := by
  have hresume : s.resume story player moves steps count line = some ⟨tryAgain count ++ prompt, .asks s count⟩ := by
    rw [Session.resume, Session.resumeNoting, Answer.ofInput_eq_unclear hquit hpick]
  rw [finish_asks, hresume, Option.bind_some, Stretch.after]

theorem finish_of_chooses {index : Nat} (h : Chooses count line index) {reader : Reader Unit}
    (hchoose : s.reader.choose index = .ok reader) :
    Stretch.finish story player moves steps (line :: rest) ⟨out, .asks s count⟩ =
      (Session.go story player moves steps { s with reader := reader }).bind fun next =>
        Stretch.finish story player moves steps rest (next.after out) := by
  have hresume : s.resume story player moves steps count line =
      Session.go story player moves steps { s with reader := reader } := by
    rw [Session.resume, Session.resumeNoting, Answer.ofInput_eq_pick_iff.2 h]
    simp only [hchoose, Noted.result?_bind, Option.bind_some]
    rfl
  rw [finish_asks, hresume]

end Answered

end Narrative.Play
