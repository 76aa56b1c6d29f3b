import Narrative.Text.Basic

namespace Narrative.Text

variable {β γ ε : Type} {f g : β → Except ε Text} {row : List β}

-- What is shown for each of a row, one behind the other, up to the first that cannot be shown
def concatM (f : β → Except ε Text) (row : List β) : Except ε Text := (row.mapM f).map List.flatten

theorem concatM_nil (f : β → Except ε Text) : concatM f [] = .ok [] := rfl

theorem concatM_cons (f : β → Except ε Text) (x : β) (row : List β) :
    concatM f (x :: row) = do return (← f x) ++ (← concatM f row) := by
  rw [concatM, concatM, List.mapM_cons]
  cases f x with
  | error e => rfl
  | ok shown => cases row.mapM f <;> rfl

theorem concatM_singleton (f : β → Except ε Text) (x : β) : concatM f [x] = f x := by
  rw [concatM_cons, concatM_nil]
  cases f x with
  | error e => rfl
  | ok shown => exact congrArg Except.ok (List.append_nil shown)

theorem concatM_append (f : β → Except ε Text) (row more : List β) :
    concatM f (row ++ more) = do return (← concatM f row) ++ (← concatM f more) := by
  induction row with
  | nil =>
      rw [List.nil_append, concatM_nil]
      cases concatM f more <;> rfl
  | cons x row ih =>
      rw [List.cons_append, concatM_cons, concatM_cons, ih]
      cases f x with
      | error e => rfl
      | ok shown =>
          cases concatM f row with
          | error e => rfl
          | ok front =>
              cases concatM f more with
              | error e => rfl
              | ok back => exact congrArg Except.ok (List.append_assoc shown front back).symm

theorem concatM_map (f : β → Except ε Text) (h : γ → β) (row : List γ) :
    concatM f (row.map h) = concatM (fun x => f (h x)) row := by
  rw [concatM, List.mapM_map]
  rfl

theorem concatM_congr (h : ∀ x ∈ row, f x = g x) : concatM f row = concatM g row := by
  induction row with
  | nil => rfl
  | cons x row ih =>
      rw [concatM_cons, concatM_cons, h x List.mem_cons_self,
        ih fun other hother => h other (List.mem_cons_of_mem x hother)]

-- Characters show themselves.
theorem concatM_chars (t : Text) : concatM (fun c => (.ok [c] : Except ε Text)) t = .ok t := by
  induction t with
  | nil => rfl
  | cons c t ih => rw [concatM_cons, ih]; rfl

theorem exists_concatM (h : ∀ x ∈ row, ∃ shown, f x = .ok shown) : ∃ shown, concatM f row = .ok shown := by
  induction row with
  | nil => exact ⟨[], rfl⟩
  | cons x row ih =>
      obtain ⟨first, hfirst⟩ := h x List.mem_cons_self
      obtain ⟨rest, hrest⟩ := ih fun other hother => h other (List.mem_cons_of_mem x hother)
      exact ⟨first ++ rest, by rw [concatM_cons, hfirst, hrest]; rfl⟩

end Narrative.Text
