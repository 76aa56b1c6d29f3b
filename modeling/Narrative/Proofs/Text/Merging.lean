import Mathlib.Data.List.Chain
import Narrative.Text.Basic

namespace Narrative.Text

variable {β : Type} {text? : β → Option Text} {x y : β} {parts : List β} {c : Char} {t : Text}

-- Texts among other parts are merged when none of them is empty and no two stand next to
-- each other.
structure Merged (text? : β → Option Text) (parts : List β) : Prop where
  nonempty : ∀ part ∈ parts, text? part ≠ some []
  apart : parts.IsChain fun a b => text? a = none ∨ text? b = none

namespace Merged

theorem nil : Merged text? [] := ⟨by simp, .nil⟩

theorem cons_other (h : Merged text? parts) (hx : text? x = none) : Merged text? (x :: parts) where
  nonempty := by
    intro part hmem
    rcases List.mem_cons.1 hmem with rfl | hmem
    · simp [hx]
    · exact h.nonempty part hmem
  apart := List.isChain_cons.2 ⟨fun _ _ => .inl hx, h.apart⟩

theorem cons_text (h : Merged text? parts) (hx : text? x = some (c :: t))
    (hhead : ∀ y ∈ parts.head?, text? y = none) : Merged text? (x :: parts) where
  nonempty := by
    intro part hmem
    rcases List.mem_cons.1 hmem with rfl | hmem
    · simp [hx]
    · exact h.nonempty part hmem
  apart := List.isChain_cons.2 ⟨fun y hy => .inr (hhead y hy), h.apart⟩

theorem tail (h : Merged text? (x :: parts)) : Merged text? parts where
  nonempty := fun part hmem => h.nonempty part (List.mem_cons_of_mem _ hmem)
  apart := h.apart.tail

-- What follows a text is none.
theorem head?_tail (h : Merged text? (x :: parts)) (hx : text? x = some t) :
    ∀ y ∈ parts.head?, text? y = none := by
  intro y hy
  rcases (List.isChain_cons.1 h.apart).1 y hy with hnone | hnone
  · simp [hx] at hnone
  · exact hnone

-- The text in front gets longer.
theorem extend (h : Merged text? (y :: parts)) (hy : text? y = some t) (hx : text? x = some (c :: t)) :
    Merged text? (x :: parts) :=
  h.tail.cons_text hx (h.head?_tail hy)

end Merged

end Narrative.Text
