import Narrative.Text.Basic

namespace Narrative

-- The place of a node in its story
abbrev NodeId := Nat

-- Why an argument could not be written out
inductive RenderError where
  | formatTooWide (width : Nat)
  | missingArgument (index : Nat)
deriving DecidableEq, Repr

-- What a story needs to know about its arguments. Handles of type α stand for
-- objects: two uses of one handle are uses of the same object. What an object is
-- written as depends on the format alone. A gate is tested with the context κ of
-- the reader for a node of the story, and may remember the test in σ.
structure Host (α κ σ : Type) where
  render : α → Option Text → Except RenderError Text
  isGate : α → Bool
  test : α → κ → NodeId → σ → Bool × σ

end Narrative
