import Narrative.Template.Basic

namespace Narrative

variable {α : Type}

-- Stands in text for one object
def marker : Char := '\uFFFC'

-- An object inside text, with the alignment and format that it is shown in
structure Inline (α : Type) where
  object : α
  alignment : Option Int
  format : Option Text
deriving DecidableEq, Repr

def Inline.render (render : α → Option Text → Except RenderError Text) (i : Inline α) :
    Except RenderError Text :=
  (render i.object i.format).map (Template.align i.alignment)

-- Text with objects in it: the n-th marker stands for the n-th of the contents.
-- Offsets count bytes of the text.
structure Compound (α : Type) where
  text : Text
  contents : List (Inline α)
deriving DecidableEq, Repr

inductive Piece (α : Type) where
  | text (t : Text)
  | content (i : Inline α)
deriving DecidableEq, Repr

namespace Compound

def empty : Compound α := ⟨[], []⟩

-- Markers written by others are no markers.
def stripMarkers (t : Text) : Text := t.filter (· ≠ marker)

def markerCount (t : Text) : Nat := t.count marker

-- There is no place for an object past the end or inside a character.
def insert? (c : Compound α) (offset : Nat) (i : Inline α) : Option (Compound α) :=
  (Text.splitAtByte offset c.text).map fun (front, back) =>
    ⟨front ++ marker :: back, c.contents.insertIdx (markerCount front) i⟩

def insertText? (c : Compound α) (offset : Nat) (t : Text) : Option (Compound α) :=
  (Text.splitAtByte offset c.text).map fun (front, back) =>
    { c with text := front ++ stripMarkers t ++ back }

def pushText (c : Compound α) (t : Text) : Compound α :=
  { c with text := c.text ++ stripMarkers t }

def pushContent (c : Compound α) (i : Inline α) : Compound α :=
  ⟨c.text ++ [marker], c.contents ++ [i]⟩

-- The first marker at or after the start, in a text that begins at the offset
def markerFrom? (start : Nat) : Nat → Text → Option Nat
  | _, [] => none
  | offset, c :: t =>
    if start ≤ offset ∧ c = marker then some offset else markerFrom? start (offset + c.utf8Size) t

def nextMarker? (c : Compound α) (start : Nat) : Option Nat := markerFrom? start 0 c.text

-- The object whose marker begins at the offset
def contentAt? (c : Compound α) (offset : Nat) : Option (Inline α) :=
  match Text.splitAtByte offset c.text with
  | some (front, d :: _) => if d = marker then c.contents[markerCount front]? else none
  | _ => none

-- The offset of every marker, in order
def markerOffsets : Nat → Text → List Nat
  | _, [] => []
  | offset, c :: t =>
    let others := markerOffsets (offset + c.utf8Size) t
    if c = marker then offset :: others else others

-- A character in front joins text that follows it.
def consChar (c : Char) : List (Piece α) → List (Piece α)
  | .text t :: pieces => .text (c :: t) :: pieces
  | pieces => .text [c] :: pieces

def piecesOf : Text → List (Inline α) → List (Piece α)
  | [], _ => []
  | c :: t, contents =>
    if c = marker then
      match contents with
      | i :: others => .content i :: piecesOf t others
      | [] => piecesOf t []
    else consChar c (piecesOf t contents)

-- Text and objects in reading order
def pieces (c : Compound α) : List (Piece α) := piecesOf c.text c.contents

def renderPieces (render : α → Option Text → Except RenderError Text) :
    List (Piece α) → Except RenderError Text
  | [] => .ok []
  | .text t :: pieces => (renderPieces render pieces).map (t ++ ·)
  | .content i :: pieces => do
    let shown ← i.render render
    let rest ← renderPieces render pieces
    return shown ++ rest

def render (render : α → Option Text → Except RenderError Text) (c : Compound α) :
    Except RenderError Text :=
  renderPieces render c.pieces

end Compound

end Narrative
