import Narrative.Template.Item

namespace Narrative

-- Why a format text was refused. Offsets count bytes from its start.
inductive FormatError where
  | unclosed (offset : Nat)
  | unmatchedClose (offset : Nat)
  | invalidPlaceholder (text : Text)
  | indexOutOfRange (index count : Nat)
deriving DecidableEq, Repr

namespace FormatError

def message : FormatError → Text
  | unclosed offset => "unclosed placeholder at byte ".toList ++ Numeral.ofNat offset
  | unmatchedClose offset => "unmatched closing brace at byte ".toList ++ Numeral.ofNat offset
  | invalidPlaceholder t => "invalid placeholder '".toList ++ t ++ ['\'']
  | indexOutOfRange index count =>
    "placeholder index ".toList ++ Numeral.ofNat index ++ " out of range for ".toList ++
      Numeral.ofNat count ++ " arguments".toList

-- The same offence with so many bytes of text in front
def shift (bytes : Nat) : FormatError → FormatError
  | unclosed offset => unclosed (bytes + offset)
  | unmatchedClose offset => unmatchedClose (bytes + offset)
  | e => e

end FormatError

namespace Item

-- Characters at which the inside of a placeholder ends
def isDelimiter (c : Char) : Bool := c == '{' || c == '}' || c == '\n'

-- The inside of a placeholder and what follows its closing brace, if that brace
-- is the first delimiter
def closing? (t : Text) : Option (Text × Text) :=
  match t.dropWhile (!isDelimiter ·) with
  | '}' :: rest => some (t.takeWhile (!isDelimiter ·), rest)
  | _ => none

-- The first item of a text, and the rest
def first (c : Char) (t : Text) : Except FormatError (Item × Text) :=
  if c = '{' then
    match t with
    | '{' :: rest => .ok (brace .opening, rest)
    | _ =>
      match closing? t with
      | none => .error (.unclosed 0)
      | some (inner, rest) =>
        match Hole.ofText? inner with
        | none => .error (.invalidPlaceholder ('{' :: inner ++ ['}']))
        | some h => .ok (hole h, rest)
  else if c = '}' then
    match t with
    | '}' :: rest => .ok (brace .closing, rest)
    | _ => .error (.unmatchedClose 0)
  else
    .ok (char c, t)

theorem eq_of_closing? {t inner rest : Text} (h : closing? t = some (inner, rest)) :
    t = inner ++ '}' :: rest := by
  simp only [closing?] at h
  split at h
  · next r hd =>
    simp only [Option.some.injEq, Prod.mk.injEq] at h
    obtain ⟨rfl, rfl⟩ := h
    rw [← hd, List.takeWhile_append_dropWhile]
  · simp at h

-- Nothing is lost: the item is the text that it was read from.
theorem text_append_of_first {c : Char} {t rest : Text} {item : Item}
    (h : first c t = .ok (item, rest)) : item.text ++ rest = c :: t := by
  simp only [first] at h
  split at h
  · next hc =>
    subst hc
    split at h
    · simp only [Except.ok.injEq, Prod.mk.injEq] at h
      obtain ⟨rfl, rfl⟩ := h
      rfl
    · split at h
      · simp at h
      · next inner r hr =>
        split at h
        · simp at h
        · next hole hh =>
          simp only [Except.ok.injEq, Prod.mk.injEq] at h
          obtain ⟨rfl, rfl⟩ := h
          simp [text, Hole.inner_of_ofText? hh, eq_of_closing? hr]
  · split at h
    · next hc =>
      subst hc
      split at h
      · simp only [Except.ok.injEq, Prod.mk.injEq] at h
        obtain ⟨rfl, rfl⟩ := h
        rfl
      · simp at h
    · simp only [Except.ok.injEq, Prod.mk.injEq] at h
      obtain ⟨rfl, rfl⟩ := h
      rfl

theorem text_ne_nil (item : Item) : item.text ≠ [] := by
  cases item <;> simp [text]

theorem length_lt_of_first {c : Char} {t rest : Text} {item : Item}
    (h : first c t = .ok (item, rest)) : rest.length < (c :: t).length := by
  have hpos := List.length_pos_iff.2 item.text_ne_nil
  rw [← text_append_of_first h, List.length_append]
  omega

-- One more item in front of what was scanned
def before (item : Item) : Except FormatError (List Item) → Except FormatError (List Item)
  | .ok items => .ok (item :: items)
  | .error e => .error (e.shift (Text.byteSize item.text))

-- The items of a format text, or its first offence
def scan : Text → Except FormatError (List Item)
  | [] => .ok []
  | c :: t =>
    match _h : first c t with
    | .error e => .error e
    | .ok (item, rest) => before item (scan rest)
termination_by t => t.length
decreasing_by exact length_lt_of_first _h

-- Items print as the text that was scanned.
theorem print_of_scan {t : Text} {items : List Item} (h : scan t = .ok items) : print items = t := by
  fun_induction scan t generalizing items with
  | case1 =>
    cases h
    rfl
  | case2 c t e hf => simp at h
  | case3 c t item rest hf ih =>
    cases hs : scan rest with
    | error e => simp [hs, before] at h
    | ok more =>
      simp only [hs, before, Except.ok.injEq] at h
      subst h
      simp only [print, List.flatMap_cons] at ih ⊢
      rw [ih hs, text_append_of_first hf]

end Item

end Narrative
