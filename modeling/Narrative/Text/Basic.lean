namespace Narrative

-- Text is a list of Unicode scalar values. Offsets into it count the bytes of
-- its UTF-8 form.
abbrev Text := List Char

namespace Text

def byteSize : Text → Nat
  | [] => 0
  | c :: t => c.utf8Size + byteSize t

-- The two parts of a text around a byte offset. There is none past the end, nor
-- inside a character.
def splitAtByte : Nat → Text → Option (Text × Text)
  | 0, t => some ([], t)
  | _ + 1, [] => none
  | n + 1, c :: t =>
    if c.utf8Size ≤ n + 1 then
      (splitAtByte (n + 1 - c.utf8Size) t).map fun parts => (c :: parts.1, parts.2)
    else
      none

-- The parts of a text between the occurrences of a separator, always one more
-- than there are occurrences
def splitOn (sep : Char) : Text → List Text
  | [] => [[]]
  | c :: t =>
    if c = sep then
      [] :: splitOn sep t
    else
      match splitOn sep t with
      | [] => [[c]]
      | part :: parts => (c :: part) :: parts

def lines (t : Text) : List Text := splitOn '\n' t

def dropEndWhile (p : Char → Bool) (t : Text) : Text := (t.reverse.dropWhile p).reverse

def stripPrefix? : Text → Text → Option Text
  | [], t => some t
  | _ :: _, [] => none
  | c :: cs, d :: t => if c = d then stripPrefix? cs t else none

-- Lexicographic order by scalar value, which is also the order of the UTF-8 bytes
def precedes : Text → Text → Bool
  | [], _ :: _ => true
  | _, [] => false
  | a :: as, b :: bs => a.toNat < b.toNat || (a == b && precedes as bs)

theorem byteSize_append (a b : Text) : byteSize (a ++ b) = byteSize a + byteSize b := by
  induction a with
  | nil => simp [byteSize]
  | cons c a ih => simp only [List.cons_append, byteSize, ih]; omega

theorem splitAtByte_byteSize (a b : Text) : splitAtByte (byteSize a) (a ++ b) = some (a, b) := by
  induction a with
  | nil => simp [byteSize, splitAtByte]
  | cons c a ih =>
    have hpos := c.utf8Size_pos
    obtain ⟨n, hn⟩ : ∃ n, byteSize (c :: a) = n + 1 :=
      ⟨c.utf8Size + byteSize a - 1, by simp only [byteSize]; omega⟩
    have hrest : n + 1 - c.utf8Size = byteSize a := by simp only [byteSize] at hn; omega
    have hle : c.utf8Size ≤ n + 1 := by simp only [byteSize] at hn; omega
    rw [hn, List.cons_append, splitAtByte, if_pos hle, hrest, ih]
    rfl

theorem splitAtByte_eq_some {n : Nat} {t a b : Text} (h : splitAtByte n t = some (a, b)) :
    t = a ++ b ∧ n = byteSize a := by
  induction t generalizing n a b with
  | nil =>
    cases n with
    | zero => simp only [splitAtByte, Option.some.injEq, Prod.mk.injEq] at h; simp [← h.1, ← h.2, byteSize]
    | succ n => simp [splitAtByte] at h
  | cons c t ih =>
    cases n with
    | zero => simp only [splitAtByte, Option.some.injEq, Prod.mk.injEq] at h; simp [← h.1, ← h.2, byteSize]
    | succ n =>
      rw [splitAtByte] at h
      split at h
      · obtain ⟨⟨a', b'⟩, hs, he⟩ := Option.map_eq_some_iff.1 h
        obtain ⟨rfl, hn⟩ := ih hs
        simp only [Prod.mk.injEq] at he
        obtain ⟨rfl, rfl⟩ := he
        refine ⟨rfl, ?_⟩
        simp only [byteSize]
        omega
      · simp at h

end Text

end Narrative
