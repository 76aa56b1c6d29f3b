import Mathlib.Algebra.Group.Nat.Defs
import Narrative.Ron.Token

namespace Narrative

namespace Numeral

-- A number and one more digit behind it
def hexStep (n : Nat) (c : Char) : Option Nat := (Ron.hexValue? c).map (16 * n + ·)

-- At least one hexadecimal digit in either case, nothing else, and a value below the bound
def readHex? (bound : Nat) (ds : Text) : Option Nat :=
  if ds = [] then none else (ds.foldlM hexStep 0).filter (· < bound)

-- The signed number that has the same 64 bits
def twosComplement (n : Nat) : Int := if n < 2 ^ 63 then n else n - (2 ^ 64 : Nat)

theorem hex_ne_nil (capitals : Bool) (n : Nat) : hex capitals n ≠ [] := by simp [hex]

variable {capitals : Bool} {n d : Nat}

theorem hex_of_lt (h : d < 16) :
    hex capitals d = [if capitals then d.digitChar.toUpper else d.digitChar] := by
  rw [hex, Nat.toDigits_of_lt_base h, List.map_singleton]

theorem hex_append_digit (hn : 0 < n) (hd : d < 16) :
    hex capitals (16 * n + d) = hex capitals n ++ hex capitals d := by
  simp only [hex]
  rw [← List.map_append, Nat.toDigits_append_toDigits (by decide) hn hd]

theorem hexValue?_digitChar (capitals : Bool) (h : d < 16) :
    Ron.hexValue? (if capitals then d.digitChar.toUpper else d.digitChar) = some d := by
  revert d
  cases capitals <;> decide

theorem foldlM_hexStep_hex (capitals : Bool) (n : Nat) : (hex capitals n).foldlM hexStep 0 = some n := by
  induction n using Nat.base_induction 16 (by decide) with
  | single d hd =>
      rw [hex_of_lt hd, List.foldlM_cons, hexStep, hexValue?_digitChar capitals hd]
      simp
  | digit n d hd hn ih =>
      rw [hex_append_digit hn hd, List.foldlM_append, ih, hex_of_lt hd]
      simp only [List.foldlM_cons, hexStep, hexValue?_digitChar capitals hd]
      simp

-- What is written in hexadecimal reads back, with capitals or without.
theorem readHex?_hex {bound : Nat} (h : n < bound) : readHex? bound (hex capitals n) = some n := by
  rw [readHex?, if_neg (hex_ne_nil capitals n), foldlM_hexStep_hex, Option.filter_some, if_pos (decide_eq_true h)]

-- The first digit is a zero only if it is the number zero.
theorem eq_zero_of_head?_hex (h : (hex capitals n).head? = some '0') : n = 0 := by
  induction n using Nat.base_induction 16 (by decide) with
  | single d hd =>
      rw [hex_of_lt hd, List.head?_cons, Option.some.injEq] at h
      have hvalue := hexValue?_digitChar capitals hd
      rw [h] at hvalue
      exact (Option.some.inj hvalue).symm
  | digit n d hd hn ih =>
      obtain ⟨c, cs, hcons⟩ := List.exists_cons_of_ne_nil (hex_ne_nil capitals n)
      rw [hex_append_digit hn hd, hcons, List.cons_append, List.head?_cons] at h
      rw [hcons, List.head?_cons] at ih
      exact absurd (ih h) (Nat.ne_of_gt hn)

-- The two ways to write a number differ in case only.
theorem map_toUpper_hex (n : Nat) : (hex false n).map Char.toUpper = hex true n := by
  simp [hex]

theorem map_toLower_hex (n : Nat) : (hex true n).map Char.toLower = hex false n := by
  induction n using Nat.base_induction 16 (by decide) with
  | single d hd =>
      rw [hex_of_lt hd, hex_of_lt hd]
      revert d
      decide
  | digit n d hd hn ih =>
      rw [hex_append_digit hn hd, hex_append_digit hn hd, List.map_append, ih, hex_of_lt hd, hex_of_lt hd]
      congr 1
      revert d
      decide

theorem twosComplement_toUInt64 (i : Int64) : twosComplement i.toUInt64.toNat = i.toInt := by
  have hsign : i.toInt = if 2 * i.toUInt64.toNat < 2 ^ 64 then (i.toUInt64.toNat : Int)
      else i.toUInt64.toNat - (2 ^ 64 : Nat) := BitVec.toInt_eq_toNat_cond i.toBitVec
  rw [hsign, twosComplement]
  split <;> split <;> omega

end Numeral

end Narrative
