import Narrative.Content.Value
import Narrative.Proofs.Number.Rounding
import Narrative.Proofs.Template.Grammar

namespace Narrative

-- A letter in either case, and a numeral behind it, perhaps with a plus sign. No numeral is
-- zero.
inductive Value.WritesWidth (letter : Char) : Nat → Text → Prop
  | bare {head : Char} (h : head.toUpper = letter) : WritesWidth letter 0 [head]
  | digits {head : Char} {ds : Text} (h : head.toUpper = letter) (hdigits : Numeral.IsDigits ds) :
      WritesWidth letter (Numeral.digitsValue ds) (head :: ds)
  | plus {head : Char} {ds : Text} (h : head.toUpper = letter) (hdigits : Numeral.IsDigits ds) :
      WritesWidth letter (Numeral.digitsValue ds) (head :: '+' :: ds)

theorem Numeral.readNat?_eq_some_iff {bound n : Nat} {t : Text} :
    readNat? bound t = some n ↔
      (∃ ds, (t = ds ∨ t = '+' :: ds) ∧ IsDigits ds ∧ n = digitsValue ds) ∧ n < bound := by
  unfold readNat?
  split
  · next ds =>
    rw [readDigits?_eq_some_iff]
    constructor
    · rintro ⟨hdigits, hn, hlt⟩
      exact ⟨⟨ds, .inr rfl, hdigits, hn⟩, hlt⟩
    · rintro ⟨⟨other, rfl | he, hdigits, hn⟩, hlt⟩
      · exact absurd hdigits (not_isDigits_cons (by decide))
      · obtain rfl := (List.cons.inj he).2
        exact ⟨hdigits, hn, hlt⟩
  · next hplus =>
    rw [readDigits?_eq_some_iff]
    constructor
    · rintro ⟨hdigits, hn, hlt⟩
      exact ⟨⟨t, .inl rfl, hdigits, hn⟩, hlt⟩
    · rintro ⟨⟨ds, rfl | rfl, hdigits, hn⟩, hlt⟩
      · exact ⟨hdigits, hn, hlt⟩
      · exact absurd rfl (hplus ds)

namespace Value

theorem width?_eq_some_iff {letter : Char} {n : Nat} {format : Text} :
    width? letter format = some n ↔ WritesWidth letter n format ∧ n < Numeral.countBound := by
  constructor
  · intro h
    unfold width? at h
    split at h
    · next head rest =>
      split at h
      · next hhead =>
        split at h
        · next hrest =>
          obtain rfl := Option.some.inj h
          rw [hrest]
          exact ⟨.bare hhead, Nat.two_pow_pos 64⟩
        · obtain ⟨⟨ds, rfl | rfl, hdigits, rfl⟩, hlt⟩ := Numeral.readNat?_eq_some_iff.1 h
          · exact ⟨.digits hhead hdigits, hlt⟩
          · exact ⟨.plus hhead hdigits, hlt⟩
      · cases h
    · cases h
  · rintro ⟨hwrites, hlt⟩
    cases hwrites with
    | bare hhead => rw [width?, if_pos hhead, if_pos rfl]
    | digits hhead hdigits =>
        rw [width?, if_pos hhead, if_neg hdigits.1]
        exact Numeral.readNat?_eq_some_iff.2 ⟨⟨_, .inl rfl, hdigits, rfl⟩, hlt⟩
    | plus hhead hdigits =>
        rw [width?, if_pos hhead, if_neg (List.cons_ne_nil _ _)]
        exact Numeral.readNat?_eq_some_iff.2 ⟨⟨_, .inr rfl, hdigits, rfl⟩, hlt⟩

theorem WritesWidth.head_eq {letter : Char} {n : Nat} {format : Text} (h : WritesWidth letter n format) :
    ∃ head rest, format = head :: rest ∧ head.toUpper = letter := by
  cases h with
  | bare h | digits h | plus h => exact ⟨_, _, rfl, h⟩

theorem WritesWidth.ne_singleton {letter : Char} {n : Nat} {format : Text} (h : WritesWidth letter n format)
    {c : Char} (hc : c.toUpper ≠ letter) : format ≠ [c] := by
  rintro rfl
  obtain ⟨head, rest, he, hhead⟩ := h.head_eq
  rw [(List.cons.inj he).1] at hc
  exact hc hhead

end Value

-- A point and so many zeros, or nothing for none
def Decimal.zeros (places : Nat) : Text := if places = 0 then [] else '.' :: List.replicate places '0'

theorem Decimal.pointed_zero {digits : Text} (h : digits ≠ []) : pointed digits 0 = digits := by
  have hlength := List.length_pos_iff.2 h
  have hpadding : 0 + 1 - digits.length = 0 := by omega
  rw [pointed, hpadding, if_pos rfl]
  rfl

namespace Binary64

-- A whole number has no decimal places of its own, so that all of them are zeros.
theorem fixed_ofNat (negative : Bool) (n places : Nat) :
    (ofNat negative n).fixed places =
      signed negative (Numeral.ofNat (nearest n) ++ Decimal.zeros places) := by
  have hexponent : ¬ ((n.log2 - 52 : Nat) : Int) < 0 := by omega
  have hplaces : exactPlaces (n.log2 - 52 : Nat) places = 0 := by
    rw [exactPlaces]
    omega
  have hdigits : (Decimal.rounded (roundHalfEven n (Nat.pow 2 (n.log2 - 52))) (n.log2 - 52 : Nat) 0).digits =
      nearest n := by
    rw [Decimal.rounded, if_neg hexponent, Int.natAbs_natCast]
    exact Nat.mul_one _
  have hpointed := Decimal.pointed_zero (Numeral.isDigits_ofNat (nearest n)).1
  unfold ofNat fixed
  dsimp only
  rw [hplaces, hdigits, hpointed, Decimal.zeros, Nat.sub_zero]
  by_cases hzero : places = 0
  · simp [hzero]
  · simp [hzero]

-- The double nearest to a whole number, which is a whole number too
def nearestInt (i : Int) : Int := if i < 0 then -(nearest i.natAbs : Int) else nearest i.natAbs

theorem natAbs_nearestInt (i : Int) : (nearestInt i).natAbs = nearest i.natAbs := by
  unfold nearestInt
  split <;> omega

theorem nearestInt_neg_iff (i : Int) : nearestInt i < 0 ↔ i < 0 := by
  unfold nearestInt
  split
  · next hneg =>
    have hpos : 0 < nearest i.natAbs := nearest_pos (by omega)
    omega
  · next hneg => omega

theorem nearestInt_le (i : Int) {other : Int} (hother : Holds other.natAbs) :
    (nearestInt i - i).natAbs ≤ (other - i).natAbs := by
  have hnearest := nearest_le (n := i.natAbs) hother
  unfold nearestInt
  split <;> omega

theorem fixed_ofInt (i : Int) (places : Nat) :
    (ofInt i).fixed places = Numeral.ofInt (nearestInt i) ++ Decimal.zeros places := by
  rw [ofInt, fixed_ofNat, Numeral.ofInt, natAbs_nearestInt, signed]
  by_cases hneg : i < 0
  · simp [hneg, nearestInt_neg_iff]
  · simp [hneg, nearestInt_neg_iff]

end Binary64

-- A numeral reads back as the number that it was written for.
theorem Numeral.readInt?_ofInt {bound : Nat} {i : Int} (h : i.natAbs < bound) :
    readInt? bound (ofInt i) = some i :=
  (readInt?_eq_some_iff (by omega)).2 ⟨writes_ofInt i, by omega, by omega⟩

theorem Numeral.ofInt_injective : Function.Injective ofInt := by
  intro i other h
  have hread : readInt? (i.natAbs + other.natAbs + 1) (ofInt i) = some i := readInt?_ofInt (by omega)
  rw [h, readInt?_ofInt (by omega)] at hread
  exact (Option.some.inj hread).symm

namespace Value

theorem width?_eq_none {letter head : Char} {rest : Text} (h : head.toUpper ≠ letter) :
    width? letter (head :: rest) = none := if_neg h

-- With F and a numeral a whole number is shown as the double that is nearest to it.
theorem renderInt_fixed (i : Int64) {places : Nat} {format : Text} (hformat : WritesWidth 'F' places format)
    (hplaces : places ≤ maxWidth) :
    renderInt i (some format) =
      .ok (Numeral.ofInt (Binary64.nearestInt i.toInt) ++ Decimal.zeros places) := by
  have hbound : places < Numeral.countBound := Nat.lt_of_le_of_lt hplaces (by decide)
  have hwidth := width?_eq_some_iff.2 ⟨hformat, hbound⟩
  have hX : format ≠ ['X'] := hformat.ne_singleton (by decide)
  have hx : format ≠ ['x'] := hformat.ne_singleton (by decide)
  obtain ⟨head, rest, rfl, hhead⟩ := hformat.head_eq
  have hpadding : width? 'D' (head :: rest) = none := width?_eq_none (by rw [hhead]; decide)
  simp only [renderInt, if_neg hX, if_neg hx, hpadding, hwidth]
  rw [withinWidth, if_neg (Nat.not_lt.2 hplaces), Binary64.fixed_ofInt]

-- Whole numbers are shown exactly with decimal places if a double stands for them, and as the
-- nearest one that does if not.
theorem render_fixed_iff (i : Int64) {places : Nat} {format : Text} (hformat : WritesWidth 'F' places format)
    (hplaces : places ≤ maxWidth) :
    (∃ shown : Int, (int i).render (some format) = .ok (Numeral.ofInt shown ++ Decimal.zeros places) ∧
      Binary64.Holds shown.natAbs ∧
      ∀ other : Int, Binary64.Holds other.natAbs → (shown - i.toInt).natAbs ≤ (other - i.toInt).natAbs) ∧
    ((int i).render (some format) = .ok (Numeral.ofInt i.toInt ++ Decimal.zeros places) ↔
      Binary64.Holds i.toInt.natAbs) := by
  have hrender := renderInt_fixed i hformat hplaces
  refine ⟨⟨Binary64.nearestInt i.toInt, hrender, ?_, fun other => Binary64.nearestInt_le i.toInt⟩, ?_⟩
  · rw [Binary64.natAbs_nearestInt]
    exact Binary64.holds_nearest _
  · rw [render, hrender, Except.ok.injEq, List.append_left_inj, Numeral.ofInt_injective.eq_iff,
      ← Binary64.nearest_eq_iff, ← Binary64.natAbs_nearestInt]
    constructor
    · intro he
      rw [he]
    · intro he
      have hneg := Binary64.nearestInt_neg_iff i.toInt
      omega

-- The least number is a power of two, so that all of its digits are shown.
theorem render_fixed_iff_least :
    WritesWidth 'F' 2 "f2".toList ∧ 2 ≤ maxWidth ∧
      (int Int64.minValue).render (some "f2".toList) = .ok "-9223372036854775808.00".toList := by
  have hdigits : Numeral.IsDigits ['2'] := ⟨List.cons_ne_nil _ _, List.forall_mem_singleton.2 rfl⟩
  have hformat : WritesWidth 'F' (Numeral.digitsValue ['2']) ['f', '2'] := .digits rfl hdigits
  have hholds : Binary64.Holds Int64.minValue.toInt.natAbs := ⟨1, 63, by decide, by decide⟩
  have hrender := (render_fixed_iff Int64.minValue hformat (by decide)).2.2 hholds
  have hshown : Numeral.ofInt Int64.minValue.toInt ++ Decimal.zeros 2 = "-9223372036854775808.00".toList := by
    decide +kernel
  exact ⟨hformat, by decide, hrender.trans (congrArg Except.ok hshown)⟩

-- With no decimal places the first whole number that no double stands for is shown as the one
-- before it.
theorem render_fixed_misses_number :
    (int 9007199254740993).render (some "F0".toList) = .ok "9007199254740992".toList ∧
      (int 9007199254740993).render none = .ok "9007199254740993".toList := by
  decide +kernel

end Value

end Narrative
