import Mathlib.Data.Nat.Log
import Narrative.Proofs.Content.Numbers
import Narrative.Proofs.Number.Hexadecimal

namespace Narrative

namespace Numeral

-- A number has a digit for each power of ten up to it.
theorem length_ofNat (n : Nat) : (ofNat n).length = Nat.log 10 n + 1 := by
  have hne : (ofNat n).length ≠ 0 := by simp [ofNat]
  apply Nat.le_antisymm
  · exact (Nat.length_toDigits_le_iff (by decide) (Nat.succ_pos _)).2 (Nat.lt_pow_succ_log_self (by decide) n)
  · have hlt : n < 10 ^ (ofNat n).length :=
      (Nat.length_toDigits_le_iff (by decide) (Nat.pos_of_ne_zero hne)).1 le_rfl
    exact Nat.log_lt_of_lt_pow' hne hlt

-- Zeros in front change nothing.
theorem digitsValue_zeros_append (zeros : Nat) (ds : Text) :
    digitsValue (List.replicate zeros '0' ++ ds) = digitsValue ds := by
  rw [digitsValue, Nat.ofDigitChars_append, Nat.ofDigitChars_replicate_zero, Nat.mul_zero, digitsValue]

theorem IsDigits.zeros_append {ds : Text} (h : IsDigits ds) (zeros : Nat) :
    IsDigits (List.replicate zeros '0' ++ ds) := by
  refine ⟨List.append_ne_nil_of_right_ne_nil _ h.1, ?_⟩
  rw [List.forall_mem_append]
  refine ⟨fun c hc => ?_, h.2⟩
  rw [List.eq_of_mem_replicate hc]
  rfl

theorem readInt?_toInt_iff {i : Int64} {t : Text} :
    readInt? (2 ^ 63) t = some i.toInt ↔ Writes t i.toInt := by
  rw [readInt?_eq_some_iff (Nat.two_pow_pos 63)]
  exact and_iff_left ⟨i.le_toInt, i.toInt_lt⟩

-- A sign where it is needed, and digits of the absolute value
theorem writes_signed {i : Int} {ds : Text} (h : IsDigits ds) (hvalue : digitsValue ds = i.natAbs) :
    Writes (Binary64.signed (i < 0) ds) i := by
  rw [Binary64.signed]
  split
  · next hneg =>
    have hwrites : Writes ('-' :: ds) (-digitsValue ds) := .minus h
    have hi : -(digitsValue ds : Int) = i := by
      have := of_decide_eq_true hneg
      omega
    rwa [hi] at hwrites
  · next hneg =>
    have hwrites : Writes ds (digitsValue ds) := .bare h
    have hi : (digitsValue ds : Int) = i := by
      have := of_decide_eq_false (eq_false_of_ne_true hneg)
      omega
    rwa [hi] at hwrites

end Numeral

namespace Value

-- The formats that change how a whole number is shown
def Heeded (format : Text) : Prop :=
  format = ['X'] ∨ format = ['x'] ∨
    ∃ letter ∈ ['D', 'F'], ∃ n < Numeral.countBound, WritesWidth letter n format

theorem heeded_iff {format : Text} :
    Heeded format ↔
      format = ['X'] ∨ format = ['x'] ∨ ['D', 'F'].any (fun letter => (width? letter format).isSome) = true := by
  simp only [Heeded, List.any_eq_true, Option.isSome_iff_exists, width?_eq_some_iff]
  simp only [and_comm]

instance : DecidablePred Heeded := fun _ => decidable_of_iff _ heeded_iff.symm

variable (i : Int64) {format : Text}

theorem renderInt_of_not_heeded (h : ¬ Heeded format) :
    renderInt i (some format) = .ok (Numeral.ofInt i.toInt) := by
  simp only [heeded_iff, not_or, List.any_cons, List.any_nil, Bool.or_false, Bool.or_eq_true,
    Option.not_isSome_iff_eq_none] at h
  obtain ⟨hX, hx, hD, hF⟩ := h
  simp only [renderInt, if_neg hX, if_neg hx, hD, hF]

theorem renderInt_padded {width : Nat} (hformat : WritesWidth 'D' width format) (hwidth : width ≤ maxWidth) :
    renderInt i (some format) = .ok (renderPadded i width) := by
  have hbound : width < Numeral.countBound := Nat.lt_of_le_of_lt hwidth (by decide)
  have hX : format ≠ ['X'] := hformat.ne_singleton (by decide)
  have hx : format ≠ ['x'] := hformat.ne_singleton (by decide)
  simp only [renderInt, if_neg hX, if_neg hx, width?_eq_some_iff.2 ⟨hformat, hbound⟩]
  rw [withinWidth, if_neg (Nat.not_lt.2 hwidth)]

-- The padding stands between the sign and the digits.
theorem renderPadded_eq (width : Nat) :
    renderPadded i width = (if i.toInt < 0 then ['-'] else []) ++
      (List.replicate (width - (Numeral.ofNat i.toInt.natAbs).length) '0' ++ Numeral.ofNat i.toInt.natAbs) := by
  rw [renderPadded, padZeros, Binary64.signed]
  simp only [decide_eq_true_eq]
  split <;> rfl

theorem writes_renderPadded (width : Nat) : Numeral.Writes (renderPadded i width) i.toInt := by
  refine Numeral.writes_signed ((Numeral.isDigits_ofNat _).zeros_append _) ?_
  rw [padZeros, Numeral.digitsValue_zeros_append, Numeral.digitsValue_ofNat]

theorem hex_keeps_bits (capitals : Bool) :
    (∃ n, Numeral.readHex? (2 ^ 64) (Numeral.hex capitals i.toUInt64.toNat) = some n ∧
      Numeral.twosComplement n = i.toInt) ∧
    ((Numeral.hex capitals i.toUInt64.toNat).head? = some '0' →
      i = 0 ∧ Numeral.hex capitals i.toUInt64.toNat = ['0']) := by
  refine ⟨⟨_, Numeral.readHex?_hex i.toUInt64.toNat_lt, Numeral.twosComplement_toUInt64 i⟩, fun hhead => ?_⟩
  have hzero := Numeral.eq_zero_of_head?_hex hhead
  have hi : i = 0 := by
    apply Int64.toInt_inj.1
    rw [← Numeral.twosComplement_toUInt64, hzero]
    rfl
  refine ⟨hi, ?_⟩
  rw [hzero]
  cases capitals <;> rfl

-- Nothing of a whole number is lost in what is shown of it. In decimal it reads back as the same
-- number, with a format that is ignored, without one, and with zeros in front, which stand there
-- only to make up the width. In hexadecimal it reads back as the same 64 bits, without zeros in
-- front, and the two forms of it differ in case only.
theorem render_int_reads_back :
    (∃ t, (int i).render none = .ok t ∧ Numeral.readInt? (2 ^ 63) t = some i.toInt ∧
      ∀ format, ¬ Heeded format → (int i).render (some format) = .ok t) ∧
    (∀ width ≤ maxWidth, ∀ format, WritesWidth 'D' width format →
      ∃ sign digits, (int i).render (some format) = .ok (sign ++ digits) ∧
        Numeral.readInt? (2 ^ 63) (sign ++ digits) = some i.toInt ∧
        sign = (if i.toInt < 0 then ['-'] else []) ∧ Numeral.IsDigits digits ∧
        digits.length = max width (Nat.log 10 i.toInt.natAbs + 1) ∧
        ∃ zeros, digits = List.replicate zeros '0' ++ Numeral.ofNat i.toInt.natAbs) ∧
    ∃ capitals smalls, (int i).render (some ['X']) = .ok capitals ∧ (int i).render (some ['x']) = .ok smalls ∧
      (∀ t ∈ [capitals, smalls], (∃ n, Numeral.readHex? (2 ^ 64) t = some n ∧ Numeral.twosComplement n = i.toInt) ∧
        (t.head? = some '0' → i = 0 ∧ t = ['0'])) ∧
      smalls.map Char.toUpper = capitals ∧ capitals.map Char.toLower = smalls := by
  refine ⟨⟨Numeral.ofInt i.toInt, rfl, ?_, fun format => renderInt_of_not_heeded i⟩, ?_, ?_⟩
  · exact Numeral.readInt?_toInt_iff.2 (Numeral.writes_ofInt i.toInt)
  · intro width hwidth format hformat
    have hrender := renderInt_padded i hformat hwidth
    have hwrites := writes_renderPadded i width
    rw [renderPadded_eq] at hrender hwrites
    have hdigits := (Numeral.isDigits_ofNat i.toInt.natAbs).zeros_append
      (width - (Numeral.ofNat i.toInt.natAbs).length)
    refine ⟨_, _, hrender, Numeral.readInt?_toInt_iff.2 hwrites, rfl, hdigits, ?_, _, rfl⟩
    rw [List.length_append, List.length_replicate, Numeral.length_ofNat]
    omega
  · refine ⟨_, _, rfl, rfl, ?_, Numeral.map_toUpper_hex _, Numeral.map_toLower_hex _⟩
    exact List.forall_mem_cons.2 ⟨hex_keeps_bits i true, List.forall_mem_singleton.2 (hex_keeps_bits i false)⟩

-- The least number, which has no positive counterpart: 21 digits behind the sign, a format that is
-- no width, and the sign bit alone.
theorem render_int_reads_back_least :
    let i := Int64.minValue
    WritesWidth 'D' 21 "d+21".toList ∧ 21 ≤ maxWidth ∧ ¬ Heeded "D-3".toList ∧
      (int i).render (some "D-3".toList) = (int i).render none ∧
      (∃ digits, (int i).render (some "d+21".toList) = .ok ('-' :: digits) ∧ digits.length = 21 ∧
        Numeral.readInt? (2 ^ 63) ('-' :: digits) = some i.toInt) ∧
      ∃ t n, (int i).render (some ['X']) = .ok t ∧ Numeral.readHex? (2 ^ 64) t = some n ∧
        Numeral.twosComplement n = i.toInt ∧ t = "8000000000000000".toList := by
  intro i
  have hdigits : Numeral.IsDigits ['2', '1'] := ⟨by decide, List.all_eq_true.1 rfl⟩
  have hformat : WritesWidth 'D' (Numeral.digitsValue ['2', '1']) ['d', '+', '2', '1'] := .plus rfl hdigits
  have hwidth : 21 ≤ maxWidth := by decide
  have hheeded : ¬ Heeded "D-3".toList := by decide +kernel
  obtain ⟨⟨t, hnone, -, hignored⟩, hpadded, capitals, smalls, hcapitals, -, hhex, -⟩ := render_int_reads_back i
  refine ⟨hformat, hwidth, hheeded, (hignored _ hheeded).trans hnone.symm, ?_, ?_⟩
  · obtain ⟨sign, digits, hrender, hread, hsign, -, hlength, -⟩ := hpadded 21 hwidth _ hformat
    have hminus : sign = ['-'] := hsign
    rw [hminus] at hrender hread
    rw [← Numeral.length_ofNat] at hlength
    exact ⟨digits, hrender, hlength.trans (by decide +kernel), hread⟩
  · obtain ⟨⟨n, hread, hn⟩, -⟩ := hhex capitals List.mem_cons_self
    refine ⟨capitals, n, hcapitals, hread, hn, ?_⟩
    have hshown : (int i).render (some ['X']) = .ok "8000000000000000".toList := by decide +kernel
    exact Except.ok.inj (hcapitals.symm.trans hshown)

end Value

end Narrative
