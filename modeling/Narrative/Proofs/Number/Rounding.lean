import Mathlib.Algebra.Group.Nat.Defs
import Mathlib.Order.Lattice
import Narrative.Number.Binary64

namespace Narrative

section Quotient

variable {n d : Nat}

-- How far a number is from the multiple that it is rounded to
theorem natAbs_roundHalfEven_mul_sub (hd : 0 < d) :
    ((roundHalfEven n d * d : Nat) - n : Int).natAbs = min (n % d) (d - n % d) := by
  have hlt := Nat.mod_lt n hd
  have hn : n / d * d + n % d = n := by
    rw [Nat.mul_comm]
    exact Nat.div_add_mod n d
  have hnext : (n / d + 1) * d = n / d * d + d := Nat.succ_mul _ _
  unfold roundHalfEven
  dsimp only
  split
  · omega
  · split
    · omega
    · rcases Nat.mod_two_eq_zero_or_one (n / d) with heven | hodd
      · rw [heven, Nat.add_zero]
        omega
      · rw [hodd]
        omega

-- No multiple is nearer.
theorem roundHalfEven_nearest (hd : 0 < d) (j : Nat) :
    ((roundHalfEven n d * d : Nat) - n : Int).natAbs ≤ ((j * d : Nat) - n : Int).natAbs := by
  have hlt := Nat.mod_lt n hd
  have hn : n / d * d + n % d = n := by
    rw [Nat.mul_comm]
    exact Nat.div_add_mod n d
  have hnext : (n / d + 1) * d = n / d * d + d := Nat.succ_mul _ _
  rw [natAbs_roundHalfEven_mul_sub hd]
  rcases Nat.lt_or_ge (n / d) j with habove | hbelow
  · have hle : (n / d + 1) * d ≤ j * d := Nat.mul_le_mul_right d habove
    omega
  · have hle : j * d ≤ n / d * d := Nat.mul_le_mul_right d hbelow
    omega

theorem div_le_roundHalfEven (n d : Nat) : n / d ≤ roundHalfEven n d := by
  unfold roundHalfEven
  dsimp only
  split
  · exact le_rfl
  · split <;> omega

theorem roundHalfEven_le (n d : Nat) : roundHalfEven n d ≤ n / d + 1 := by
  unfold roundHalfEven
  dsimp only
  split
  · omega
  · split <;> omega

end Quotient

namespace Binary64

-- The whole numbers that doubles stand for: 53 binary digits, and zeros behind them
def Holds (n : Nat) : Prop := ∃ m e, m < 2 ^ 53 ∧ n = m * 2 ^ e

-- The last binary digit of a whole number that a double of its size has
def unit (n : Nat) : Nat := 2 ^ (n.log2 - 52)

def nearest (n : Nat) : Nat := roundHalfEven n (unit n) * unit n

theorem unit_pos (n : Nat) : 0 < unit n := Nat.two_pow_pos _

theorem lt_unit (n : Nat) : n < 2 ^ 53 * unit n := by
  have hlt : n < 2 ^ (n.log2 + 1) := Nat.lt_log2_self
  have hle : n.log2 + 1 ≤ 53 + (n.log2 - 52) := by omega
  rw [unit, ← Nat.pow_add]
  exact hlt.trans_le (Nat.pow_le_pow_right Nat.two_pos hle)

-- The numbers that have a unit above one have 53 digits before it.
theorem unit_eq_one_or (n : Nat) : unit n = 1 ∨ 0 < n.log2 - 52 ∧ 2 ^ 52 * unit n ≤ n := by
  rcases Nat.eq_zero_or_pos (n.log2 - 52) with hzero | hpos
  · exact .inl (by rw [unit, hzero, Nat.pow_zero])
  · refine .inr ⟨hpos, ?_⟩
    have hne : n ≠ 0 := by
      rintro rfl
      simp at hpos
    rw [unit, ← Nat.pow_add, Nat.add_sub_of_le (by omega)]
    exact Nat.log2_self_le hne

theorem holds_nearest (n : Nat) : Holds (nearest n) := by
  have hle : roundHalfEven n (unit n) ≤ 2 ^ 53 := by
    have hdiv : n / unit n < 2 ^ 53 := Nat.div_lt_of_lt_mul (by rw [Nat.mul_comm]; exact lt_unit n)
    have hround := roundHalfEven_le n (unit n)
    omega
  rcases Nat.lt_or_ge (roundHalfEven n (unit n)) (2 ^ 53) with hlt | hge
  · exact ⟨_, _, hlt, rfl⟩
  · refine ⟨2 ^ 52, n.log2 - 52 + 1, by decide, ?_⟩
    rw [nearest, Nat.le_antisymm hle hge, unit, Nat.pow_succ 2 (n.log2 - 52)]
    omega

-- No double is nearer.
theorem nearest_le {n other : Nat} (hother : Holds other) :
    ((nearest n : Int) - n).natAbs ≤ ((other : Int) - n).natAbs := by
  obtain ⟨m, e, hm, rfl⟩ := hother
  rcases Nat.lt_or_ge e (n.log2 - 52) with hlt | hge
  · -- numbers with a finer last digit end below those of this size
    have hbelow : m * 2 ^ e < 2 ^ 52 * unit n :=
      calc m * 2 ^ e
        _ < 2 ^ 53 * 2 ^ e := Nat.mul_lt_mul_of_pos_right hm (Nat.two_pow_pos e)
        _ = 2 ^ 52 * 2 ^ (e + 1) := by rw [Nat.pow_succ 2 e]; omega
        _ ≤ 2 ^ 52 * unit n := Nat.mul_le_mul_left _ (Nat.pow_le_pow_right Nat.two_pos hlt)
    have hleast : 2 ^ 52 * unit n ≤ n := by
      rcases unit_eq_one_or n with hone | ⟨-, hle⟩
      · exact absurd (Nat.pow_eq_one.1 hone) (by omega)
      · exact hle
    have hnearest := roundHalfEven_nearest (n := n) (unit_pos n) (2 ^ 52)
    rw [← nearest] at hnearest
    omega
  · have hmultiple : m * 2 ^ (e - (n.log2 - 52)) * unit n = m * 2 ^ e := by
      rw [unit, Nat.mul_assoc, ← Nat.pow_add, Nat.sub_add_cancel hge]
    rw [← hmultiple]
    exact roundHalfEven_nearest (unit_pos n) _

theorem nearest_eq_iff (n : Nat) : nearest n = n ↔ Holds n := by
  constructor
  · intro h
    rw [← h]
    exact holds_nearest n
  · intro h
    have hle := nearest_le (n := n) h
    omega

theorem nearest_pos {n : Nat} (h : 0 < n) : 0 < nearest n := by
  have hle : unit n ≤ n := by
    rcases unit_eq_one_or n with hone | ⟨-, hle⟩
    · rwa [hone]
    · omega
  have hquotient : 0 < n / unit n := Nat.div_pos hle (unit_pos n)
  exact Nat.mul_pos (hquotient.trans_le (div_le_roundHalfEven n (unit n))) (unit_pos n)

end Binary64

end Narrative
