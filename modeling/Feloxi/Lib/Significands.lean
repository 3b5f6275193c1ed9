import Feloxi.Lib.F64
import Mathlib.Algebra.Order.Field.Power
import Mathlib.Data.Nat.Log
import Mathlib.Tactic.Linarith
import Mathlib.Tactic.Positivity

/-!
# Feloxi.Lib.Significands

Which rationals are doubles, and how an integer of 64 bits becomes one: its 53 leading binary
digits are kept, and the rest is rounded to nearest, ties to even.

From `2 ^ (52 + k)` on, the doubles are multiples of `2 ^ k` (`IsDouble.exists_multiple`), so
that none lies strictly between an integer and what it is rounded down to.
-/

namespace Feloxi.F64

/-- A finite double: an integer of at most 53 binary digits, times a power of two. -/
def IsDouble (q : ℚ) : Prop :=
  ∃ m e : ℤ, |m| < 2 ^ 53 ∧ -1074 ≤ e ∧ e ≤ 971 ∧ q = m * (2 : ℚ) ^ e

theorem isDouble_zero : IsDouble 0 := ⟨0, 0, by simp⟩

/-- An integer of 53 binary digits, times a power of two that is itself an integer. -/
theorem isDouble_natCast_mul_pow {m e : Nat} (hm : m < 2 ^ 53) (he : e ≤ 971) :
    IsDouble ((m * 2 ^ e : Nat) : ℚ) := by
  refine ⟨m, e, ?_, by omega, by omega, by push_cast; rw [zpow_natCast]⟩
  rw [abs_of_nonneg (Int.natCast_nonneg m)]
  exact_mod_cast hm

/-- The doubles are the coarser the larger they are. -/
theorem IsDouble.exists_multiple {q : ℚ} (h : IsDouble q) {k : ℤ}
    (hk : (2 : ℚ) ^ (52 + k) ≤ |q|) : ∃ z : ℤ, q = z * (2 : ℚ) ^ k := by
  obtain ⟨m, e, hm, -, -, rfl⟩ := h
  have hpos : (0 : ℚ) < 2 ^ e := zpow_pos two_pos e
  have hlt : |(m : ℚ) * 2 ^ e| < 2 ^ (53 + e) := by
    rw [abs_mul, abs_of_pos hpos, zpow_add₀ two_ne_zero]
    refine mul_lt_mul_of_pos_right ?_ hpos
    exact_mod_cast hm
  have hexp : 52 + k < 53 + e := (zpow_lt_zpow_iff_right₀ one_lt_two).1 (hk.trans_lt hlt)
  -- what is left of the exponent makes the significand larger
  refine ⟨m * 2 ^ (e - k).toNat, ?_⟩
  have hsplit : (2 : ℚ) ^ e = 2 ^ (e - k).toNat * 2 ^ k := by
    rw [← zpow_natCast, ← zpow_add₀ two_ne_zero]
    congr 1
    omega
  push_cast
  rw [hsplit, mul_assoc]

/-! ### Integers of 64 bits -/

/-- The distance of neighbouring doubles around an integer. -/
def spacing (n : Nat) : Nat := 2 ^ (n.log2 - 52)

/-- An integer at 53 binary digits, ties to even. -/
def roundU64 (n : Nat) : Nat :=
  let q := n / spacing n
  let r := n % spacing n
  (if 2 * r < spacing n ∨ 2 * r = spacing n ∧ q % 2 = 0 then q else q + 1) * spacing n

/-- `u64 as f64`. -/
def ofU64 (n : Nat) : F64 := .fin (roundU64 n)

@[simp] theorem ofU64_nonNeg (n : Nat) : (ofU64 n).NonNeg := by
  simp [NonNeg, ofU64, zero, lt]

theorem spacing_pos (n : Nat) : 0 < spacing n := Nat.two_pow_pos _

/-- Below and above an integer are two neighbouring doubles, and it becomes one of them. -/
theorem roundU64_cases (n : Nat) :
    roundU64 n = n / spacing n * spacing n ∨ roundU64 n = (n / spacing n + 1) * spacing n := by
  unfold roundU64
  dsimp only
  split
  · exact .inl rfl
  · exact .inr rfl

theorem lt_ceil (n : Nat) : n < (n / spacing n + 1) * spacing n := by
  rw [Nat.mul_comm]
  exact Nat.lt_mul_div_succ n (spacing_pos n)

/-- What is not rounded up is rounded down. -/
theorem roundU64_of_le {n : Nat} (h : roundU64 n ≤ n) :
    roundU64 n = n / spacing n * spacing n := by
  rcases roundU64_cases n with hdown | hup
  · exact hdown
  · have := lt_ceil n
    omega

theorem two_pow_le_floor {n : Nat} (h : 53 ≤ n.log2) :
    2 ^ n.log2 ≤ n / spacing n * spacing n := by
  have hn : n ≠ 0 := by
    rintro rfl
    simp at h
  have hsplit : 2 ^ n.log2 = 2 ^ 52 * spacing n := by
    rw [spacing, ← pow_add]
    congr 1
    omega
  have hle : 2 ^ 52 * spacing n ≤ n := hsplit ▸ Nat.log2_self_le hn
  rw [hsplit]
  exact Nat.mul_le_mul_right _ ((Nat.le_div_iff_mul_le (spacing_pos n)).2 hle)

/-- Up to 53 digits nothing is lost. -/
theorem roundU64_of_log2 {n : Nat} (h : n.log2 ≤ 52) : roundU64 n = n := by
  have hone : spacing n = 1 := by rw [spacing, Nat.sub_eq_zero_of_le h, pow_zero]
  simp [roundU64, hone, Nat.mod_one]

/-- **No double lies between** an integer and what it is rounded down to. -/
theorem roundU64_lt_iff {n : Nat} (h : roundU64 n ≤ n) {x : ℚ} (hx : IsDouble x) :
    (roundU64 n : ℚ) < x ↔ (n : ℚ) < x := by
  have hcast : (roundU64 n : ℚ) ≤ n := by exact_mod_cast h
  refine ⟨fun hlt => ?_, hcast.trans_lt⟩
  by_contra hnot
  by_cases hlog : n.log2 ≤ 52
  · rw [roundU64_of_log2 hlog] at hlt
    exact hnot hlt
  · have hpow := two_pow_le_floor (n := n) (by omega)
    rw [roundU64_of_le h] at hlt
    have hspacing : (spacing n : ℚ) = 2 ^ ((n.log2 - 52 : Nat) : ℤ) := by
      rw [zpow_natCast, spacing]
      push_cast
      rfl
    have hlarge : (2 : ℚ) ^ (52 + ((n.log2 - 52 : Nat) : ℤ)) ≤ |x| := by
      have hexp : (52 : ℤ) + ((n.log2 - 52 : Nat) : ℤ) = (n.log2 : Nat) := by omega
      have hcast : ((2 ^ n.log2 : Nat) : ℚ) ≤ ((n / spacing n * spacing n : Nat) : ℚ) := by
        exact_mod_cast hpow
      rw [hexp, zpow_natCast]
      push_cast at hcast hlt ⊢
      exact (hcast.trans hlt.le).trans (le_abs_self x)
    obtain ⟨z, rfl⟩ := hx.exists_multiple hlarge
    rw [← hspacing] at hlt hnot
    have hpos : (0 : ℚ) < spacing n := by exact_mod_cast spacing_pos n
    -- a multiple of the spacing, strictly between two neighbouring ones
    have hlower : (((n / spacing n : Nat) : ℤ) : ℚ) < z := by
      rw [Nat.cast_mul] at hlt
      rw [Int.cast_natCast]
      exact lt_of_mul_lt_mul_right hlt hpos.le
    have hupper : (z : ℚ) < (((n / spacing n : Nat) + 1 : ℤ) : ℚ) := by
      have hceil : (n : ℚ) < ((n / spacing n : Nat) + 1 : ℚ) * spacing n := by
        exact_mod_cast lt_ceil n
      rw [Int.cast_add, Int.cast_natCast, Int.cast_one]
      exact lt_of_mul_lt_mul_right ((not_lt.1 hnot).trans_lt hceil) hpos.le
    have := Int.cast_lt.1 hlower
    have := Int.cast_lt.1 hupper
    omega

/-- An integer of 64 bits becomes a double. -/
theorem isDouble_roundU64 {n : Nat} (hn : n < 2 ^ 64) : IsDouble (roundU64 n) := by
  have hlog : n.log2 < 64 := by
    by_cases hzero : n = 0
    · simp [hzero]
    · exact (Nat.log2_lt hzero).2 hn
  have hdigits : n / spacing n < 2 ^ 53 := by
    rw [Nat.div_lt_iff_lt_mul (spacing_pos n), spacing, ← pow_add]
    exact Nat.lt_log2_self.trans_le (Nat.pow_le_pow_right two_pos (by omega))
  rcases roundU64_cases n with hround | hround
  · rw [hround]
    exact isDouble_natCast_mul_pow hdigits (by omega)
  · by_cases hcarry : n / spacing n + 1 < 2 ^ 53
    · rw [hround]
      exact isDouble_natCast_mul_pow hcarry (by omega)
    · -- the carry goes into a digit of its own
      have hfull : n / spacing n + 1 = 2 ^ 53 := by omega
      have hsplit : 2 ^ 53 * spacing n = 1 * 2 ^ (53 + (n.log2 - 52)) := by
        rw [one_mul, pow_add, spacing]
      rw [hround, hfull, hsplit]
      exact isDouble_natCast_mul_pow (by decide) (by omega)

/-- Rounding keeps the order. -/
theorem roundU64_mono {a b : Nat} (h : a ≤ b) : roundU64 a ≤ roundU64 b := by
  rcases Nat.lt_or_ge a.log2 b.log2 with hlog | hlog
  · -- a power of two lies between them
    have hupper : roundU64 a ≤ 2 ^ b.log2 := by
      by_cases hsmall : a.log2 ≤ 52
      · rw [roundU64_of_log2 hsmall]
        exact Nat.lt_log2_self.le.trans (Nat.pow_le_pow_right two_pos hlog)
      · have hdigits : a / spacing a < 2 ^ 53 := by
          rw [Nat.div_lt_iff_lt_mul (spacing_pos a), spacing, ← pow_add]
          exact Nat.lt_log2_self.trans_le (Nat.pow_le_pow_right two_pos (by omega))
        have hnext : 2 ^ 53 * spacing a ≤ 2 ^ b.log2 := by
          rw [spacing, ← pow_add]
          exact Nat.pow_le_pow_right two_pos (by omega)
        rcases roundU64_cases a with hround | hround
        · rw [hround]
          exact (Nat.mul_le_mul_right _ hdigits.le).trans hnext
        · rw [hround]
          exact (Nat.mul_le_mul_right _ hdigits).trans hnext
    by_cases hsmall : b.log2 ≤ 52
    · rw [roundU64_of_log2 hsmall]
      rw [roundU64_of_log2 (by omega)]
      exact h
    · have hlower := two_pow_le_floor (n := b) (by omega)
      rcases roundU64_cases b with hround | hround
      · omega
      · have := Nat.mul_le_mul_right (spacing b) (Nat.le_succ (b / spacing b))
        rw [Nat.succ_eq_add_one] at this
        omega
  · have hsame : a.log2 = b.log2 := by
      refine le_antisymm ?_ hlog
      rw [Nat.log2_eq_log_two, Nat.log2_eq_log_two]
      exact Nat.log_mono_right h
    have hspacing : spacing a = spacing b := by rw [spacing, spacing, hsame]
    have hdiv : a / spacing b ≤ b / spacing b := Nat.div_le_div_right h
    unfold roundU64
    dsimp only
    rw [hspacing]
    refine Nat.mul_le_mul_right _ ?_
    have ha := Nat.div_add_mod a (spacing b)
    have hb := Nat.div_add_mod b (spacing b)
    rcases Nat.lt_or_ge (a / spacing b) (b / spacing b) with hlt | hge
    · split <;> split <;> omega
    · -- with the same digits, the larger rest is the one rounded up
      have heq : a / spacing b = b / spacing b := by omega
      rw [heq] at ha ⊢
      split <;> split <;> omega

end Feloxi.F64
