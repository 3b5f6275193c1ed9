import Feloxi.Lib.Significands

/-!
# Feloxi.Lib.Casts

Casts between doubles and signed integers of 64 bits, both ways. Truncation toward zero leaves a
fraction of the sign of the number, and no fraction is left where the doubles are integers.
-/

namespace Feloxi.F64

/-- `i64 as f64`. -/
def ofI64 (z : Int) : F64 := .fin (z.sign * roundU64 z.natAbs)

/-! ### Truncation -/

theorem trunc_of_nonneg {q : ℚ} (h : 0 ≤ q) : trunc q = ⌊q⌋ := if_neg (not_lt.2 h)

theorem trunc_neg (q : ℚ) : trunc (-q) = -trunc q := by
  unfold trunc
  rcases lt_trichotomy q 0 with h | rfl | h
  · simp [h, h.le]
  · simp
  · simp [h, h.le]

theorem trunc_intCast (z : ℤ) : trunc z = z := by
  unfold trunc
  split
  · rw [← Int.cast_neg, Int.floor_intCast, neg_neg]
  · exact Int.floor_intCast z

theorem trunc_two_pow (n : Nat) : trunc (2 ^ n) = 2 ^ n := by
  have hcast : ((2 : ℚ) ^ n) = ((2 ^ n : ℤ) : ℚ) := by push_cast; rfl
  rw [hcast, trunc_intCast]

/-- What truncation drops from a number that is not negative. -/
theorem trunc_bounds {q : ℚ} (h : 0 ≤ q) : (trunc q : ℚ) ≤ q ∧ q < trunc q + 1 := by
  rw [trunc_of_nonneg h]
  exact ⟨Int.floor_le q, Int.lt_floor_add_one q⟩

/-- What truncation drops from a negative number. -/
theorem trunc_bounds_of_neg {q : ℚ} (h : q < 0) : q ≤ trunc q ∧ (trunc q : ℚ) < q + 1 := by
  have := trunc_bounds (neg_nonneg.2 h.le)
  rw [trunc_neg, Int.cast_neg] at this
  constructor <;> linarith

theorem abs_sub_trunc_lt_one (q : ℚ) : |q - trunc q| < 1 := by
  rw [abs_lt]
  rcases lt_or_ge q 0 with h | h
  · have := trunc_bounds_of_neg h
    constructor <;> linarith
  · have := trunc_bounds h
    constructor <;> linarith

theorem trunc_mono {p q : ℚ} (h : p ≤ q) : trunc p ≤ trunc q := by
  rcases lt_or_ge p 0 with hp | hp
  · rcases lt_or_ge q 0 with hq | hq
    · unfold trunc
      rw [if_pos hp, if_pos hq]
      exact neg_le_neg (Int.floor_mono (neg_le_neg h))
    · -- zero lies between them
      have hleft : trunc p < 1 := by
        have hlt : (trunc p : ℚ) < 1 := by
          have := (trunc_bounds_of_neg hp).2
          linarith
        exact_mod_cast hlt
      have hright : 0 ≤ trunc q := trunc_of_nonneg hq ▸ Int.floor_nonneg.2 hq
      omega
  · rw [trunc_of_nonneg hp, trunc_of_nonneg (hp.trans h)]
    exact Int.floor_mono h

theorem natAbs_trunc_le {q : ℚ} {n : Nat} (h : |q| ≤ n) : (trunc q).natAbs ≤ n := by
  have hbounds := abs_le.1 h
  have hlower := trunc_mono hbounds.1
  have hupper := trunc_mono hbounds.2
  rw [trunc_neg] at hlower
  have : trunc (n : ℚ) = n := trunc_intCast n
  omega

/-! ### Integers that are doubles -/

/-- A natural number that is a double becomes itself. -/
theorem roundU64_of_isDouble {n : Nat} (h : IsDouble n) : roundU64 n = n := by
  by_cases hlog : n.log2 ≤ 52
  · exact roundU64_of_log2 hlog
  · have hn : n ≠ 0 := by
      intro hzero
      simp [hzero] at hlog
    have hlarge : (2 : ℚ) ^ (52 + ((n.log2 - 52 : Nat) : ℤ)) ≤ |(n : ℚ)| := by
      have hexp : (52 : ℤ) + ((n.log2 - 52 : Nat) : ℤ) = (n.log2 : Nat) := by omega
      rw [hexp, zpow_natCast, abs_of_nonneg (Nat.cast_nonneg n)]
      exact_mod_cast Nat.log2_self_le hn
    obtain ⟨z, hz⟩ := h.exists_multiple hlarge
    have hdvd : spacing n ∣ n := by
      refine Int.natCast_dvd_natCast.1 ⟨z, ?_⟩
      rw [zpow_natCast] at hz
      have : ((n : ℤ) : ℚ) = ((z * spacing n : ℤ) : ℚ) := by
        rw [spacing]
        push_cast
        exact hz
      rw [mul_comm]
      exact_mod_cast this
    have hrest : n % spacing n = 0 := Nat.mod_eq_zero_of_dvd hdvd
    have := spacing_pos n
    simp [roundU64, hrest, this, Nat.div_mul_cancel hdvd]

/-- From 2^52 on every double is an integer. -/
theorem IsDouble.exists_int {q : ℚ} (h : IsDouble q) (hq : 2 ^ 52 ≤ |q|) : ∃ z : ℤ, q = z := by
  obtain ⟨z, hz⟩ := h.exists_multiple (k := 0) (by simpa using hq)
  exact ⟨z, by simpa using hz⟩

theorem IsDouble.abs {q : ℚ} (h : IsDouble q) : IsDouble |q| := by
  obtain ⟨m, e, hm, hlower, hupper, rfl⟩ := h
  refine ⟨|m|, e, by simpa using hm, hlower, hupper, ?_⟩
  rw [abs_mul, abs_of_pos (zpow_pos (two_pos : (0 : ℚ) < 2) e), Int.cast_abs]

theorem sign_mul_natAbs_cast (z : ℤ) : ((z.sign : ℤ) : ℚ) * (z.natAbs : ℚ) = z := by
  rw [← Int.cast_natCast, ← Int.cast_mul, Int.sign_mul_natAbs]

/-- The whole part of a double is a double. -/
theorem ofI64_trunc {q : ℚ} (h : IsDouble q) : ofI64 (trunc q) = .fin (trunc q) := by
  have hround : roundU64 (trunc q).natAbs = (trunc q).natAbs := by
    rcases lt_or_ge |q| (2 ^ 52) with hsmall | hlarge
    · refine roundU64_of_log2 ?_
      have hle : (trunc q).natAbs ≤ 2 ^ 52 := by
        refine natAbs_trunc_le (hsmall.le.trans ?_)
        norm_num
      rw [Nat.log2_eq_log_two]
      exact (Nat.log_mono_right hle).trans (by rw [Nat.log_pow Nat.one_lt_two])
    · obtain ⟨z, rfl⟩ := h.exists_int hlarge
      rw [trunc_intCast]
      refine roundU64_of_isDouble ?_
      have := h.abs
      rwa [← Int.cast_abs, Int.abs_eq_natAbs, Int.cast_natCast] at this
  rw [ofI64, hround, sign_mul_natAbs_cast]

/-! ### Saturation -/

theorem toI64_fin (q : ℚ) :
    toI64 (.fin q) = Max.max (-(2 ^ 63)) (Min.min (trunc q) (2 ^ 63 - 1)) := rfl

/-- Below 2^63 in size a cast only truncates. -/
theorem toI64_of_lt {q : ℚ} (h : |q| < 2 ^ 63) : toI64 (.fin q) = trunc q := by
  have hbounds := abs_lt.1 h
  have hlower := trunc_mono hbounds.1.le
  have hupper : trunc q < 2 ^ 63 := by
    rcases lt_or_ge q 0 with hq | hq
    · have hle := trunc_mono hq.le
      have hzero : trunc 0 = 0 := trunc_intCast 0
      omega
    · have := (trunc_bounds hq).1.trans_lt hbounds.2
      exact_mod_cast this
  rw [trunc_neg, trunc_two_pow] at hlower
  rw [toI64_fin]
  omega

/-- From 2^63 on a cast gives the largest integer, which becomes 2^63 again. -/
theorem ofI64_toI64_of_ge {q : ℚ} (h : 2 ^ 63 ≤ q) : ofI64 (toI64 (.fin q)) = .fin (2 ^ 63) := by
  have hle := trunc_mono h
  rw [trunc_two_pow] at hle
  have hcast : toI64 (.fin q) = 2 ^ 63 - 1 := by
    rw [toI64_fin]
    omega
  have hround : roundU64 (2 ^ 63 - 1) = 2 ^ 63 := by decide +kernel
  have hsign : ((2 : ℤ) ^ 63 - 1).sign = 1 := by decide
  have habs : ((2 : ℤ) ^ 63 - 1).natAbs = 2 ^ 63 - 1 := by decide
  rw [hcast, ofI64, hsign, habs, hround]
  norm_num

/-- Down to -2^63 a cast is exact, and it gives nothing smaller. -/
theorem ofI64_toI64_of_le {q : ℚ} (h : q ≤ -2 ^ 63) :
    ofI64 (toI64 (.fin q)) = .fin (-2 ^ 63) := by
  have hle := trunc_mono h
  rw [trunc_neg, trunc_two_pow] at hle
  have hcast : toI64 (.fin q) = -2 ^ 63 := by
    rw [toI64_fin]
    omega
  have hround : roundU64 (2 ^ 63) = 2 ^ 63 := by decide +kernel
  have hsign : (-(2 : ℤ) ^ 63).sign = -1 := by decide
  have habs : (-(2 : ℤ) ^ 63).natAbs = 2 ^ 63 := by decide
  rw [hcast, ofI64, hsign, habs, hround]
  norm_num

/-- The whole part of a double, as it is subtracted from it. -/
theorem ofI64_toI64 {q : ℚ} (h : IsDouble q) (hq : |q| < 2 ^ 63) :
    ofI64 (toI64 (.fin q)) = .fin (trunc q) := by
  rw [toI64_of_lt hq, ofI64_trunc h]

end Feloxi.F64
