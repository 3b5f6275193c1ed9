import Feloxi.Alerting.Stats
import Feloxi.Lib.Finite
import Mathlib.Algebra.Order.Field.Basic

/-!
# Feloxi.Alerting.Spikes

The error spike factor as a number (`spikeRatio`): where it lies, and which way it moves
with the counts. Its three branches (too few samples, no baseline, a baseline) are ordered
like the answers they give, so the bounds hold across them.

A double hides a division by zero: the infinity it gives passes the cap. That none is made
is said of the function with its divisions checked (`errorSpikeFactorChecked`).
-/

namespace Feloxi.Alerting

/-- Division that refuses a zero. -/
def checkedDiv (a b : F64) : Option F64 := if b = .zero then none else some (a.div b)

/-- `error_spike_factor`, its divisions checked. -/
def errorSpikeFactorChecked
    (currentTotal currentFailures baselineTotal baselineFailures : Nat) : Option Spike :=
  if currentTotal < minSpikeSamples then
    some .default
  else do
    let currentRate ← checkedDiv (.ofNat currentFailures) (.ofNat currentTotal)
    if baselineTotal = 0 then
      return ⟨if currentFailures > 0 then spikeFactorCap else .zero, currentRate, .zero⟩
    else
      let baselineRate ← checkedDiv (.ofNat baselineFailures) (.ofNat baselineTotal)
      let floor ← checkedDiv (.fin (1 / 2)) (.ofNat baselineTotal)
      let ratio ← checkedDiv currentRate (baselineRate.max floor)
      return ⟨ratio.min spikeFactorCap, currentRate, baselineRate⟩

/-- The baseline rate, floored at half a failure. -/
def effectiveRate (baselineTotal baselineFailures : Nat) : ℚ :=
  max (baselineFailures / baselineTotal) (1 / 2 / baselineTotal)

/-- The factor as a number. -/
def spikeRatio (currentTotal currentFailures baselineTotal baselineFailures : Nat) : ℚ :=
  if currentTotal < minSpikeSamples then 0
  else if baselineTotal = 0 then if currentFailures > 0 then 999 else 0
  else
    min (currentFailures / currentTotal / effectiveRate baselineTotal baselineFailures) 999

variable {currentTotal currentFailures baselineTotal baselineFailures : Nat}

theorem effectiveRate_pos (h : baselineTotal ≠ 0) (baselineFailures : Nat) :
    0 < effectiveRate baselineTotal baselineFailures := by
  have htotal : (0 : ℚ) < baselineTotal := Nat.cast_pos.2 (Nat.pos_of_ne_zero h)
  exact (div_pos (by norm_num) htotal).trans_le (le_max_right _ _)

theorem effectiveRate_mono {baselineFailures' : Nat} (h : baselineFailures ≤ baselineFailures') :
    effectiveRate baselineTotal baselineFailures ≤ effectiveRate baselineTotal baselineFailures' :=
  max_le_max (div_le_div_of_nonneg_right (Nat.cast_le.2 h) (Nat.cast_nonneg _)) le_rfl

/-! ### The branches -/

theorem errorSpikeFactor_of_few (h : currentTotal < minSpikeSamples)
    (currentFailures baselineTotal baselineFailures : Nat) :
    errorSpikeFactor currentTotal currentFailures baselineTotal baselineFailures = .default := by
  rw [errorSpikeFactor, if_pos h]

theorem errorSpikeFactor_of_empty (h : ¬ currentTotal < minSpikeSamples)
    (currentFailures baselineFailures : Nat) :
    errorSpikeFactor currentTotal currentFailures 0 baselineFailures =
      ⟨.fin (if currentFailures > 0 then 999 else 0), .fin (currentFailures / currentTotal),
        .zero⟩ := by
  have htotal : (currentTotal : ℚ) ≠ 0 := Nat.cast_ne_zero.2 fun hzero => h (hzero ▸ by decide)
  rw [errorSpikeFactor, if_neg h]
  simp only [F64.ofNat, F64.fin_div htotal, if_true]
  split
  · rfl
  · rfl

theorem errorSpikeFactor_of_baseline (h : ¬ currentTotal < minSpikeSamples)
    (hbaseline : baselineTotal ≠ 0) (currentFailures baselineFailures : Nat) :
    errorSpikeFactor currentTotal currentFailures baselineTotal baselineFailures =
      ⟨.fin (min (currentFailures / currentTotal / effectiveRate baselineTotal baselineFailures)
          999),
        .fin (currentFailures / currentTotal), .fin (baselineFailures / baselineTotal)⟩ := by
  have htotal : (currentTotal : ℚ) ≠ 0 := Nat.cast_ne_zero.2 fun hzero => h (hzero ▸ by decide)
  have hbase : (baselineTotal : ℚ) ≠ 0 := Nat.cast_ne_zero.2 hbaseline
  have heffective := (effectiveRate_pos hbaseline baselineFailures).ne'
  rw [effectiveRate] at heffective
  rw [errorSpikeFactor, if_neg h, if_neg hbaseline]
  simp only [F64.ofNat, F64.fin_div htotal, F64.fin_div hbase, F64.fin_max,
    F64.fin_div heffective, spikeFactorCap, F64.fin_min, effectiveRate]

theorem factor_eq (currentTotal currentFailures baselineTotal baselineFailures : Nat) :
    (errorSpikeFactor currentTotal currentFailures baselineTotal baselineFailures).factor =
      .fin (spikeRatio currentTotal currentFailures baselineTotal baselineFailures) := by
  by_cases hfew : currentTotal < minSpikeSamples
  · rw [errorSpikeFactor_of_few hfew, spikeRatio, if_pos hfew]
    rfl
  · rw [spikeRatio, if_neg hfew]
    by_cases hempty : baselineTotal = 0
    · subst hempty
      rw [errorSpikeFactor_of_empty hfew, if_pos rfl]
    · rw [errorSpikeFactor_of_baseline hfew hempty, if_neg hempty]

/-! ### No division by zero -/

theorem checkedDiv_fin {q : ℚ} (h : q ≠ 0) (p : ℚ) :
    checkedDiv (.fin p) (.fin q) = some (.fin (p / q)) := by
  have hzero : F64.fin q ≠ .zero := fun heq => h (F64.fin.inj heq)
  rw [checkedDiv, if_neg hzero, F64.fin_div h]

theorem errorSpikeFactorChecked_eq
    (currentTotal currentFailures baselineTotal baselineFailures : Nat) :
    errorSpikeFactorChecked currentTotal currentFailures baselineTotal baselineFailures =
      some (errorSpikeFactor currentTotal currentFailures baselineTotal baselineFailures) := by
  by_cases hfew : currentTotal < minSpikeSamples
  · rw [errorSpikeFactorChecked, if_pos hfew, errorSpikeFactor_of_few hfew]
  · have htotal : (currentTotal : ℚ) ≠ 0 :=
      Nat.cast_ne_zero.2 fun hzero => hfew (hzero ▸ by decide)
    rw [errorSpikeFactorChecked, if_neg hfew, F64.ofNat, F64.ofNat, checkedDiv_fin htotal,
      Option.bind_eq_bind, Option.bind_some]
    by_cases hempty : baselineTotal = 0
    · subst hempty
      rw [if_pos rfl, errorSpikeFactor_of_empty hfew]
      split
      · rfl
      · rfl
    · have hbase : (baselineTotal : ℚ) ≠ 0 := Nat.cast_ne_zero.2 hempty
      have heffective := (effectiveRate_pos hempty baselineFailures).ne'
      rw [effectiveRate] at heffective
      rw [if_neg hempty, errorSpikeFactor_of_baseline hfew hempty, F64.ofNat, F64.ofNat,
        checkedDiv_fin hbase, checkedDiv_fin hbase, Option.bind_some, Option.bind_some,
        F64.fin_max, checkedDiv_fin heffective, Option.bind_some, spikeFactorCap, F64.fin_min]
      rfl

/-! ### Bounds and monotonicity -/

theorem ratio_nonneg (currentTotal currentFailures baselineTotal baselineFailures : Nat) :
    0 ≤ (currentFailures : ℚ) / currentTotal / effectiveRate baselineTotal baselineFailures := by
  refine div_nonneg (div_nonneg (Nat.cast_nonneg _) (Nat.cast_nonneg _)) ?_
  exact (div_nonneg (Nat.cast_nonneg _) (Nat.cast_nonneg _)).trans (le_max_left _ _)

theorem spikeRatio_nonneg (currentTotal currentFailures baselineTotal baselineFailures : Nat) :
    0 ≤ spikeRatio currentTotal currentFailures baselineTotal baselineFailures := by
  unfold spikeRatio
  split
  · exact le_rfl
  · split
    · split <;> norm_num
    · exact le_min (ratio_nonneg ..) (by norm_num)

theorem spikeRatio_le_cap (currentTotal currentFailures baselineTotal baselineFailures : Nat) :
    spikeRatio currentTotal currentFailures baselineTotal baselineFailures ≤ 999 := by
  unfold spikeRatio
  split
  · norm_num
  · split
    · split <;> norm_num
    · exact min_le_right _ _

/-- More failures now, no smaller a factor. -/
theorem spikeRatio_mono {currentFailures' : Nat} (h : currentFailures ≤ currentFailures') :
    spikeRatio currentTotal currentFailures baselineTotal baselineFailures ≤
      spikeRatio currentTotal currentFailures' baselineTotal baselineFailures := by
  unfold spikeRatio
  split
  · exact le_rfl
  · split
    · by_cases hnone : currentFailures > 0
      · rw [if_pos hnone, if_pos (hnone.trans_le h)]
      · rw [if_neg hnone]
        split <;> norm_num
    · next hempty =>
      refine min_le_min_right _ (div_le_div_of_nonneg_right ?_ (effectiveRate_pos hempty _).le)
      exact div_le_div_of_nonneg_right (Nat.cast_le.2 h) (Nat.cast_nonneg _)

/-- More failures before, no larger a factor. -/
theorem spikeRatio_anti {baselineFailures' : Nat} (h : baselineFailures ≤ baselineFailures') :
    spikeRatio currentTotal currentFailures baselineTotal baselineFailures' ≤
      spikeRatio currentTotal currentFailures baselineTotal baselineFailures := by
  unfold spikeRatio
  split
  · exact le_rfl
  · split
    · exact le_rfl
    · next hempty =>
      refine min_le_min_right _ (div_le_div_of_nonneg_left ?_ (effectiveRate_pos hempty _)
        (effectiveRate_mono h))
      exact div_nonneg (Nat.cast_nonneg _) (Nat.cast_nonneg _)

/-- A rate that has not grown is no spike. -/
theorem spikeRatio_le_one (hbaseline : 0 < baselineTotal)
    (hrate : (currentFailures : ℚ) / currentTotal ≤ baselineFailures / baselineTotal) :
    spikeRatio currentTotal currentFailures baselineTotal baselineFailures ≤ 1 := by
  have heffective := effectiveRate_pos hbaseline.ne' baselineFailures
  unfold spikeRatio
  split
  · norm_num
  · rw [if_neg hbaseline.ne']
    refine (min_le_left _ _).trans ((div_le_one heffective).2 ?_)
    exact hrate.trans (le_max_left _ _)

/-- No baseline counts like the cleanest one. -/
theorem spikeRatio_le_empty (currentTotal currentFailures baselineTotal baselineFailures : Nat) :
    spikeRatio currentTotal currentFailures baselineTotal baselineFailures ≤
      spikeRatio currentTotal currentFailures 0 0 := by
  by_cases hfew : currentTotal < minSpikeSamples
  · rw [spikeRatio, spikeRatio, if_pos hfew, if_pos hfew]
  · by_cases hnone : currentFailures > 0
    · have hcap : spikeRatio currentTotal currentFailures 0 0 = 999 := by
        rw [spikeRatio, if_neg hfew, if_pos rfl, if_pos hnone]
      exact (spikeRatio_le_cap ..).trans hcap.ge
    · obtain rfl : currentFailures = 0 := by omega
      have hzero : spikeRatio currentTotal 0 baselineTotal baselineFailures = 0 := by
        simp [spikeRatio]
      exact hzero.le.trans (spikeRatio_nonneg ..)

/-! ### The factor of the source -/

/-- The spike factor of a call. -/
def factorOf (currentTotal currentFailures baselineTotal baselineFailures : Nat) : F64 :=
  (errorSpikeFactor currentTotal currentFailures baselineTotal baselineFailures).factor

theorem factorOf_le_fin {q : ℚ}
    (h : spikeRatio currentTotal currentFailures baselineTotal baselineFailures ≤ q) :
    (factorOf currentTotal currentFailures baselineTotal baselineFailures).le (.fin q) = true := by
  rw [factorOf, factor_eq, F64.fin_le]
  exact decide_eq_true h

theorem fin_le_factorOf {q : ℚ}
    (h : q ≤ spikeRatio currentTotal currentFailures baselineTotal baselineFailures) :
    F64.le (.fin q) (factorOf currentTotal currentFailures baselineTotal baselineFailures) =
      true := by
  rw [factorOf, factor_eq, F64.fin_le]
  exact decide_eq_true h

/-- **The error spike factor** makes no division by zero, lies between 0 and the cap, grows
with the failures now and shrinks with the failures before; it exceeds one only if the rate
has grown, and is largest without a baseline. -/
theorem factorOf_bounds (currentTotal currentFailures baselineTotal baselineFailures : Nat) :
    errorSpikeFactorChecked currentTotal currentFailures baselineTotal baselineFailures =
        some (errorSpikeFactor currentTotal currentFailures baselineTotal baselineFailures) ∧
      F64.le .zero (factorOf currentTotal currentFailures baselineTotal baselineFailures) = true ∧
      (factorOf currentTotal currentFailures baselineTotal baselineFailures).le spikeFactorCap =
        true ∧
      (∀ currentFailures', currentFailures ≤ currentFailures' →
        (factorOf currentTotal currentFailures baselineTotal baselineFailures).le
          (factorOf currentTotal currentFailures' baselineTotal baselineFailures) = true) ∧
      (∀ baselineFailures', baselineFailures ≤ baselineFailures' →
        (factorOf currentTotal currentFailures baselineTotal baselineFailures').le
          (factorOf currentTotal currentFailures baselineTotal baselineFailures) = true) ∧
      (0 < baselineTotal →
        (currentFailures : ℚ) / currentTotal ≤ baselineFailures / baselineTotal →
        (factorOf currentTotal currentFailures baselineTotal baselineFailures).le (.fin 1) =
          true) ∧
      (factorOf currentTotal currentFailures baselineTotal baselineFailures).le
        (factorOf currentTotal currentFailures 0 0) = true := by
  refine ⟨errorSpikeFactorChecked_eq .., fin_le_factorOf (spikeRatio_nonneg ..),
    factorOf_le_fin (spikeRatio_le_cap ..), fun _ h => ?_, fun _ h => ?_,
    fun hbaseline hrate => factorOf_le_fin (spikeRatio_le_one hbaseline hrate), ?_⟩
  · rw [factorOf, factor_eq]
    exact fin_le_factorOf (spikeRatio_mono h)
  · rw [factorOf, factor_eq]
    exact fin_le_factorOf (spikeRatio_anti h)
  · rw [factorOf, factor_eq]
    exact fin_le_factorOf (spikeRatio_le_empty ..)

/-- Ten failures in a hundred tasks, after one in a hundred. -/
theorem factorOf_bounds_tenfold :
    (factorOf 100 10 10000 100).le (factorOf 100 20 10000 100) = true ∧
      (factorOf 100 1 10000 100).le (.fin 1) = true :=
  ⟨(factorOf_bounds 100 10 10000 100).2.2.2.1 20 (by decide),
    (factorOf_bounds 100 1 10000 100).2.2.2.2.2.1 (by decide) (by norm_num)⟩

end Feloxi.Alerting
