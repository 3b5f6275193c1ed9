import Feloxi.Alerting.Stats
import Feloxi.Lib.Moments
import Feloxi.Lib.Reals
import Mathlib.Data.Sign.Basic
import Mathlib.Analysis.Real.Sqrt

/-!
# Feloxi.Alerting.NoiseFloor

`throughput_zscore` over exact reals. From the sum and the sum of squares of the bucket
counts it computes the textbook z-score of the counts filled up with zeros, with the
deviation floored at the noise of a Poisson process: a count within that noise of the
mean has a score of at most one.

`throughputZscore_denotes` connects it with the z-score over doubles: where the square
roots are exact, the two are one.
-/

namespace Feloxi.Alerting

namespace Exact

/-- `ZScore`, over the reals. -/
structure ZScore where
  zscore : ℝ
  current : ℝ
  baselineMean : ℝ

/-- `throughput_zscore`, over the reals. -/
noncomputable def throughputZscore (current bucketSum bucketSumsq nTotal : ℝ) : ZScore :=
  if nTotal < 1 then
    ⟨0, current, 0⟩
  else
    let mean := bucketSum / nTotal
    let var := max (bucketSumsq / nTotal - mean * mean) 0
    let std := max (max (√var) (√mean)) 1
    ⟨(current - mean) / std, current, mean⟩

/-- The mean of the bucket counts, filled up to `n` with zeros. -/
noncomputable def paddedMean (n : Nat) (c : List Nat) : ℝ :=
  Moments.mean (Moments.padded n (c.map (↑)))

/-- Their population standard deviation. -/
noncomputable def paddedDeviation (n : Nat) (c : List Nat) : ℝ :=
  √(Moments.variance (Moments.padded n (c.map (↑))))

/-! ### The deviation -/

/-- A score over a deviation of at least one. -/
theorem sign_div_deviation (d : ℝ) {std : ℝ} (h : 1 ≤ std) :
    SignType.sign (d / std) = SignType.sign d := by
  have hpos : 0 < std⁻¹ := inv_pos.2 (zero_lt_one.trans_le h)
  rw [div_eq_mul_inv, sign_mul, sign_pos hpos, mul_one]

theorem abs_div_deviation (d : ℝ) {std : ℝ} (h : 1 ≤ std) : |d / std| ≤ |d| := by
  rw [abs_div, abs_of_pos (zero_lt_one.trans_le h)]
  exact div_le_self (abs_nonneg d) h

/-- Within the noise of the mean, the score is at most one. -/
theorem abs_div_deviation_le_one {d mean : ℝ} (sigma : ℝ) (h : d ^ 2 ≤ max mean 1) :
    |d / max (max sigma (√mean)) 1| ≤ 1 := by
  have hpos : 0 < max (max sigma (√mean)) 1 := zero_lt_one.trans_le (le_max_right _ _)
  rw [abs_div, abs_of_pos hpos, div_le_one hpos]
  rcases le_total mean 1 with hsmall | hlarge
  · rw [max_eq_right hsmall] at h
    exact (Real.abs_le_sqrt h).trans (Real.sqrt_one.le.trans (le_max_right _ _))
  · rw [max_eq_left hlarge] at h
    exact (Real.abs_le_sqrt h).trans ((le_max_right _ _).trans (le_max_left _ _))

/-! ### The moments -/

theorem sum_div_eq_paddedMean {c : List Nat} {n : Nat} (hlength : c.length ≤ n) :
    (c.sum : ℝ) / n = paddedMean n c := by
  rw [paddedMean, Moments.mean_padded ((List.length_map ..).trans_le hlength), Nat.cast_list_sum]

/-- What the clamp is applied to is a variance. -/
theorem sub_eq_variance {c : List Nat} {n : Nat} (hn : 1 ≤ n) (hlength : c.length ≤ n) :
    ((c.map fun cnt => cnt * cnt).sum : Nat) / n - paddedMean n c * paddedMean n c =
      Moments.variance (Moments.padded n (c.map (↑) : List ℝ)) := by
  have hsum : (c.map (↑) : List ℝ).sum = c.sum := (Nat.cast_list_sum c).symm
  rw [Moments.variance_padded hn ((List.length_map ..).trans_le hlength), Moments.sumsq_natCast,
    ← sum_div_eq_paddedMean hlength, hsum, sq]

/-- What the z-score computes of the moments of a list. -/
theorem throughputZscore_eq {c : List Nat} {n : Nat} (hn : 1 ≤ n) (hlength : c.length ≤ n)
    (current : ℝ) :
    throughputZscore current c.sum ((c.map fun cnt => cnt * cnt).sum : Nat) n =
      ⟨(current - paddedMean n c) / max (max (paddedDeviation n c) (√(paddedMean n c))) 1,
        current, paddedMean n c⟩ := by
  rw [throughputZscore, if_neg (not_lt.2 (Nat.one_le_cast.2 hn))]
  simp only [sum_div_eq_paddedMean hlength, sub_eq_variance hn hlength,
    max_eq_left (Moments.variance_nonneg _)]
  rfl

/-- **The throughput z-score.** The score of a count against bucket counts is the textbook
one, over a deviation floored at the noise of the mean. It has the sign of the difference,
is no larger than it, and is at most one within the noise. -/
theorem throughputZscore_padded {c : List Nat} {n : Nat} (hn : max 1 c.length ≤ n)
    (current : ℝ) :
    let z := (throughputZscore current c.sum ((c.map fun cnt => cnt * cnt).sum : Nat) n).zscore
    z = (current - paddedMean n c) / max (max (paddedDeviation n c) (√(paddedMean n c))) 1 ∧
      0 ≤ ((c.map fun cnt => cnt * cnt).sum : Nat) / n - paddedMean n c * paddedMean n c ∧
      SignType.sign z = SignType.sign (current - paddedMean n c) ∧
      |z| ≤ |current - paddedMean n c| ∧
      ((current - paddedMean n c) ^ 2 ≤ max (paddedMean n c) 1 → |z| ≤ 1) := by
  have hpos : 1 ≤ n := (le_max_left _ _).trans hn
  have hlength : c.length ≤ n := (le_max_right _ _).trans hn
  have hfloor : 1 ≤ max (max (paddedDeviation n c) (√(paddedMean n c))) 1 := le_max_right _ _
  rw [throughputZscore_eq hpos hlength]
  refine ⟨rfl, ?_, sign_div_deviation _ hfloor, abs_div_deviation _ hfloor,
    abs_div_deviation_le_one _⟩
  rw [sub_eq_variance hpos hlength]
  exact Moments.variance_nonneg _

/-- Two buckets of four tasks and two without: mean 2, deviation 2. -/
theorem throughputZscore_padded_sample :
    max 1 [4, 4].length ≤ 4 ∧
      (throughputZscore 6 ([4, 4].sum : Nat) (([4, 4].map fun cnt => cnt * cnt).sum : Nat)
          (4 : Nat)).zscore =
        (6 - paddedMean 4 [4, 4]) /
          max (max (paddedDeviation 4 [4, 4]) (√(paddedMean 4 [4, 4]))) 1 :=
  ⟨by decide, (throughputZscore_padded (by decide) 6).1⟩

/-! ### The z-score over doubles -/

/-- The square root of a number is exact. -/
def ExactRoot (sqrt : F64 → F64) (r : ℝ) : Prop := ∀ x, F64.Denotes x r → (sqrt x).Denotes (√r)

/-- The z-score over doubles stands for the one over the reals, where its two square roots
are exact. -/
theorem throughputZscore_denotes {sqrt : F64 → F64} {current bucketSum bucketSumsq nTotal : F64}
    {x s q n : ℝ} (hcurrent : current.Denotes x) (hsum : bucketSum.Denotes s)
    (hsumsq : bucketSumsq.Denotes q) (hn : nTotal.Denotes n)
    (hvar : ExactRoot sqrt (max (q / n - s / n * (s / n)) 0)) (hmean : ExactRoot sqrt (s / n)) :
    (Alerting.throughputZscore sqrt current bucketSum bucketSumsq nTotal).zscore.Denotes
        (throughputZscore x s q n).zscore ∧
      (Alerting.throughputZscore sqrt current bucketSum bucketSumsq nTotal).baselineMean.Denotes
        (throughputZscore x s q n).baselineMean := by
  rw [Alerting.throughputZscore, throughputZscore]
  by_cases hfew : n < 1
  · rw [if_pos hfew, if_pos ((hn.lt_iff F64.denotes_one).2 hfew)]
    exact ⟨F64.denotes_zero, F64.denotes_zero⟩
  · have hpos : n ≠ 0 := (zero_lt_one.trans_le (not_lt.1 hfew)).ne'
    have hm := hsum.div hn hpos
    have hv := ((hsumsq.div hn hpos).sub (hm.mul hm)).max F64.denotes_zero
    have hstd := ((hvar _ hv).max (hmean _ hm)).max F64.denotes_one
    have hfloor : max (max (√(max (q / n - s / n * (s / n)) 0)) (√(s / n))) 1 ≠ 0 :=
      (zero_lt_one.trans_le (le_max_right _ _)).ne'
    rw [if_neg hfew, if_neg (fun h => hfew ((hn.lt_iff F64.denotes_one).1 h))]
    exact ⟨(hcurrent.sub hm).div hstd hfloor, hm⟩

/-- The z-score the builder hands to a rule, as the textbook one. -/
theorem throughputZscore_counts_denotes {sqrt : F64 → F64} {c : List Nat} {n : Nat} (hn : 1 ≤ n)
    (hlength : c.length ≤ n) (current : Nat)
    (hvar : ExactRoot sqrt (Moments.variance (Moments.padded n (c.map (↑)))))
    (hmean : ExactRoot sqrt (paddedMean n c)) :
    (Alerting.throughputZscore sqrt (.ofNat current) (.ofNat c.sum)
      (.ofNat (c.map fun cnt => cnt * cnt).sum) (.ofNat n)).zscore.Denotes
        ((current - paddedMean n c) /
          max (max (paddedDeviation n c) (√(paddedMean n c))) 1) := by
  have hclamp : max (((c.map fun cnt => cnt * cnt).sum : Nat) / n -
      (c.sum : ℝ) / n * ((c.sum : ℝ) / n)) 0 =
        Moments.variance (Moments.padded n (c.map (↑))) := by
    rw [sum_div_eq_paddedMean hlength, sub_eq_variance hn hlength,
      max_eq_left (Moments.variance_nonneg _)]
  rw [← hclamp] at hvar
  rw [← sum_div_eq_paddedMean hlength] at hmean
  have hscore := (throughputZscore_denotes (F64.denotes_ofNat current) (F64.denotes_ofNat c.sum)
    (F64.denotes_ofNat _) (F64.denotes_ofNat n) hvar hmean).1
  rw [throughputZscore_eq hn hlength] at hscore
  exact hscore

end Exact

end Feloxi.Alerting
