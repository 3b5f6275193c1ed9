import Feloxi.Alerting.Context
import Feloxi.Lib.Finite
import Feloxi.Lib.Moments
import Mathlib.Data.List.Dedup
import Mathlib.Data.Rat.Cast.CharZero

/-!
# Feloxi.Alerting.Baseline

The throughput baseline (`get_throughput_moments`,
`crates/db/src/clickhouse/aggregations.rs`). Completed tasks are counted in buckets of
`window` minutes that are aligned to the epoch; the baseline takes the minutes of the
last 24 hours that lie before the current bucket. The z-score fills the buckets without
tasks up with zeros, `n_total = 1440 / window` in all.

The 24 hours need not start where a bucket starts. When 1440 is not a multiple of the
window and now lies early in its bucket, they reach into `n_total + 1` buckets
(`length_candidates`), and the moments are divided by a number too small.
-/

namespace Feloxi.Alerting

/-! ### The query -/

/-- A row of `task_metrics_mv`, among those of the tenant and the task pattern. -/
structure MetricsRow where
  /-- `toStartOfMinute`, in seconds since the epoch. -/
  minute : Int
  totalCount : Nat
  startOfMinute : 60 ∣ minute

/-- `toStartOfInterval(t, toIntervalMinute(minutes))`. -/
def toStartOfInterval (t : Int) (minutes : Nat) : Int := t / (60 * minutes) * (60 * minutes)

/-- The `WHERE` clause. -/
def inBaseline (now : Int) (windowMinutes baselineHours : Nat) (row : MetricsRow) : Bool :=
  decide (now - 3600 * baselineHours ≤ row.minute) &&
    decide (row.minute < toStartOfInterval now windowMinutes)

/-- The groups of the inner query. -/
def buckets (rows : List MetricsRow) (now : Int) (windowMinutes baselineHours : Nat) : List Int :=
  ((rows.filter (inBaseline now windowMinutes baselineHours)).map fun row =>
    toStartOfInterval row.minute windowMinutes).dedup

/-- The task count of each group. -/
def bucketCounts (rows : List MetricsRow) (now : Int) (windowMinutes baselineHours : Nat) :
    List Nat :=
  (buckets rows now windowMinutes baselineHours).map fun bucket =>
    (((rows.filter (inBaseline now windowMinutes baselineHours)).filter fun row =>
      toStartOfInterval row.minute windowMinutes == bucket).map (·.totalCount)).sum

/-- `get_throughput_moments`. -/
def getThroughputMoments (rows : List MetricsRow) (now : Int) (windowMinutes baselineHours : Nat) :
    ThroughputMoments :=
  let counts := bucketCounts rows now windowMinutes baselineHours
  ⟨.ofNat counts.sum, .ofNat (counts.map fun cnt => cnt * cnt).sum⟩

/-- `buckets_present`. -/
def bucketsPresent (rows : List MetricsRow) (now : Int) (windowMinutes baselineHours : Nat) : Nat :=
  (buckets rows now windowMinutes baselineHours).length

/-- The bucket count the builder hands to the z-score. -/
def nTotal (window : Nat) : Nat := anomalyBaselineHours * 60 / max window 1

/-- The z-score of a count against a list of bucket counts, by their mean and variance. -/
def zscoreAgainst (sqrt : F64 → F64) (current : F64) (c : List ℚ) : ZScore :=
  let mean := F64.fin (Moments.mean c)
  let std := ((sqrt (.fin (Moments.variance c))).max (sqrt mean)).max (.fin 1)
  ⟨(current.sub mean).div std, current, mean⟩

/-- The baseline fits: no more buckets than the z-score counts on, and a z-score against
the bucket counts filled up with zeros. -/
def BaselineFits (rows : List MetricsRow) (now : Int) (window : Nat) : Prop :=
  bucketsPresent rows now window anomalyBaselineHours ≤ nTotal window ∧
    ∀ sqrt current,
      throughputZscore sqrt current
          (getThroughputMoments rows now window anomalyBaselineHours).bucketSum
          (getThroughputMoments rows now window anomalyBaselineHours).bucketSumsq
          (.ofNat (nTotal window)) =
        zscoreAgainst sqrt current (Moments.padded (nTotal window)
          ((bucketCounts rows now window anomalyBaselineHours).map (↑)))

/-! ### Moments -/

/-- The z-score of a list of bucket counts, from its moments. -/
theorem throughputZscore_moments (sqrt : F64 → F64) (current : F64) {n : Nat} (hn : 0 < n)
    {c : List Nat} (hlength : c.length ≤ n) :
    throughputZscore sqrt current (.ofNat c.sum) (.ofNat (c.map fun cnt => cnt * cnt).sum)
        (.ofNat n) =
      zscoreAgainst sqrt current (Moments.padded n (c.map (↑))) := by
  have hcast : (c.map (↑) : List ℚ).length ≤ n := (List.length_map ..).trans_le hlength
  have hn0 : (n : ℚ) ≠ 0 := Nat.cast_ne_zero.2 (Nat.pos_iff_ne_zero.1 hn)
  have henough : F64.lt (.ofNat n) (.fin 1) = false :=
    decide_eq_false (not_lt.2 (Nat.one_le_cast.2 hn))
  have hmean : (F64.ofNat c.sum).div (.ofNat n) =
      .fin (Moments.mean (Moments.padded n (c.map (↑) : List ℚ))) := by
    rw [F64.ofNat, F64.ofNat, F64.fin_div hn0, Moments.mean_padded hcast, Nat.cast_list_sum]
  have hvar : (((F64.ofNat (c.map fun cnt => cnt * cnt).sum).div (.ofNat n)).sub
      ((F64.fin (Moments.mean (Moments.padded n (c.map (↑) : List ℚ)))).mul
        (.fin (Moments.mean (Moments.padded n (c.map (↑) : List ℚ)))))).max .zero =
      .fin (Moments.variance (Moments.padded n (c.map (↑) : List ℚ))) := by
    rw [F64.ofNat, F64.ofNat, F64.fin_div hn0, F64.fin_mul, F64.fin_sub, F64.zero, F64.fin_max,
      Moments.mean_padded hcast, ← Moments.sumsq_natCast, ← sq, ← Moments.variance_padded hn hcast,
      max_eq_left (Moments.variance_nonneg _)]
  rw [throughputZscore, henough, if_neg Bool.false_ne_true]
  simp only [hmean, hvar]
  rfl

/-! ### The buckets of a day -/

/-- The numbers of the buckets from the one the baseline begins in to the current one. -/
def dayBuckets (now : Int) (window : Nat) : List Int :=
  (List.range (now / (60 * window) - (now - 86400) / (60 * window)).toNat).map fun i : Nat =>
    (now - 86400) / (60 * window) + i

/-- The buckets themselves. -/
def candidates (now : Int) (window : Nat) : List Int :=
  (dayBuckets now window).map (· * (60 * window))

/-- Some bucket of the baseline has no minute with completed tasks. -/
def SomeEmpty (rows : List MetricsRow) (now : Int) (window : Nat) : Prop :=
  ∃ bucket ∈ candidates now window, ∀ row ∈ rows,
    inBaseline now window anomalyBaselineHours row = true →
      toStartOfInterval row.minute window ≠ bucket

theorem mem_buckets {rows : List MetricsRow} {now bucket : Int} {window hours : Nat} :
    bucket ∈ buckets rows now window hours ↔
      ∃ row ∈ rows, inBaseline now window hours row = true ∧
        toStartOfInterval row.minute window = bucket := by
  simp only [buckets, List.mem_dedup, List.mem_map, List.mem_filter, and_assoc]

theorem mem_dayBuckets {now k : Int} {window : Nat} :
    k ∈ dayBuckets now window ↔ (now - 86400) / (60 * window) ≤ k ∧ k < now / (60 * window) := by
  simp only [dayBuckets, List.mem_map, List.mem_range]
  constructor
  · rintro ⟨i, hi, rfl⟩
    omega
  · rintro ⟨hlow, hhigh⟩
    exact ⟨(k - (now - 86400) / (60 * window)).toNat, by omega, by omega⟩

theorem buckets_subset_candidates {rows : List MetricsRow} {now : Int} {window : Nat}
    (hw : 0 < window) :
    buckets rows now window anomalyBaselineHours ⊆ candidates now window := by
  intro bucket hbucket
  obtain ⟨row, _, hin, rfl⟩ := mem_buckets.1 hbucket
  simp only [inBaseline, Bool.and_eq_true, decide_eq_true_eq] at hin
  have hpos : (0 : Int) < 60 * window := by omega
  exact List.mem_map.2 ⟨row.minute / (60 * window), mem_dayBuckets.2
    ⟨Int.ediv_le_ediv hpos hin.1, Int.ediv_lt_of_lt_mul hpos hin.2⟩, rfl⟩

/-- How far a span reaches back over multiples of `d`: its quotient, and one more when it
starts before its remainder. -/
theorem ediv_sub_ediv_sub {now span d q rest : Int} (hspan : span = d * q + rest)
    (hrest : 0 ≤ rest) (hlt : rest < d) :
    now / d - (now - span) / d = q + if now % d < rest then 1 else 0 := by
  have hd : 0 < d := by omega
  have hnow := Int.mul_ediv_add_emod now d
  have hmod := Int.emod_nonneg now (ne_of_gt hd)
  have hmod' := Int.emod_lt_of_pos now hd
  split
  · next hearly =>
    have hback : now - span = (now % d - rest + d) + d * (now / d - q - 1) := by
      rw [mul_sub, mul_sub, mul_one]
      omega
    have hzero : (now % d - rest + d) / d = 0 := Int.ediv_eq_zero_of_lt (by omega) (by omega)
    rw [hback, Int.add_mul_ediv_left _ _ (ne_of_gt hd), hzero]
    omega
  · next hlate =>
    have hback : now - span = (now % d - rest) + d * (now / d - q) := by
      rw [mul_sub]
      omega
    have hzero : (now % d - rest) / d = 0 := Int.ediv_eq_zero_of_lt (by omega) (by omega)
    rw [hback, Int.add_mul_ediv_left _ _ (ne_of_gt hd), hzero]
    omega

/-- Where now stands in its bucket before the rest of the 24 hours. -/
def Early (now : Int) (window : Nat) : Prop :=
  now % (60 * window) < 60 * (1440 % window : Nat)

instance (now : Int) (window : Nat) : Decidable (Early now window) :=
  inferInstanceAs (Decidable (_ < _))

theorem day_eq (window : Nat) :
    (86400 : Int) = 60 * window * (1440 / window : Nat) + 60 * (1440 % window : Nat) := by
  rw [mul_assoc, ← mul_add, ← Nat.cast_mul, ← Nat.cast_add, Nat.div_add_mod]
  rfl

/-- The 24 hours are `1440 / window` buckets and a rest, which reaches into one more when now
is early in its bucket. -/
theorem day_reaches (now : Int) {window : Nat} (hw : 0 < window) :
    now / (60 * window) - (now - 86400) / (60 * window) =
      (1440 / window + if Early now window then 1 else 0 : Nat) := by
  have hrest : 1440 % window < window := Nat.mod_lt _ hw
  rw [@ediv_sub_ediv_sub now _ _ _ _ (day_eq window) (by omega) (by omega)]
  by_cases hearly : Early now window
  · rw [if_pos hearly, if_pos (show now % (60 * window) < _ from hearly)]
    rfl
  · rw [if_neg hearly, if_neg (show ¬ now % (60 * window) < _ from hearly)]
    rfl

theorem length_candidates (now : Int) {window : Nat} (hw : 0 < window) :
    (candidates now window).length = 1440 / window + if Early now window then 1 else 0 := by
  rw [candidates, dayBuckets, List.length_map, List.length_map, List.length_range,
    day_reaches now hw]
  exact Int.toNat_natCast _

theorem nodup_candidates (now : Int) {window : Nat} (hw : 0 < window) :
    (candidates now window).Nodup := by
  have hnumbers : (dayBuckets now window).Nodup := by
    refine List.Nodup.map (fun i j h => ?_) List.nodup_range
    omega
  exact List.Nodup.map (fun i j h => Int.eq_of_mul_eq_mul_right (by omega) h) hnumbers

/-! ### When the baseline fits -/

theorem nTotal_eq {window : Nat} (hw : 0 < window) : nTotal window = 1440 / window := by
  rw [nTotal, max_eq_left (Nat.succ_le_of_lt hw)]
  rfl

/-- One bucket too many is counted exactly when now is early and no bucket is empty. -/
theorem bucketsPresent_le_iff (rows : List MetricsRow) (now : Int) {window : Nat}
    (hw : 0 < window) :
    bucketsPresent rows now window anomalyBaselineHours ≤ nTotal window ↔
      ¬ Early now window ∨ SomeEmpty rows now window := by
  have hsubset := @buckets_subset_candidates rows now window hw
  have hlength := length_candidates now hw
  have hnodup : (buckets rows now window anomalyBaselineHours).Nodup := List.nodup_dedup _
  rw [bucketsPresent, nTotal_eq hw]
  by_cases hearly : Early now window
  · rw [if_pos hearly] at hlength
    constructor
    · intro hle
      refine .inr ?_
      by_contra hfull
      -- Every bucket of the day has a row, so all of them are counted.
      have hall : candidates now window ⊆ buckets rows now window anomalyBaselineHours := by
        intro bucket hbucket
        by_contra hmissing
        refine hfull ⟨bucket, hbucket, fun row hrow hin heq => hmissing ?_⟩
        exact mem_buckets.2 ⟨row, hrow, hin, heq⟩
      have hcounted := ((nodup_candidates now hw).subperm hall).length_le
      omega
    · rintro (hlate | ⟨bucket, hbucket, hempty⟩)
      · exact absurd hearly hlate
      · have hmissing : bucket ∉ buckets rows now window anomalyBaselineHours := by
          intro hmem
          obtain ⟨row, hrow, hin, heq⟩ := mem_buckets.1 hmem
          exact hempty row hrow hin heq
        -- The empty one can be put beside those that are counted.
        have hmore := ((List.nodup_cons.2 ⟨hmissing, hnodup⟩).subperm
          (List.cons_subset.2 ⟨hbucket, hsubset⟩)).length_le
        rw [List.length_cons] at hmore
        omega
  · rw [if_neg hearly] at hlength
    have hle := (hnodup.subperm hsubset).length_le
    exact iff_of_true (by omega) (.inl hearly)

/-- **The baseline fits exactly when now is not early in its bucket, or some bucket of the
day is empty.** -/
theorem baselineFits_iff (rows : List MetricsRow) (now : Int) {window : Nat} (hmin : 1 ≤ window)
    (hmax : window ≤ 1440) :
    BaselineFits rows now window ↔ ¬ Early now window ∨ SomeEmpty rows now window := by
  rw [← bucketsPresent_le_iff rows now hmin]
  constructor
  · exact fun h => h.1
  · intro hle
    have hpos : 0 < nTotal window := by
      rw [nTotal_eq hmin]
      exact Nat.div_pos hmax hmin
    refine ⟨hle, fun sqrt current => throughputZscore_moments sqrt current hpos ?_⟩
    exact (List.length_map ..).trans_le hle

/-- Where the baseline fits, the builder's z-score is the one against the filled up counts. -/
theorem BaselineFits.throughputAnswer {rows : List MetricsRow} {now : Int} {window : Nat}
    (h : BaselineFits rows now window) {reads : StoreReads} {pattern : String} {cur : Nat}
    (hmoments : reads.throughputMoments window anomalyBaselineHours pattern =
      .ok (getThroughputMoments rows now window anomalyBaselineHours))
    (hcurrent : reads.recentCompletedCount window pattern = .ok cur) (sqrt : F64 → F64) :
    AlertContextBuilder.throughputAnswer sqrt reads window pattern =
      .ok (zscoreAgainst sqrt (.ofNat cur) (Moments.padded (nTotal window)
        ((bucketCounts rows now window anomalyBaselineHours).map (↑)))) := by
  rw [AlertContextBuilder.throughputAnswer, hmoments, hcurrent]
  exact congrArg Except.ok (h.2 sqrt _)

/-- Windows of 1000 minutes, 1440 is one of them and a rest: two tasks of one day in two
buckets. -/
def twoBuckets : List MetricsRow :=
  [⟨1799913600, 1, by decide⟩, ⟨1799999940, 1, by decide⟩]

theorem not_baselineFits_twoBuckets : ¬ BaselineFits twoBuckets 1800000000 1000 := by
  intro h
  have hcount := h.1
  revert hcount
  decide +kernel

theorem baselineFits_twoBuckets_later :
    (1 ≤ 1000 ∧ 1000 ≤ 1440) ∧ BaselineFits twoBuckets 1800030000 1000 :=
  ⟨by decide, (baselineFits_iff twoBuckets 1800030000 (by decide) (by decide)).2
    (.inl (by decide))⟩

/-! ### The instants at which every baseline fits -/

/-- A task in the last minute of a bucket. -/
def lastMinute (window : Nat) (k : Int) : MetricsRow :=
  ⟨60 * (window * (k + 1) - 1), 1, Int.dvd_mul_right ..⟩

theorem toStartOfInterval_lastMinute {window : Nat} (hw : 0 < window) (k : Int) :
    toStartOfInterval (lastMinute window k).minute window = k * (60 * window) := by
  have hminute : (lastMinute window k).minute = (60 * window - 60) + 60 * window * k := by
    show 60 * ((window : Int) * (k + 1) - 1) = _
    rw [mul_sub, mul_add, mul_add, mul_assoc]
    omega
  have hzero : (60 * window - 60 : Int) / (60 * window) = 0 :=
    Int.ediv_eq_zero_of_lt (by omega) (by omega)
  rw [toStartOfInterval, hminute, Int.add_mul_ediv_left _ _ (by omega), hzero, Int.zero_add]

/-- Early in its bucket, now is this far past the start of the bucket that the 24 hours reach
into. -/
theorem sub_day_of_early {now : Int} {window : Nat} (hw : 0 < window) (h : Early now window) :
    now - 86400 = 60 * window * ((now - 86400) / (60 * window) + 1) -
      (60 * (1440 % window : Nat) - now % (60 * window)) := by
  have hreach := day_reaches now hw
  rw [if_pos h] at hreach
  have hstart : (now - 86400) / (60 * window) + 1 =
      now / (60 * window) - (1440 / window : Nat) := by
    omega
  have hnow := Int.mul_ediv_add_emod now (60 * window)
  have hday := day_eq window
  rw [hstart, mul_sub]
  omega

/-- A whole minute before the end of the 24 hours' first bucket, every bucket has its last
minute in them. -/
theorem lastMinute_inBaseline {now : Int} {window : Nat} (hw : 0 < window)
    (hbefore : now % (60 * window) + 60 ≤ 60 * (1440 % window : Nat)) {k : Int}
    (hlow : (now - 86400) / (60 * window) ≤ k) (hhigh : k < now / (60 * window)) :
    inBaseline now window anomalyBaselineHours (lastMinute window k) = true := by
  have hearly : Early now window := by
    rw [Early]
    omega
  have hstart := sub_day_of_early hw hearly
  have hpos : (0 : Int) ≤ 60 * window := by omega
  have hfirst := Int.mul_le_mul_of_nonneg_left (Int.add_le_add_right hlow 1) hpos
  have hlast := Int.mul_le_mul_of_nonneg_left (Int.add_one_le_of_lt hhigh) hpos
  have hminute : (lastMinute window k).minute = 60 * window * (k + 1) - 60 := by
    show 60 * ((window : Int) * (k + 1) - 1) = _
    rw [mul_sub, mul_assoc]
    rfl
  simp only [inBaseline, hminute, toStartOfInterval, Bool.and_eq_true, decide_eq_true_eq]
  rw [mul_comm (now / (60 * (window : Int)))]
  constructor
  · show now - 86400 ≤ _
    omega
  · omega

/-- In the last minute before that, the first bucket has none. -/
theorem first_bucket_empty {now : Int} {window : Nat} (hw : 0 < window)
    (hearly : Early now window) (hlate : 60 * (1440 % window : Nat) < now % (60 * window) + 60)
    {row : MetricsRow} (hin : inBaseline now window anomalyBaselineHours row = true) :
    toStartOfInterval row.minute window ≠ (now - 86400) / (60 * window) * (60 * window) := by
  intro heq
  have hpos : (0 : Int) < 60 * window := by omega
  have hindex : row.minute / (60 * window) = (now - 86400) / (60 * window) :=
    Int.eq_of_mul_eq_mul_right (by omega) heq
  have hend : row.minute < 60 * window * ((now - 86400) / (60 * window) + 1) := by
    rw [← hindex, mul_add, mul_one]
    exact Int.lt_mul_ediv_self_add hpos
  have hstart := sub_day_of_early hw hearly
  simp only [inBaseline, Bool.and_eq_true, decide_eq_true_eq] at hin
  have hlow : now - 86400 ≤ row.minute := hin.1
  obtain ⟨m, hm⟩ := row.startOfMinute
  rw [mul_assoc] at hend hstart
  omega

/-- **Every set of minutes fits exactly when now is in the last minute before the rest, or
past it.** -/
theorem forall_baselineFits_iff (now : Int) {window : Nat} (hmin : 1 ≤ window)
    (hmax : window ≤ 1440) :
    (∀ rows, BaselineFits rows now window) ↔
      60 * (1440 % window : Nat) < now % (60 * window) + 60 := by
  constructor
  · intro hfits
    by_contra hbefore
    have hbefore : now % (60 * window) + 60 ≤ 60 * (1440 % window : Nat) := by omega
    rcases (baselineFits_iff ((dayBuckets now window).map (lastMinute window)) now hmin
      hmax).1 (hfits _) with hlate | ⟨bucket, hbucket, hempty⟩
    · rw [Early] at hlate
      omega
    · obtain ⟨k, hk, rfl⟩ := List.mem_map.1 hbucket
      have hrange := mem_dayBuckets.1 hk
      exact hempty (lastMinute window k) (List.mem_map_of_mem hk)
        (lastMinute_inBaseline hmin hbefore hrange.1 hrange.2)
        (toStartOfInterval_lastMinute hmin k)
  · intro hlate rows
    rw [baselineFits_iff rows now hmin hmax]
    by_cases hearly : Early now window
    · have hreach := day_reaches now hmin
      have hcount := Int.natCast_nonneg (1440 / window)
      rw [if_pos hearly] at hreach
      refine .inr ⟨(now - 86400) / (60 * window) * (60 * window), ?_, ?_⟩
      · exact List.mem_map.2 ⟨_, mem_dayBuckets.2 ⟨le_rfl, by omega⟩, rfl⟩
      · exact fun row _ hin => first_bucket_empty hmin hearly hlate hin
    · exact .inl hearly

end Feloxi.Alerting
