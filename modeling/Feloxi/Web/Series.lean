import Feloxi.Lib.Bins

/-!
# Feloxi.Web.Series

Chart buckets over a window of time (`apps/web/src/lib/series.ts`). The first bucket is aligned to
the bucket width and the last is complete, so the buckets can reach behind the end of the window, or
stop right at it. Times are in whole milliseconds; quotients and sums of runtimes are exact. A label
comes from `format` of date-fns, which is a parameter.
-/

namespace Feloxi.Web

/-! ### Buckets -/

/-- What the buckets take from a row of the metrics. -/
structure TaskMetricsRow where
  minute : Int
  successCount : Nat
  failureCount : Nat
  retryCount : Nat
  revokedCount : Nat
  totalCount : Nat
  totalRuntime : ℚ
  deriving DecidableEq

structure Bucket where
  t : Int
  label : String
  succeeded : Nat
  failed : Nat
  retried : Nat
  revoked : Nat
  total : Nat
  /-- Sum of runtimes of tasks that finished in the bucket, in seconds. -/
  runtime : ℚ
  deriving DecidableEq

/-- Bucket widths people read at a glance, in minutes. -/
def STEPS : List Int := [1, 2, 5, 10, 15, 30, 60, 120, 180, 360, 720, 1440]

/-- Smallest readable width of at least `minutes`. -/
def niceStep (minutes : ℚ) : Int :=
  (STEPS.find? fun s : Int => minutes ≤ s).getD (⌈minutes / 1440⌉ * 1440)

/-- `Math.round`. -/
def mathRound (x : ℚ) : Int := ⌊x + 1 / 2⌋

def windowMinutes (start stop : Int) : Int := max 1 (mathRound (((stop - start : Int) : ℚ) / 60000))

def bucketMs (start stop : Int) (target : ℚ) : Int :=
  niceStep (windowMinutes start stop / target) * 60000

/-- A row is counted. -/
def Bucket.add (b : Bucket) (r : TaskMetricsRow) : Bucket :=
  { b with
    succeeded := b.succeeded + r.successCount, failed := b.failed + r.failureCount,
    retried := b.retried + r.retryCount, revoked := b.revoked + r.revokedCount,
    total := b.total + r.totalCount, runtime := b.runtime + r.totalRuntime }

/-- Where the row's minute falls. -/
def rowIndex (first width : Int) (r : TaskMetricsRow) : Int :=
  ⌊((r.minute - first : Int) : ℚ) / width⌋

def firstBucket (start width : Int) : Int := ⌊(start : ℚ) / width⌋ * width

def bucketCount (first stop width : Int) : Int := max 1 ⌈((stop - first : Int) : ℚ) / width⌉

def emptyBucket (t : Int) (label : String) : Bucket :=
  { t, label, succeeded := 0, failed := 0, retried := 0, revoked := 0, total := 0, runtime := 0 }

def emptyBuckets (format : Int → String → String) (long : Bool) (first width : Int) (n : Nat) :
    List Bucket :=
  (List.range n).map fun i : Nat =>
    let t := first + i * width
    emptyBucket t (format t (if long then "MMM d HH:mm" else "HH:mm"))

def countRows (first width : Int) (buckets : List Bucket) (rows : List TaskMetricsRow) :
    List Bucket :=
  Bins.fill (rowIndex first width) Bucket.add buckets rows

/-- Same as `bucketize` for an explicit [start, end] window. -/
def bucketizeRange (format : Int → String → String) (rows : List TaskMetricsRow) (start stop : Int)
    (target : ℚ) : List Bucket :=
  let minutes := windowMinutes start stop
  let width := bucketMs start stop target
  let first := firstBucket start width
  let n := bucketCount first stop width
  let long := decide (minutes > 24 * 60)
  countRows first width (emptyBuckets format long first width n.toNat) rows

/-- The last `fromMinutes`. -/
def bucketize (format : Int → String → String) (rows : List TaskMetricsRow) (fromMinutes now : Int)
    (target : ℚ) : List Bucket :=
  bucketizeRange format rows (now - fromMinutes * 60000) now target

def bucketIndex (buckets : List Bucket) (t : Int) : Int :=
  match buckets with
  | [] => -1
  | b :: rest =>
      let step : Int := match rest with
        | [] => 60000
        | next :: _ => next.t - b.t
      let i := ⌊((t - b.t : Int) : ℚ) / step⌋
      min (max i 0) (buckets.length - 1)

/-! ### The width -/

theorem niceStep_pos {minutes : ℚ} (hpos : 0 < minutes) : 0 < niceStep minutes := by
  rw [niceStep]
  cases h : STEPS.find? fun s : Int => minutes ≤ s with
  | some s =>
      have hall : ∀ s ∈ STEPS, 0 < s := by decide
      exact hall s (List.mem_of_find?_eq_some h)
  | none =>
      have hceil : 0 < ⌈minutes / 1440⌉ := Int.ceil_pos.2 (by positivity)
      exact Int.mul_pos hceil (by decide)

theorem le_niceStep (minutes : ℚ) : minutes ≤ niceStep minutes := by
  rw [niceStep]
  cases h : STEPS.find? fun s : Int => minutes ≤ s with
  | some s => simpa using List.find?_some h
  | none =>
      have hceil : minutes / 1440 ≤ ⌈minutes / 1440⌉ := Int.le_ceil _
      rw [div_le_iff₀ (by norm_num)] at hceil
      simpa using hceil

theorem windowMinutes_pos (start stop : Int) : 0 < windowMinutes start stop :=
  Int.lt_of_lt_of_le Int.one_pos (le_max_left 1 _)

theorem bucketMs_pos (start stop : Int) {target : ℚ} (htarget : 1 ≤ target) :
    0 < bucketMs start stop target := by
  have hminutes : (0 : ℚ) < windowMinutes start stop :=
    Int.cast_pos.2 (windowMinutes_pos start stop)
  exact Int.mul_pos (niceStep_pos (by positivity)) (by decide)

/-- At most half a minute is rounded away. -/
theorem window_lt (start stop : Int) : stop - start < windowMinutes start stop * 60000 + 30000 := by
  have hround : ⌊((stop - start : Int) : ℚ) / 60000 + 1 / 2⌋ < windowMinutes start stop + 1 :=
    Int.lt_add_one_iff.2 (le_max_right 1 _)
  have hlt : ((stop - start : Int) : ℚ) / 60000 < windowMinutes start stop + 1 / 2 := by
    have hlt := Int.floor_lt.1 hround
    push_cast at hlt ⊢
    linarith
  rw [div_lt_iff₀ (by norm_num)] at hlt
  have hcast : ((stop - start : Int) : ℚ) < (windowMinutes start stop * 60000 + 30000 : Int) := by
    push_cast at hlt ⊢
    linarith
  exact Int.cast_lt.1 hcast

/-! ### Series -/

inductive Series
  | succeeded | failed | retried | revoked | total | runtime
  deriving DecidableEq

def Series.ofRow : Series → TaskMetricsRow → ℚ
  | .succeeded, r => r.successCount
  | .failed, r => r.failureCount
  | .retried, r => r.retryCount
  | .revoked, r => r.revokedCount
  | .total, r => r.totalCount
  | .runtime, r => r.totalRuntime

def Series.ofBucket : Series → Bucket → ℚ
  | .succeeded, b => b.succeeded
  | .failed, b => b.failed
  | .retried, b => b.retried
  | .revoked, b => b.revoked
  | .total, b => b.total
  | .runtime, b => b.runtime

theorem Series.ofBucket_add (series : Series) (b : Bucket) (r : TaskMetricsRow) :
    series.ofBucket (b.add r) = series.ofBucket b + series.ofRow r := by
  cases series <;> simp [ofBucket, ofRow, Bucket.add]

theorem Series.ofBucket_emptyBucket (series : Series) (t : Int) (label : String) :
    series.ofBucket (emptyBucket t label) = 0 := by
  cases series <;> simp [ofBucket, emptyBucket]

/-! ### A row of buckets -/

/-- The bucket's piece of the time line has the minute. -/
def Bucket.Covers (width : Int) (b : Bucket) (minute : Int) : Prop :=
  b.t ≤ minute ∧ minute < b.t + width

instance (width : Int) (b : Bucket) (minute : Int) : Decidable (b.Covers width minute) :=
  inferInstanceAs (Decidable (_ ∧ _))

section Buckets

variable {first width : Int}

theorem rowIndex_eq_iff (hwidth : 0 < width) {r : TaskMetricsRow} {i : Int} :
    rowIndex first width r = i ↔
      first + i * width ≤ r.minute ∧ r.minute < first + i * width + width := by
  rw [rowIndex, Bins.floor_div_eq_iff hwidth]
  omega

theorem rowIndex_inside_iff (hwidth : 0 < width) {r : TaskMetricsRow} {n : Int} :
    0 ≤ rowIndex first width r ∧ rowIndex first width r < n ↔
      first ≤ r.minute ∧ r.minute < first + n * width := by
  rw [rowIndex, Bins.le_floor_div_iff hwidth, Bins.floor_div_lt_iff hwidth]
  omega

variable {format : Int → String → String} {long : Bool} {n : Nat} {rows : List TaskMetricsRow}
  {buckets : List Bucket}
  (hbuckets : countRows first width (emptyBuckets format long first width n) rows = buckets)
include hbuckets

theorem length_countRows : buckets.length = n := by
  simp [← hbuckets, countRows, emptyBuckets]

/-- Counting moves no bucket. -/
theorem t_getElem {i : Nat} (hi : i < buckets.length) : buckets[i].t = first + i * width := by
  have ht : ∀ (b : Bucket) (r : TaskMetricsRow), (b.add r).t = b.t := fun b r => rfl
  have hmap : buckets.map (·.t) = (List.range n).map fun i : Nat => first + i * width := by
    rw [← hbuckets, countRows, Bins.map_fill ht, emptyBuckets, List.map_map]
    rfl
  have hget := List.getElem_of_eq hmap (by rwa [List.length_map])
  simpa using hget

theorem ofBucket_getElem (series : Series) {i : Nat} (hi : i < buckets.length) :
    series.ofBucket buckets[i] =
      ((rows.filter fun r => rowIndex first width r = i).map series.ofRow).sum := by
  have hmap : (countRows first width (emptyBuckets format long first width n) rows).map
      series.ofBucket = _ := Bins.map_fill_measure series.ofBucket_add _ rows
  rw [hbuckets] at hmap
  have hget := List.getElem_of_eq hmap (by rwa [List.length_map])
  simpa [emptyBuckets, Series.ofBucket_emptyBucket] using hget

/-- A bucket has the rows of its piece. -/
theorem contents_countRows (hwidth : 0 < width) {b : Bucket} (hb : b ∈ buckets) (series : Series) :
    series.ofBucket b = ((rows.filter fun r => b.Covers width r.minute).map series.ofRow).sum := by
  obtain ⟨i, hi, rfl⟩ := List.getElem_of_mem hb
  rw [ofBucket_getElem hbuckets series hi]
  simp only [rowIndex_eq_iff hwidth, Bucket.Covers, t_getElem hbuckets hi]

theorem sum_countRows (hwidth : 0 < width) (series : Series) :
    (buckets.map series.ofBucket).sum =
      ((rows.filter fun r => first ≤ r.minute ∧ r.minute < first + n * width).map
        series.ofRow).sum := by
  have hsum : ((countRows first width (emptyBuckets format long first width n) rows).map
      series.ofBucket).sum = _ := Bins.sum_fill series.ofBucket_add _ rows
  rw [hbuckets] at hsum
  have hzero : ((emptyBuckets format long first width n).map series.ofBucket).sum = 0 := by
    rw [emptyBuckets, List.map_map]
    refine List.sum_eq_zero fun x hx => ?_
    obtain ⟨i, -, rfl⟩ := List.mem_map.1 hx
    exact series.ofBucket_emptyBucket _ _
  have hlength : (emptyBuckets format long first width n).length = n := by simp [emptyBuckets]
  simpa only [hzero, hlength, zero_add, rowIndex_inside_iff hwidth] using hsum

theorem covers_iff (hwidth : 0 < width) {i : Nat} (hi : i < buckets.length) (minute : Int) :
    buckets[i].Covers width minute ↔ ⌊((minute - first : Int) : ℚ) / width⌋ = i := by
  rw [Bucket.Covers, t_getElem hbuckets hi, Bins.floor_div_eq_iff hwidth]
  omega

theorem inside_of_covers (hwidth : 0 < width) {b : Bucket} (hb : b ∈ buckets) {minute : Int}
    (h : b.Covers width minute) : minute < first + n * width := by
  obtain ⟨i, hi, rfl⟩ := List.getElem_of_mem hb
  have hindex := (covers_iff hbuckets hwidth hi minute).1 h
  rw [length_countRows hbuckets] at hi
  have hlast := (Bins.floor_div_lt_iff (i := (n : Int)) hwidth).1 (by rw [hindex]; omega)
  omega

theorem head_countRows (hn : 0 < n) : ∃ b, buckets.head? = some b ∧ b.t = first := by
  have hlength : 0 < buckets.length := by rwa [length_countRows hbuckets]
  have ht := t_getElem hbuckets hlength
  refine ⟨buckets[0], ?_, by omega⟩
  rw [List.head?_eq_getElem?, List.getElem?_eq_getElem hlength]

theorem isChain_countRows : buckets.IsChain fun b c => c.t = b.t + width := by
  rw [List.isChain_iff_getElem]
  intro i hi
  rw [t_getElem hbuckets, t_getElem hbuckets]
  push_cast
  ring

theorem bucketIndex_countRows (htwo : 2 ≤ buckets.length) {minute : Int} {i : Nat}
    (hi : i < buckets.length) (hindex : ⌊((minute - first : Int) : ℚ) / width⌋ = i) :
    bucketIndex buckets minute = i := by
  obtain ⟨b, next, rest, rfl⟩ : ∃ b next rest, buckets = b :: next :: rest := by
    cases buckets with
    | nil => simp at htwo
    | cons b rest =>
        cases rest with
        | nil => simp at htwo
        | cons next rest => exact ⟨b, next, rest, rfl⟩
  have hb : b.t = first + (0 : Nat) * width := t_getElem hbuckets (i := 0) (by simp)
  have hnext : next.t = first + (1 : Nat) * width := t_getElem hbuckets (i := 1) (by simp)
  have hstep : next.t - b.t = width := by omega
  have hfirst : b.t = first := by omega
  simp only [bucketIndex, hstep]
  rw [hfirst, hindex]
  omega

/-- A minute inside the row is in one bucket. -/
theorem counted_countRows (hwidth : 0 < width) {minute : Int} (hfirst : first ≤ minute)
    (hlast : minute < first + n * width) :
    ∃ i : Nat, ∃ b, buckets[i]? = some b ∧ b.Covers width minute ∧
      (∀ (j : Nat) (c : Bucket), buckets[j]? = some c → c.Covers width minute → j = i) ∧
      (2 ≤ buckets.length → bucketIndex buckets minute = i) := by
  have hlow : 0 ≤ ⌊((minute - first : Int) : ℚ) / width⌋ :=
    (Bins.le_floor_div_iff hwidth).2 (by omega)
  have hhigh : ⌊((minute - first : Int) : ℚ) / width⌋ < n :=
    (Bins.floor_div_lt_iff hwidth).2 (by omega)
  obtain ⟨i, hindex⟩ := Int.eq_ofNat_of_zero_le hlow
  have hi : i < buckets.length := by
    rw [length_countRows hbuckets]
    omega
  refine ⟨i, buckets[i], List.getElem?_eq_getElem hi, (covers_iff hbuckets hwidth hi _).2 hindex,
    fun j c hj hc => ?_, fun htwo => bucketIndex_countRows hbuckets htwo hi hindex⟩
  obtain ⟨hlt, rfl⟩ := List.getElem?_eq_some_iff.1 hj
  have hindex' := (covers_iff hbuckets hwidth hlt _).1 hc
  omega

end Buckets

/-! ### Where the buckets end -/

/-- Where the last bucket ends. -/
def bucketsEnd (start stop width : Int) : Int :=
  firstBucket start width + bucketCount (firstBucket start width) stop width * width

section Ends

variable {start stop width : Int} (hwidth : 0 < width)
include hwidth

theorem firstBucket_le : firstBucket start width ≤ start :=
  ((Bins.floor_div_eq_iff hwidth).1 rfl).1

theorem lt_firstBucket_add : start < firstBucket start width + width :=
  ((Bins.floor_div_eq_iff hwidth).1 rfl).2

/-- The end of the window is where a bucket begins: there is none for it. -/
theorem bucketsEnd_of_dvd (hdvd : width ∣ stop) (hlt : start < stop) :
    bucketsEnd start stop width = stop := by
  obtain ⟨k, rfl⟩ := hdvd
  rw [Int.mul_comm] at hlt ⊢
  have hbelow : ⌊(start : ℚ) / width⌋ < k := (Bins.floor_div_lt_iff hwidth).2 hlt
  have hceil : ⌈((k * width - firstBucket start width : Int) : ℚ) / width⌉ =
      k - ⌊(start : ℚ) / width⌋ := by
    rw [Bins.ceil_div_eq_iff hwidth, firstBucket, ← sub_mul]
    omega
  rw [bucketsEnd, bucketCount, hceil, max_eq_right (by omega), sub_mul, firstBucket]
  omega

/-- The end of the window is inside of the last bucket. -/
theorem bucketsEnd_of_not (hle : start ≤ stop) (hinside : ¬ (width ∣ stop ∧ start < stop)) :
    bucketsEnd start stop width = stop / width * width + width := by
  obtain ⟨hlow, hhigh⟩ := (Bins.ediv_eq_iff hwidth).1 (rfl : stop / width = stop / width)
  have hnext : (stop / width + 1) * width = stop / width * width + width := by ring
  have hbelow : ⌊(start : ℚ) / width⌋ < stop / width + 1 :=
    (Bins.floor_div_lt_iff hwidth).2 (by omega)
  have hsub : (stop / width + 1 - ⌊(start : ℚ) / width⌋) * width =
      stop / width * width + width - ⌊(start : ℚ) / width⌋ * width := by ring
  by_cases hdvd : width ∣ stop
  · -- the window is one point, where a bucket begins
    have heq : start = stop := by omega
    subst heq
    have hstart : start / width * width = start := Int.ediv_mul_cancel hdvd
    have hfirst : ⌊(start : ℚ) / width⌋ = start / width :=
      (Bins.floor_div_eq_iff hwidth).2 ⟨hlow, hhigh⟩
    rw [bucketsEnd, bucketCount, firstBucket, hfirst, hstart, sub_self, Int.cast_zero, zero_div,
      Int.ceil_zero, max_eq_left Int.one_nonneg, one_mul]
  · have hne : stop / width * width ≠ stop := fun heq => hdvd (Dvd.intro_left _ heq)
    have hceil : ⌈((stop - firstBucket start width : Int) : ℚ) / width⌉ =
        stop / width + 1 - ⌊(start : ℚ) / width⌋ := by
      rw [Bins.ceil_div_eq_iff hwidth, firstBucket, hsub]
      omega
    rw [bucketsEnd, bucketCount, hceil, max_eq_right (by omega), hsub, firstBucket]
    omega

end Ends

theorem bucketCount_le {start stop : Int} {target : ℚ} (htarget : 1 ≤ target) :
    (bucketCount (firstBucket start (bucketMs start stop target)) stop
      (bucketMs start stop target) : ℚ) ≤ target + 2 := by
  have hwidth := bucketMs_pos start stop htarget
  have hone : 1 ≤ ⌊target⌋ := Int.le_floor.2 (by simpa using htarget)
  have hpos := windowMinutes_pos start stop
  -- a width of `step` minutes cuts the minutes of the window into `target` pieces at most
  have hminutes : windowMinutes start stop <
      (⌊target⌋ + 1) * niceStep (windowMinutes start stop / target) := by
    have hpos' : (0 : ℚ) < windowMinutes start stop := Int.cast_pos.2 hpos
    have hstep := le_niceStep (windowMinutes start stop / target)
    have hstep' : (0 : ℚ) < niceStep (windowMinutes start stop / target) :=
      Int.cast_pos.2 (niceStep_pos (by positivity))
    rw [div_le_iff₀ (by positivity)] at hstep
    have hlt := mul_lt_mul_of_pos_left (Int.lt_floor_add_one target) hstep'
    have hcast : (windowMinutes start stop : ℚ) <
        ((⌊target⌋ + 1) * niceStep (windowMinutes start stop / target) : Int) := by
      push_cast
      linarith
    exact Int.cast_lt.1 hcast
  have hwindow := window_lt start stop
  have hfirst := @lt_firstBucket_add start _ hwidth
  have hcount : bucketCount (firstBucket start (bucketMs start stop target)) stop
      (bucketMs start stop target) ≤ ⌊target⌋ + 2 := by
    refine max_le (by omega) ((Bins.ceil_div_le_iff hwidth).2 ?_)
    have hsplit : (⌊target⌋ + 2) * bucketMs start stop target =
        (⌊target⌋ + 1) * niceStep (windowMinutes start stop / target) * 60000 +
          bucketMs start stop target := by
      rw [bucketMs]
      ring
    omega
  have hfloor := Int.floor_le target
  have hcast := (Int.cast_le (R := ℚ)).2 hcount
  push_cast at hcast
  linarith

/-- The buckets count the rows of the window, and no others. -/
structure Conserves (rows : List TaskMetricsRow) (start stop width : Int) (target : ℚ)
    (buckets : List Bucket) : Prop where
  contents : ∀ b ∈ buckets, ∀ series : Series,
    series.ofBucket b = ((rows.filter fun r => b.Covers width r.minute).map series.ofRow).sum
  /-- A row of the window is in one bucket, the one at its index. -/
  counted : ∀ r ∈ rows, start ≤ r.minute → r.minute ≤ stop → ∃ i : Nat, ∃ b,
    buckets[i]? = some b ∧ b.Covers width r.minute ∧
      (∀ (j : Nat) (c : Bucket), buckets[j]? = some c → c.Covers width r.minute → j = i) ∧
      (2 ≤ buckets.length → bucketIndex buckets r.minute = i)
  /-- All series, from the start of the first bucket on. -/
  sums : ∃ b, buckets.head? = some b ∧ b.Covers width start ∧ ∀ series : Series,
    (buckets.map series.ofBucket).sum =
      ((rows.filter fun r => b.t ≤ r.minute ∧ r.minute ≤ stop).map series.ofRow).sum
  contiguous : buckets.IsChain fun b c => c.t = b.t + width
  few : (buckets.length : ℚ) ≤ target + 2

/-! ### Windows -/

/-- The buckets of a window are a row of at least one. -/
theorem exists_bucketizeRange (format : Int → String → String) (rows : List TaskMetricsRow)
    (start stop : Int) (target : ℚ) {width : Int} (hwidth : bucketMs start stop target = width) :
    ∃ (long : Bool) (n : Nat), bucketCount (firstBucket start width) stop width = n ∧ 0 < n ∧
      countRows (firstBucket start width) width
        (emptyBuckets format long (firstBucket start width) width n) rows =
          bucketizeRange format rows start stop target := by
  have hone : 1 ≤ bucketCount (firstBucket start width) stop width := le_max_left 1 _
  obtain ⟨n, hn⟩ := Int.eq_ofNat_of_zero_le (le_trans Int.one_nonneg hone)
  refine ⟨decide (windowMinutes start stop > 24 * 60), n, hn, by omega, ?_⟩
  rw [bucketizeRange, hwidth, hn, Int.toNat_natCast]

/-- What is left to show is where the buckets end. -/
theorem conserves_iff (format : Int → String → String) (rows : List TaskMetricsRow)
    (start stop : Int) {target : ℚ} (htarget : 1 ≤ target) {width : Int}
    (hwidth : bucketMs start stop target = width) :
    Conserves rows start stop width target (bucketizeRange format rows start stop target) ↔
      (∀ r ∈ rows, start ≤ r.minute → r.minute ≤ stop → r.minute < bucketsEnd start stop width) ∧
      ∀ series : Series,
        ((rows.filter fun r => firstBucket start width ≤ r.minute ∧
            r.minute < bucketsEnd start stop width).map series.ofRow).sum =
          ((rows.filter fun r => firstBucket start width ≤ r.minute ∧ r.minute ≤ stop).map
            series.ofRow).sum := by
  have hpos : 0 < width := hwidth ▸ bucketMs_pos start stop htarget
  obtain ⟨long, n, hn, hone, hcount⟩ := exists_bucketizeRange format rows start stop target hwidth
  obtain ⟨first, hhead, ht⟩ := head_countRows hcount hone
  have hend : firstBucket start width + n * width = bucketsEnd start stop width := by
    rw [bucketsEnd, hn]
  constructor
  · intro h
    constructor
    · intro r hr hstart hstop
      obtain ⟨i, b, hi, hcovers, -⟩ := h.counted r hr hstart hstop
      rw [← hend]
      exact inside_of_covers hcount hpos (List.mem_of_getElem? hi) hcovers
    · intro series
      obtain ⟨b, hb, -, hsum⟩ := h.sums
      obtain rfl : first = b := Option.some.inj (hhead.symm.trans hb)
      rw [← hend, ← sum_countRows hcount hpos, hsum, ht]
  · intro h
    obtain ⟨hinside, hsum⟩ := h
    refine ⟨fun b hb => contents_countRows hcount hpos hb, fun r hr hstart hstop => ?_,
      ⟨first, hhead, ⟨?_, ?_⟩, fun series => ?_⟩, isChain_countRows hcount, ?_⟩
    · refine counted_countRows hcount hpos ((firstBucket_le hpos).trans hstart) ?_
      rw [hend]
      exact hinside r hr hstart hstop
    · rw [ht]
      exact firstBucket_le hpos
    · rw [ht]
      exact lt_firstBucket_add hpos
    · rw [sum_countRows hcount hpos, hend, hsum, ht]
    · have hfew := @bucketCount_le start stop target htarget
      rw [hwidth, hn] at hfew
      rw [length_countRows hcount]
      exact_mod_cast hfew

section Conservation

variable (format : Int → String → String) (rows : List TaskMetricsRow) {start stop : Int}
  {target : ℚ} (htarget : 1 ≤ target) {width : Int} (hwidth : bucketMs start stop target = width)
include htarget hwidth

/-- A bucket would begin where the window ends. -/
theorem conserves_iff_of_dvd (hdvd : width ∣ stop) (hlt : start < stop) :
    Conserves rows start stop width target (bucketizeRange format rows start stop target) ↔
      ∀ r ∈ rows, r.minute ≠ stop := by
  have hpos : 0 < width := hwidth ▸ bucketMs_pos start stop htarget
  rw [conserves_iff format rows start stop htarget hwidth, bucketsEnd_of_dvd hpos hdvd hlt]
  constructor
  · intro h r hr heq
    have hless := h.1 r hr (by omega) (by omega)
    omega
  · intro h
    refine ⟨fun r hr _ hle => lt_of_le_of_ne hle (h r hr), fun series => ?_⟩
    congr 2
    refine List.filter_congr fun r hr => ?_
    have hne := h r hr
    rw [decide_eq_decide]
    omega

/-- The window ends inside of a bucket. -/
theorem conserves_iff_of_not (hle : start ≤ stop) (hinside : ¬ (width ∣ stop ∧ start < stop)) :
    Conserves rows start stop width target (bucketizeRange format rows start stop target) ↔
      ∀ series : Series,
        ((rows.filter fun r => stop < r.minute ∧ r.minute / width = stop / width).map
          series.ofRow).sum = 0 := by
  have hpos : 0 < width := hwidth ▸ bucketMs_pos start stop htarget
  have hfirst := @firstBucket_le start _ hpos
  have hlast := bucketsEnd_of_not hpos hle hinside
  obtain ⟨hlow, hhigh⟩ := (Bins.ediv_eq_iff hpos).1 (rfl : stop / width = stop / width)
  have hsplit : ∀ series : Series,
      ((rows.filter fun r => firstBucket start width ≤ r.minute ∧
        r.minute < bucketsEnd start stop width).map series.ofRow).sum =
      ((rows.filter fun r => firstBucket start width ≤ r.minute ∧ r.minute ≤ stop).map
        series.ofRow).sum +
      ((rows.filter fun r => stop < r.minute ∧ r.minute / width = stop / width).map
        series.ofRow).sum := by
    intro series
    refine Bins.sum_filter_split (fun r _ => ?_) fun r _ h => ?_
    · simp only [decide_eq_true_eq, Bins.ediv_eq_iff hpos]
      omega
    · have hle := of_decide_eq_true h
      exact decide_eq_false fun hgt => by omega
  rw [conserves_iff format rows start stop htarget hwidth]
  constructor
  · intro h series
    have hsum := h.2 series
    rwa [hsplit, add_eq_left] at hsum
  · intro h
    refine ⟨fun r _ _ hle => by omega, fun series => ?_⟩
    rw [hsplit, h series, add_zero]

end Conservation

/-- The last minutes, when no row is from the future and no bucket begins right now. -/
theorem bucketize_conserves (format : Int → String → String) (rows : List TaskMetricsRow)
    (fromMinutes now : Int) (hfrom : 0 ≤ fromMinutes) (target : ℚ) (htarget : 1 ≤ target)
    (hrows : ∀ r ∈ rows, r.minute ≤ now)
    (hnow : ¬ bucketMs (now - fromMinutes * 60000) now target ∣ now) :
    Conserves rows (now - fromMinutes * 60000) now (bucketMs (now - fromMinutes * 60000) now target)
      target (bucketize format rows fromMinutes now target) := by
  refine (conserves_iff_of_not format rows htarget rfl (by omega) fun h => hnow h.1).2
    fun series => ?_
  rw [List.filter_eq_nil_iff.2 fun r hr h => ?_]
  · rfl
  · have hle := hrows r hr
    have hgt := (of_decide_eq_true h).1
    omega

/-- **Chart buckets.** They count the rows of the window and no others exactly when no row has the
end of the window for its minute, if a bucket begins there, and else when the rows behind the end,
up to where its bucket ends, add nothing. -/
theorem bucketizeRange_conserves_iff (format : Int → String → String) (rows : List TaskMetricsRow)
    (start stop : Int) (hwindow : start ≤ stop) (target : ℚ) (htarget : 1 ≤ target) :
    Conserves rows start stop (bucketMs start stop target) target
        (bucketizeRange format rows start stop target) ↔
      if bucketMs start stop target ∣ stop ∧ start < stop then ∀ r ∈ rows, r.minute ≠ stop
      else ∀ series : Series,
        ((rows.filter fun r => stop < r.minute ∧
          r.minute / bucketMs start stop target = stop / bucketMs start stop target).map
            series.ofRow).sum = 0 := by
  split
  · rename_i haligned
    exact conserves_iff_of_dvd format rows htarget rfl haligned.1 haligned.2
  · rename_i hinside
    exact conserves_iff_of_not format rows htarget rfl hwindow hinside

/-! ### Rows at the end of an hour and of a day -/

/-- The format as it is. -/
def asPattern (_ : Int) (pattern : String) : String := pattern

def totalAt (minute : Int) (total : Nat) : TaskMetricsRow :=
  { minute, successCount := 0, failureCount := 0, retryCount := 0, revokedCount := 0,
    totalCount := total, totalRuntime := 0 }

theorem bucketMs_hour : bucketMs 0 3600000 60 = 60000 := by decide +kernel

theorem bucketizeRange_conserves_iff_sample :
    Conserves [totalAt 300000 3, totalAt 3540000 1] 0 3600000 (bucketMs 0 3600000 60) 60
      (bucketizeRange asPattern [totalAt 300000 3, totalAt 3540000 1] 0 3600000 60) :=
  (bucketizeRange_conserves_iff asPattern [totalAt 300000 3, totalAt 3540000 1] 0 3600000
    (by decide) 60 (by norm_num)).2 (by rw [bucketMs_hour, if_pos (by decide)]; decide)

/-- The minute that ends the hour is in no bucket; ten minutes behind a day and five minutes are in
the last one. -/
theorem minutes_misplaced :
    (¬ Conserves [totalAt 3600000 9] 0 3600000 (bucketMs 0 3600000 60) 60
        (bucketizeRange asPattern [totalAt 3600000 9] 0 3600000 60)) ∧
      ((bucketizeRange asPattern [totalAt 3600000 9] 0 3600000 60).map (·.total)).sum = 0 ∧
      ((bucketizeRange asPattern [totalAt 87300000 9] 0 86700000 60).map (·.total)).sum = 9 := by
  have hnone : ∀ b ∈ bucketizeRange asPattern [totalAt 3600000 9] 0 3600000 60,
      ¬ b.Covers (bucketMs 0 3600000 60) 3600000 := by
    rw [bucketMs_hour]
    decide +kernel
  refine ⟨fun h => ?_, by decide +kernel, by decide +kernel⟩
  obtain ⟨i, b, hb, hcovers, -⟩ :=
    h.counted (totalAt 3600000 9) (by simp) (by decide) (by decide)
  exact hnone b (List.mem_of_getElem? hb) hcovers

end Feloxi.Web
