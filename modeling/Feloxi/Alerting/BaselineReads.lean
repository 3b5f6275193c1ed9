import Feloxi.Alerting.Baseline
import Feloxi.Alerting.TaskGlobs
import Feloxi.Views.MetricViews

/-!
# Feloxi.Alerting.BaselineReads

What the throughput anomaly reads (`get_throughput_moments` and `get_recent_completed_count`,
`crates/db/src/clickhouse/aggregations.rs`), from the view of finished tasks. The view's rows are cut
differently from one merge of the engine to the next; the two reads are those of the events.
-/

namespace Feloxi.Alerting

open Pipeline (TaskEventRow)
open Summing
open Views

section

variable (s : MetricTables) (tenantId : Uuid) (taskPattern : String)

/-- The rows of the tenant and the task pattern. -/
def scopedRows : List TaskMetricsRow :=
  s.taskMetricsMv.filter fun r => r.1.tenantId == tenantId && selects taskPattern r.1.taskName

/-- What the moments take from them. -/
def baselineRows : List MetricsRow :=
  (scopedRows s tenantId taskPattern).map fun r =>
    { minute := r.1.minute.1, totalCount := r.2.totalCount, startOfMinute := r.1.minute.2 }

/-- `get_recent_completed_count`. -/
def getRecentCompletedCount (now : Int) (windowMinutes : Nat) : Nat :=
  (((scopedRows s tenantId taskPattern).filter fun r =>
    decide (now - 60 * windowMinutes ≤ r.1.minute.1)).map (·.2.totalCount)).sum

/-- The finished tasks of the tenant and the task pattern. -/
def scopedEvents : List TaskEventRow :=
  s.taskEvents.filter fun e =>
    terminal e && (e.tenantId == tenantId && selects taskPattern e.taskName)

/-- A row of its own for every event. -/
def eventRows : List MetricsRow :=
  (scopedEvents s tenantId taskPattern).map fun e =>
    { minute := (toStartOfMinute (millis e)).1, totalCount := 1,
      startOfMinute := (toStartOfMinute (millis e)).2 }

end

/-! ### Moments by minutes -/

/-- Two lists of rows with the same minutes, and the same count over any of them. -/
structure SameMinutes (rows rows' : List MetricsRow) : Prop where
  counts : ∀ p : Int → Bool, ((rows.filter fun r => p r.minute).map (·.totalCount)).sum =
    ((rows'.filter fun r => p r.minute).map (·.totalCount)).sum
  present : ∀ minute, minute ∈ rows.map (·.minute) ↔ minute ∈ rows'.map (·.minute)

variable {rows rows' : List MetricsRow} {now : Int} {window hours : Nat}

theorem SameMinutes.mem_buckets_imp (h : SameMinutes rows rows') {bucket : Int}
    (hmem : bucket ∈ buckets rows now window hours) : bucket ∈ buckets rows' now window hours := by
  obtain ⟨row, hrow, hinside, hbucket⟩ := mem_buckets.1 hmem
  obtain ⟨row', hrow', hminute⟩ :=
    List.mem_map.1 ((h.present row.minute).1 (List.mem_map_of_mem hrow))
  refine mem_buckets.2 ⟨row', hrow', ?_, ?_⟩
  · rw [inBaseline, hminute]
    exact hinside
  · rw [hminute]
    exact hbucket

theorem SameMinutes.symm (h : SameMinutes rows rows') : SameMinutes rows' rows :=
  ⟨fun p => (h.counts p).symm, fun minute => (h.present minute).symm⟩

theorem SameMinutes.buckets_perm (h : SameMinutes rows rows') :
    (buckets rows now window hours).Perm (buckets rows' now window hours) :=
  (List.perm_ext_iff_of_nodup (List.nodup_dedup _) (List.nodup_dedup _)).2 fun _ =>
    ⟨h.mem_buckets_imp, h.symm.mem_buckets_imp⟩

theorem SameMinutes.bucketCounts_perm (h : SameMinutes rows rows') :
    (bucketCounts rows now window hours).Perm (bucketCounts rows' now window hours) := by
  have hcount : ∀ bucket : Int,
      (((rows.filter (inBaseline now window hours)).filter fun row =>
        toStartOfInterval row.minute window == bucket).map (·.totalCount)).sum =
      (((rows'.filter (inBaseline now window hours)).filter fun row =>
        toStartOfInterval row.minute window == bucket).map (·.totalCount)).sum := by
    intro bucket
    rw [List.filter_filter, List.filter_filter]
    exact h.counts fun minute => toStartOfInterval minute window == bucket &&
      (decide (now - 3600 * hours ≤ minute) && decide (minute < toStartOfInterval now window))
  rw [bucketCounts, bucketCounts, List.map_congr_left fun bucket _ => hcount bucket]
  exact h.buckets_perm.map _

/-- The moments are sums over minutes. -/
theorem SameMinutes.moments_eq (h : SameMinutes rows rows') :
    getThroughputMoments rows now window hours = getThroughputMoments rows' now window hours := by
  have hperm := @bucketCounts_perm _ _ now window hours h
  simp only [getThroughputMoments, hperm.sum_eq, (hperm.map fun cnt => cnt * cnt).sum_eq]

theorem mem_minutes_iff (hpos : ∀ r ∈ rows, 0 < r.totalCount) (minute : Int) :
    minute ∈ rows.map (·.minute) ↔
      0 < ((rows.filter fun r => r.minute == minute).map (·.totalCount)).sum := by
  rw [List.sum_pos_iff_exists_pos_nat]
  constructor
  · intro h
    obtain ⟨r, hr, hminute⟩ := List.mem_map.1 h
    exact ⟨_, List.mem_map_of_mem (List.mem_filter.2 ⟨hr, beq_iff_eq.2 hminute⟩), hpos r hr⟩
  · intro h
    obtain ⟨_, hmem, -⟩ := h
    obtain ⟨r, hr, -⟩ := List.mem_map.1 hmem
    obtain ⟨hr, hminute⟩ := List.mem_filter.1 hr
    exact List.mem_map.2 ⟨r, hr, eq_of_beq hminute⟩

/-- With counts that are never zero, the counts tell which minutes there are. -/
theorem SameMinutes.of_counts (hpos : ∀ r ∈ rows, 0 < r.totalCount)
    (hpos' : ∀ r ∈ rows', 0 < r.totalCount)
    (h : ∀ p : Int → Bool, ((rows.filter fun r => p r.minute).map (·.totalCount)).sum =
      ((rows'.filter fun r => p r.minute).map (·.totalCount)).sum) : SameMinutes rows rows' where
  counts := h
  present minute := by
    rw [mem_minutes_iff hpos, mem_minutes_iff hpos', h fun m => m == minute]

/-! ### The reads -/

section

variable {s : MetricTables} {tenantId : Uuid} {taskPattern : String}

/-- A sum over the rows in scope counts the finished tasks in scope. -/
theorem sum_scopedRows (h : s.Exact) (p : Int → Bool) :
    (((scopedRows s tenantId taskPattern).filter fun r => p r.1.minute.1).map
      (·.2.totalCount)).sum =
    (scopedEvents s tenantId taskPattern).countP fun e => p (toStartOfMinute (millis e)).1 := by
  have hsum := h.tasks .total fun k =>
    p k.minute.1 && (k.tenantId == tenantId && selects taskPattern k.taskName)
  rw [weigh] at hsum
  rw [scopedRows, List.filter_filter]
  refine hsum.trans ?_
  rw [scopedEvents, List.countP_filter]
  refine List.countP_congr fun e _ => ?_
  simp only [taskMetricsKey, TaskColumn.counts, Bool.and_eq_true]
  tauto

theorem sameMinutes (h : s.Exact) :
    SameMinutes (baselineRows s tenantId taskPattern) (eventRows s tenantId taskPattern) := by
  refine .of_counts (fun r hr => ?_) (fun r hr => ?_) fun p => ?_
  · obtain ⟨row, hrow, rfl⟩ := List.mem_map.1 hr
    exact h.counted row (List.mem_filter.1 hrow).1
  · obtain ⟨e, -, rfl⟩ := List.mem_map.1 hr
    exact Nat.one_pos
  · rw [baselineRows, List.filter_map, List.map_map, eventRows, List.filter_map, List.map_map]
    refine (sum_scopedRows h p).trans ?_
    simp [Function.comp_def, List.countP_eq_length_filter]

end

/-- **What the anomaly reads** is what the events say, whatever is inserted and whenever the engine
merges: the tasks that finished in the window, and for the baseline the same moments and the same
number of buckets as if the view had a row for every event. -/
theorem baselineReads_after (changes : List TableChange) (tenantId : Uuid) (taskPattern : String)
    (now : Int) (window hours : Nat) :
    getRecentCompletedCount (MetricTables.after changes) tenantId taskPattern now window =
      ((scopedEvents (MetricTables.after changes) tenantId taskPattern).countP fun e =>
        decide (now - 60 * window ≤ (toStartOfMinute (millis e)).1)) ∧
    getThroughputMoments (baselineRows (MetricTables.after changes) tenantId taskPattern) now window
        hours =
      getThroughputMoments (eventRows (MetricTables.after changes) tenantId taskPattern) now window
        hours ∧
    bucketsPresent (baselineRows (MetricTables.after changes) tenantId taskPattern) now window
        hours =
      bucketsPresent (eventRows (MetricTables.after changes) tenantId taskPattern) now window
        hours := by
  have hexact := MetricTables.exact_after changes
  have hsame := @sameMinutes _ tenantId taskPattern hexact
  exact ⟨sum_scopedRows hexact fun minute => decide (now - 60 * window ≤ minute),
    hsame.moments_eq, hsame.buckets_perm.length_eq⟩

end Feloxi.Alerting
