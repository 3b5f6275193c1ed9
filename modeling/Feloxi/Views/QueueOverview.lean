import Feloxi.Views.MetricViews
import Mathlib.Algebra.Group.Nat.Defs

/-!
# Feloxi.Views.QueueOverview

The queues of a tenant (`get_queue_overview` and `get_queue_metrics`,
`crates/db/src/clickhouse/aggregations.rs`), from the per-minute view of the queues.
-/

namespace Feloxi.Views

open Pipeline (TaskEventRow)
open Queries
open Summing

/-! ### The queries -/

structure QueueOverviewRow where
  queue : String
  enqueued : Nat
  completed : Nat
  failed : Nat
  backlog : Int
  avgRuntime : F64
  deriving DecidableEq

/-- The sums of the inner query. -/
def queueSums (part : List QueueMetricsRow) : QueueMetrics where
  enqueued := (part.map (·.2.enqueued)).sum
  dequeued := (part.map (·.2.dequeued)).sum
  completed := (part.map (·.2.completed)).sum
  failed := (part.map (·.2.failed)).sum

/-- A row of the outer query: the difference of unsigned counts, read as a signed integer. -/
def overviewRow (g : String × QueueMetrics) : QueueOverviewRow :=
  { queue := g.1
    enqueued := g.2.enqueued
    completed := g.2.completed
    failed := g.2.failed
    backlog := ((g.2.enqueued : Int) - g.2.completed - g.2.failed).bmod (2 ^ 64)
    avgRuntime := .zero }

section

variable (s : MetricTables) (now : Int) (tenantId : Uuid) (fromMinutes : Nat)

/-- The rows of the tenant in the window. -/
def queueRows : List QueueMetricsRow :=
  s.queueMetricsMv.filter fun r =>
    r.1.tenantId == tenantId && decide (now - 60 * fromMinutes ≤ r.1.minute.1)

def getQueueMetrics (oldestFirst : OrderBy fun r : QueueMetricsRow => r.1.minute.1)
    (queue : String) : List QueueMetricsRow :=
  oldestFirst.sort ((queueRows s now tenantId fromMinutes).filter fun r => r.1.queue == queue)

def overviewRows : List QueueOverviewRow :=
  (groupBy (fun r : QueueMetricsRow => r.1.queue) queueSums
    ((queueRows s now tenantId fromMinutes).filter fun r => r.1.queue != "")).map overviewRow

def getQueueOverview (mostEnqueued : OrderBy fun r : QueueOverviewRow => -(r.enqueued : Int)) :
    List QueueOverviewRow :=
  (mostEnqueued.sort (overviewRows s now tenantId fromMinutes)).take 50

/-- The events of a queue in the window that a count is of. -/
def countOf (c : QueueColumn) (queue : String) : Nat :=
  s.taskEvents.countP fun e => e.tenantId == tenantId && e.queue == queue &&
    decide (now - 60 * fromMinutes ≤ (toStartOfMinute (millis e)).1) && c.counts e

end

/-! ### What the overview shows -/

/-- The overview is that of the events: the busiest queues, in order, with the number of events of
each kind. -/
structure Overview (s : MetricTables) (now : Int) (tenantId : Uuid) (fromMinutes : Nat)
    (rows : List QueueOverviewRow) : Prop where
  length_le : rows.length ≤ 50
  nodup : (rows.map (·.queue)).Nodup
  sorted : rows.Pairwise fun a b => b.enqueued ≤ a.enqueued
  named : ∀ r ∈ rows, r.queue ≠ ""
  enqueued : ∀ r ∈ rows, r.enqueued = countOf s now tenantId fromMinutes .enqueued r.queue
  completed : ∀ r ∈ rows, r.completed = countOf s now tenantId fromMinutes .completed r.queue
  failed : ∀ r ∈ rows, r.failed = countOf s now tenantId fromMinutes .failed r.queue
  backlog : ∀ r ∈ rows, r.backlog = ((countOf s now tenantId fromMinutes .enqueued r.queue : Int) -
    countOf s now tenantId fromMinutes .completed r.queue -
    countOf s now tenantId fromMinutes .failed r.queue).bmod (2 ^ 64)
  /-- A queue with events is there, if there is room for it. -/
  shown : ∀ queue ≠ "", (∃ c, 0 < countOf s now tenantId fromMinutes c queue) →
    (∃ r ∈ rows, r.queue = queue) ∨
      rows.length = 50 ∧ ∀ r ∈ rows, countOf s now tenantId fromMinutes .enqueued queue ≤ r.enqueued

section

variable {s : MetricTables} {now : Int} {tenantId : Uuid} {fromMinutes : Nat}

/-- A sum over the rows of a queue counts its events. -/
theorem sum_queueRows (h : s.Exact) (c : QueueColumn) (queue : String) :
    ((((queueRows s now tenantId fromMinutes).filter fun r => r.1.queue == queue).map fun r =>
      c.of r.2).sum) = countOf s now tenantId fromMinutes c queue := by
  have hsum := h.queues c fun k => k.queue == queue &&
    (k.tenantId == tenantId && decide (now - 60 * fromMinutes ≤ k.minute.1))
  rw [weigh] at hsum
  rw [queueRows, List.filter_filter, hsum, countOf]
  refine List.countP_congr fun e _ => ?_
  simp only [queueMetricsKey, Bool.and_eq_true]
  tauto

/-- The series of a queue adds up to what the overview shows of it. -/
theorem weigh_getQueueMetrics (h : s.Exact)
    (oldestFirst : OrderBy fun r : QueueMetricsRow => r.1.minute.1) (c : QueueColumn)
    (queue : String) :
    weigh c.of (fun _ => true) (getQueueMetrics s now tenantId fromMinutes oldestFirst queue) =
      countOf s now tenantId fromMinutes c queue := by
  rw [getQueueMetrics, weigh_perm (oldestFirst.perm _), ← sum_queueRows h, weigh, List.filter_true]

theorem queueSums_eq (part : List QueueMetricsRow) (c : QueueColumn) :
    c.of (queueSums part) = (part.map fun r => c.of r.2).sum := by cases c <;> rfl

theorem queueSums_named (h : s.Exact) (c : QueueColumn) {queue : String} (hqueue : queue ≠ "") :
    c.of (queueSums (((queueRows s now tenantId fromMinutes).filter fun r => r.1.queue != "").filter
      fun r => r.1.queue = queue)) = countOf s now tenantId fromMinutes c queue := by
  rw [queueSums_eq, ← sum_queueRows h, List.filter_filter]
  congr 2
  refine List.filter_congr fun r _ => ?_
  by_cases heq : r.1.queue = queue <;> simp [heq, hqueue]

/-- A queue with events has a row in the view. -/
theorem exists_queueRow (h : s.Exact) {c : QueueColumn} {queue : String}
    (hpos : 0 < countOf s now tenantId fromMinutes c queue) :
    ∃ r ∈ queueRows s now tenantId fromMinutes, r.1.queue = queue := by
  rw [← sum_queueRows h] at hpos
  by_contra hnone
  have hempty : ((queueRows s now tenantId fromMinutes).filter fun r => r.1.queue == queue) = [] :=
    List.filter_eq_nil_iff.2 fun r hr hqueue => hnone ⟨r, hr, eq_of_beq hqueue⟩
  rw [hempty] at hpos
  exact Nat.lt_irrefl 0 hpos

theorem nodup_overviewRows :
    ((overviewRows s now tenantId fromMinutes).map (·.queue)).Nodup := by
  have hkeys : ((overviewRows s now tenantId fromMinutes).map (·.queue)) =
      (groupBy (fun r : QueueMetricsRow => r.1.queue) queueSums
        ((queueRows s now tenantId fromMinutes).filter fun r => r.1.queue != "")).map Prod.fst := by
    simp [overviewRows, overviewRow]
  rw [hkeys]
  exact nodup_keys_groupBy

theorem exists_overviewRow {queue : String} (hqueue : queue ≠ "")
    (h : ∃ r ∈ queueRows s now tenantId fromMinutes, r.1.queue = queue) :
    ∃ r ∈ overviewRows s now tenantId fromMinutes, r.queue = queue := by
  obtain ⟨row, hrow, hname⟩ := h
  have hnamed : row ∈ (queueRows s now tenantId fromMinutes).filter fun r => r.1.queue != "" :=
    List.mem_filter.2 ⟨hrow, by simpa [hname] using hqueue⟩
  have hkey : queue ∈ (groupBy (fun r : QueueMetricsRow => r.1.queue) queueSums
      ((queueRows s now tenantId fromMinutes).filter fun r => r.1.queue != "")).map Prod.fst :=
    mem_keys_groupBy.2 ⟨row, hnamed, hname⟩
  obtain ⟨g, hg, hfst⟩ := List.mem_map.1 hkey
  exact ⟨overviewRow g, List.mem_map_of_mem hg, hfst⟩

/-- A row of the overview has the counts of its queue. -/
theorem counts_of_mem (h : s.Exact) {r : QueueOverviewRow}
    (hr : r ∈ overviewRows s now tenantId fromMinutes) :
    r.queue ≠ "" ∧ r = overviewRow (r.queue,
      { enqueued := countOf s now tenantId fromMinutes .enqueued r.queue
        dequeued := countOf s now tenantId fromMinutes .dequeued r.queue
        completed := countOf s now tenantId fromMinutes .completed r.queue
        failed := countOf s now tenantId fromMinutes .failed r.queue }) := by
  obtain ⟨⟨queue, sums⟩, hg, rfl⟩ := List.mem_map.1 hr
  obtain ⟨row, hrow, hname⟩ := mem_keys_groupBy.1 (List.mem_map_of_mem hg)
  have hqueue : queue ≠ "" := by
    have hnamed := (List.mem_filter.1 hrow).2
    rw [hname] at hnamed
    simpa using hnamed
  refine ⟨hqueue, ?_⟩
  have hsums := eq_of_mem_groupBy hg
  have hcount : ∀ c : QueueColumn, c.of sums = countOf s now tenantId fromMinutes c queue := by
    intro c
    exact (congrArg c.of hsums).trans (queueSums_named h c hqueue)
  have henqueued := hcount .enqueued
  have hcompleted := hcount .completed
  have hfailed := hcount .failed
  simp only [QueueColumn.of] at henqueued hcompleted hfailed
  simp [overviewRow, henqueued, hcompleted, hfailed]

end

/-- **The overview of the queues**, whatever is inserted and whenever the engine merges. -/
theorem queueOverview_after (changes : List TableChange) (now : Int) (tenantId : Uuid)
    (fromMinutes : Nat) (mostEnqueued : OrderBy fun r : QueueOverviewRow => -(r.enqueued : Int)) :
    Overview (MetricTables.after changes) now tenantId fromMinutes
      (getQueueOverview (MetricTables.after changes) now tenantId fromMinutes mostEnqueued) := by
  have hexact := MetricTables.exact_after changes
  generalize MetricTables.after changes = s at hexact ⊢
  have hperm := mostEnqueued.perm (overviewRows s now tenantId fromMinutes)
  have hsorted := mostEnqueued.sorted (overviewRows s now tenantId fromMinutes)
  have hrow : ∀ r ∈ getQueueOverview s now tenantId fromMinutes mostEnqueued, _ := fun r hr =>
    counts_of_mem hexact (hperm.mem_iff.1 (List.mem_of_mem_take hr))
  refine { length_le := List.length_take_le .., nodup := ?_, sorted := ?_,
           named := fun r hr => (hrow r hr).1, enqueued := fun r hr => ?_,
           completed := fun r hr => ?_, failed := fun r hr => ?_, backlog := fun r hr => ?_,
           shown := fun queue hqueue hcount => ?_ }
  · exact (((hperm.map _).nodup_iff).2 nodup_overviewRows).sublist ((List.take_sublist ..).map _)
  · refine (hsorted.sublist (List.take_sublist ..)).imp fun h => ?_
    omega
  · exact congrArg QueueOverviewRow.enqueued (hrow r hr).2
  · exact congrArg QueueOverviewRow.completed (hrow r hr).2
  · exact congrArg QueueOverviewRow.failed (hrow r hr).2
  · exact congrArg QueueOverviewRow.backlog (hrow r hr).2
  · obtain ⟨c, hpos⟩ := hcount
    obtain ⟨r, hr, rfl⟩ := exists_overviewRow hqueue (exists_queueRow hexact hpos)
    have henqueued := congrArg QueueOverviewRow.enqueued (counts_of_mem hexact hr).2
    rcases mem_take_or hsorted (hperm.mem_iff.2 hr) 50 with htake | ⟨hfull, hbefore⟩
    · exact .inl ⟨r, htake, rfl⟩
    · refine .inr ⟨hfull, fun r' hr' => ?_⟩
      have hle := hbefore r' hr'
      have heq : r.enqueued = countOf s now tenantId fromMinutes .enqueued r.queue := henqueued
      omega

end Feloxi.Views
