import Feloxi.Lib.Runs
import Feloxi.Lib.Summing
import Feloxi.Views.TaskEvents
import Mathlib.Algebra.GroupWithZero.Nat

/-!
# Feloxi.Views.MetricViews

The per-minute materialized views (`TABLE_STATEMENTS`, `crates/db/src/clickhouse/schema.rs`) and the
throughput of a tenant (`get_throughput_metrics`, `crates/db/src/clickhouse/aggregations.rs`). Every
block of events that is inserted adds its rows to the views. Their engine, `SummingMergeTree`, adds up
rows of the same key when it merges parts, and nobody knows when that is.

The two columns of waiting times are left out: no writer of the table fills in the times they are
made of. So is the TTL of the events.
-/

namespace Feloxi.Views

open Pipeline (TaskEventRow)
open Queries
open Summing

/-! ### task_metrics_mv -/

/-- The start of a minute, in seconds since the epoch. -/
abbrev Minute := { m : Int // 60 ∣ m }

def toStartOfMinute (millis : Int) : Minute := ⟨millis / 60000 * 60, Int.dvd_mul_left ..⟩

/-- The columns of `ORDER BY`. -/
structure TaskMetricsKey where
  tenantId : Uuid
  taskName : String
  queue : String
  minute : Minute
  deriving DecidableEq

structure TaskMetrics where
  successCount : Nat
  failureCount : Nat
  retryCount : Nat
  revokedCount : Nat
  totalCount : Nat
  totalRuntime : F64
  maxRuntime : F64
  deriving DecidableEq

/-- Merged rows: every column is added up, `max_runtime` as well. -/
instance : Add TaskMetrics where
  add a b :=
    { successCount := a.successCount + b.successCount
      failureCount := a.failureCount + b.failureCount
      retryCount := a.retryCount + b.retryCount
      revokedCount := a.revokedCount + b.revokedCount
      totalCount := a.totalCount + b.totalCount
      totalRuntime := a.totalRuntime.add b.totalRuntime
      maxRuntime := a.maxRuntime.add b.maxRuntime }

instance : Zero TaskMetrics where
  zero :=
    { successCount := 0, failureCount := 0, retryCount := 0, revokedCount := 0, totalCount := 0,
      totalRuntime := .zero, maxRuntime := .zero }

abbrev TaskMetricsRow := TaskMetricsKey × TaskMetrics

def taskMetricsKey (row : TaskEventRow) : TaskMetricsKey :=
  { tenantId := row.tenantId, taskName := row.taskName, queue := row.queue,
    minute := toStartOfMinute (millis row) }

/-- The `WHERE` clause. -/
def terminal (row : TaskEventRow) : Bool :=
  ["SUCCESS", "FAILURE", "RETRY", "REVOKED"].contains row.state

/-- The runtimes that count. -/
def runtimes (part : List TaskEventRow) : List F64 :=
  (part.map (·.runtime)).filter fun t => t.gt .zero

/-- The aggregates of a group. -/
def taskMetrics (part : List TaskEventRow) : TaskMetrics where
  successCount := part.countP (·.state == "SUCCESS")
  failureCount := part.countP (·.state == "FAILURE")
  retryCount := part.countP (·.state == "RETRY")
  revokedCount := part.countP (·.state == "REVOKED")
  totalCount := part.length
  totalRuntime := (runtimes part).foldl F64.add .zero
  maxRuntime := (runtimes part).foldl F64.max .zero

def taskMetricsMv (block : List TaskEventRow) : List TaskMetricsRow :=
  groupBy taskMetricsKey taskMetrics (block.filter terminal)

/-! ### queue_metrics_mv -/

structure QueueMetricsKey where
  tenantId : Uuid
  queue : String
  minute : Minute
  deriving DecidableEq

structure QueueMetrics where
  enqueued : Nat
  dequeued : Nat
  completed : Nat
  failed : Nat
  deriving DecidableEq

instance : Add QueueMetrics where
  add a b :=
    { enqueued := a.enqueued + b.enqueued, dequeued := a.dequeued + b.dequeued,
      completed := a.completed + b.completed, failed := a.failed + b.failed }

instance : Zero QueueMetrics where
  zero := { enqueued := 0, dequeued := 0, completed := 0, failed := 0 }

abbrev QueueMetricsRow := QueueMetricsKey × QueueMetrics

def queueMetricsKey (row : TaskEventRow) : QueueMetricsKey :=
  { tenantId := row.tenantId, queue := row.queue, minute := toStartOfMinute (millis row) }

def queueMetrics (part : List TaskEventRow) : QueueMetrics where
  enqueued := part.countP (·.eventType == "task-sent")
  dequeued := part.countP (·.eventType == "task-started")
  completed := part.countP (·.eventType == "task-succeeded")
  failed := part.countP (·.eventType == "task-failed")

/-- All events count, and one of another type adds a row of zeros. -/
def queueMetricsMv (block : List TaskEventRow) : List QueueMetricsRow :=
  groupBy queueMetricsKey queueMetrics block

/-! ### The tables over time -/

structure MetricTables where
  taskEvents : List TaskEventRow
  taskMetricsMv : List TaskMetricsRow
  queueMetricsMv : List QueueMetricsRow

inductive TableChange where
  | insert (block : List TaskEventRow)
  /-- The engine merges parts of `task_metrics_mv`. -/
  | mergeTasks (t : Tidy)
  /-- The engine merges parts of `queue_metrics_mv`. -/
  | mergeQueues (t : Tidy)

namespace MetricTables

def empty : MetricTables := ⟨[], [], []⟩

def step (s : MetricTables) : TableChange → MetricTables
  | .insert block =>
    { taskEvents := s.taskEvents ++ block
      taskMetricsMv := s.taskMetricsMv ++ Views.taskMetricsMv block
      queueMetricsMv := s.queueMetricsMv ++ Views.queueMetricsMv block }
  | .mergeTasks t => { s with taskMetricsMv := tidy s.taskMetricsMv t }
  | .mergeQueues t => { s with queueMetricsMv := tidy s.queueMetricsMv t }

/-- The tables after some changes. -/
def after (changes : List TableChange) : MetricTables := changes.foldl step empty

end MetricTables

/-! ### What counts where -/

/-- The counts of `task_metrics_mv`. -/
inductive TaskColumn where
  | success
  | failure
  | retry
  | revoked
  | total
  deriving DecidableEq

namespace TaskColumn

def of : TaskColumn → TaskMetrics → Nat
  | .success => TaskMetrics.successCount
  | .failure => TaskMetrics.failureCount
  | .retry => TaskMetrics.retryCount
  | .revoked => TaskMetrics.revokedCount
  | .total => TaskMetrics.totalCount

/-- The events of a group that the count is of. -/
def counts : TaskColumn → TaskEventRow → Bool
  | .success, row => row.state == "SUCCESS"
  | .failure, row => row.state == "FAILURE"
  | .retry, row => row.state == "RETRY"
  | .revoked, row => row.state == "REVOKED"
  | .total, _ => true

theorem of_add (c : TaskColumn) (a b : TaskMetrics) : c.of (a + b) = c.of a + c.of b := by
  cases c <;> rfl

theorem of_zero (c : TaskColumn) : c.of 0 = 0 := by cases c <;> rfl

theorem of_taskMetrics (c : TaskColumn) (part : List TaskEventRow) :
    c.of (taskMetrics part) = part.countP c.counts := by
  cases c with
  | total => exact (congrFun List.countP_true part).symm
  | _ => rfl

end TaskColumn

/-- The counts of `queue_metrics_mv`. -/
inductive QueueColumn where
  | enqueued
  | dequeued
  | completed
  | failed
  deriving DecidableEq

namespace QueueColumn

def of : QueueColumn → QueueMetrics → Nat
  | .enqueued => QueueMetrics.enqueued
  | .dequeued => QueueMetrics.dequeued
  | .completed => QueueMetrics.completed
  | .failed => QueueMetrics.failed

def counts : QueueColumn → TaskEventRow → Bool
  | .enqueued, row => row.eventType == "task-sent"
  | .dequeued, row => row.eventType == "task-started"
  | .completed, row => row.eventType == "task-succeeded"
  | .failed, row => row.eventType == "task-failed"

theorem of_add (c : QueueColumn) (a b : QueueMetrics) : c.of (a + b) = c.of a + c.of b := by
  cases c <;> rfl

theorem of_zero (c : QueueColumn) : c.of 0 = 0 := by cases c <;> rfl

theorem of_queueMetrics (c : QueueColumn) (part : List TaskEventRow) :
    c.of (queueMetrics part) = part.countP c.counts := by cases c <;> rfl

end QueueColumn

/-- The views hold what the events hold: over the rows of any keys, each count adds up to the number
of events it is of. -/
structure MetricTables.Exact (s : MetricTables) : Prop where
  tasks : ∀ (c : TaskColumn) (p : TaskMetricsKey → Bool), weigh c.of p s.taskMetricsMv =
    s.taskEvents.countP fun e => terminal e && (p (taskMetricsKey e) && c.counts e)
  queues : ∀ (c : QueueColumn) (p : QueueMetricsKey → Bool), weigh c.of p s.queueMetricsMv =
    s.taskEvents.countP fun e => p (queueMetricsKey e) && c.counts e
  /-- No row of finished tasks is ever dropped. -/
  counted : ∀ r ∈ s.taskMetricsMv, 0 < r.2.totalCount

theorem MetricTables.exact_empty : empty.Exact where
  tasks _ _ := rfl
  queues _ _ := rfl
  counted _ hr := nomatch hr

theorem weigh_taskMetricsMv (c : TaskColumn) (p : TaskMetricsKey → Bool)
    (block : List TaskEventRow) : weigh c.of p (taskMetricsMv block) =
      block.countP fun e => terminal e && (p (taskMetricsKey e) && c.counts e) := by
  rw [taskMetricsMv, weigh_groupBy_countP c.of_taskMetrics, List.countP_filter]
  simp [Bool.and_comm]

theorem totalCount_pos_of_mem {block : List TaskEventRow} {r : TaskMetricsRow}
    (h : r ∈ taskMetricsMv block) : 0 < r.2.totalCount := by
  rw [eq_of_mem_groupBy h]
  obtain ⟨e, he, hkey⟩ := mem_keys_groupBy.1 (List.mem_map_of_mem h)
  exact List.length_pos_of_mem (List.mem_filter.2 ⟨he, decide_eq_true hkey⟩)

theorem MetricTables.Exact.step {s : MetricTables} (h : s.Exact) (change : TableChange) :
    (s.step change).Exact := by
  cases change with
  | insert block =>
      refine { tasks := fun c p => ?_, queues := fun c p => ?_, counted := fun r hr => ?_ }
      · rw [MetricTables.step, weigh_append, h.tasks, weigh_taskMetricsMv, List.countP_append]
      · rw [MetricTables.step, weigh_append, h.queues, Views.queueMetricsMv,
          weigh_groupBy_countP c.of_queueMetrics, List.countP_append]
      · rcases List.mem_append.1 hr with hr | hr
        · exact h.counted r hr
        · exact totalCount_pos_of_mem hr
  | mergeTasks t =>
      refine { tasks := fun c p => ?_, queues := h.queues, counted := ?_ }
      · rw [MetricTables.step, weigh_tidy c.of_add c.of_zero, h.tasks]
      · exact forall_tidy (P := fun _ (m : TaskMetrics) => 0 < m.totalCount)
          (fun _ _ b ha _ => Nat.add_pos_left ha b.totalCount) h.counted t
  | mergeQueues t =>
      refine { tasks := h.tasks, queues := fun c p => ?_, counted := h.counted }
      rw [MetricTables.step, weigh_tidy c.of_add c.of_zero, h.queues]

/-- Whatever is inserted, and whenever the engine merges. -/
theorem MetricTables.exact_after (changes : List TableChange) : (after changes).Exact :=
  Runs.run_invariant MetricTables.Exact (fun _ change h => h.step change) exact_empty changes

/-! ### get_throughput_metrics -/

section

variable (oldestFirst : OrderBy fun r : TaskMetricsRow => r.1.minute.1) (s : MetricTables)
  (now : Int) (tenantId : Uuid) (fromMinutes : Nat)

/-- The rows of the view, or for one agent the events themselves. -/
def getThroughputMetrics : Option Uuid → List TaskMetricsRow
  | none =>
    oldestFirst.sort (s.taskMetricsMv.filter fun r =>
      r.1.tenantId == tenantId && decide (now - 60 * fromMinutes ≤ r.1.minute.1))
  | some agentId =>
    oldestFirst.sort (groupBy taskMetricsKey taskMetrics (s.taskEvents.filter fun e =>
      e.tenantId == tenantId && e.agentId == agentId &&
        decide ((now - 60 * fromMinutes) * 1000 ≤ millis e) && terminal e))

/-- The agents that events came from. -/
def MetricTables.agents : List Uuid := (s.taskEvents.map (·.agentId)).dedup

variable {oldestFirst s now tenantId fromMinutes}

theorem weigh_throughput_none (h : s.Exact) (c : TaskColumn) (p : TaskMetricsKey → Bool) :
    weigh c.of p (getThroughputMetrics oldestFirst s now tenantId fromMinutes none) =
      s.taskEvents.countP fun e => terminal e && e.tenantId == tenantId &&
        (p (taskMetricsKey e) && c.counts e) &&
          decide (now - 60 * fromMinutes ≤ (taskMetricsKey e).minute.1) := by
  rw [getThroughputMetrics, weigh_perm (oldestFirst.perm _),
    weigh_filter fun k : TaskMetricsKey =>
      k.tenantId == tenantId && decide (now - 60 * fromMinutes ≤ k.minute.1), h.tasks]
  refine List.countP_congr fun e _ => ?_
  simp only [taskMetricsKey, Bool.and_eq_true]
  tauto

theorem weigh_throughput_some (agentId : Uuid) (c : TaskColumn) (p : TaskMetricsKey → Bool) :
    weigh c.of p (getThroughputMetrics oldestFirst s now tenantId fromMinutes (some agentId)) =
      s.taskEvents.countP fun e => terminal e && e.tenantId == tenantId &&
        (p (taskMetricsKey e) && c.counts e) && e.agentId == agentId &&
          decide ((now - 60 * fromMinutes) * 1000 ≤ millis e) := by
  rw [getThroughputMetrics, weigh_perm (oldestFirst.perm _),
    weigh_groupBy_countP c.of_taskMetrics, List.countP_filter]
  refine List.countP_congr fun e _ => ?_
  simp only [Bool.and_eq_true]
  tauto

/-- A minute of the window has all its events in the window. -/
theorem le_millis_of_le_minute {cutoff t : Int} (h : cutoff ≤ (toStartOfMinute t).1) :
    cutoff * 1000 ≤ t := by
  have hminute : cutoff ≤ t / 60000 * 60 := h
  omega

/-- **The tenant's throughput is that of its agents together**, whatever is inserted and whenever the
engine merges: over the rows of any keys, every count of the view adds up to what the rows of all the
agents add up to. Only the minute in which the window starts is not in the view's rows. -/
theorem throughput_eq_sum_agents (oldestFirst : OrderBy fun r : TaskMetricsRow => r.1.minute.1)
    (changes : List TableChange) (now : Int) (tenantId : Uuid) (fromMinutes : Nat) (c : TaskColumn)
    (p : TaskMetricsKey → Bool) :
    weigh c.of p (getThroughputMetrics oldestFirst (MetricTables.after changes) now tenantId
        fromMinutes none) =
      ((MetricTables.after changes).agents.map fun agentId =>
        weigh c.of (fun k => p k && decide (now - 60 * fromMinutes ≤ k.minute.1))
          (getThroughputMetrics oldestFirst (MetricTables.after changes) now tenantId fromMinutes
            (some agentId))).sum := by
  have hexact := MetricTables.exact_after changes
  generalize MetricTables.after changes = s at hexact ⊢
  have hagents : ∀ e ∈ s.taskEvents, e.agentId ∈ s.agents :=
    fun e he => List.mem_dedup.2 (List.mem_map_of_mem he)
  rw [weigh_throughput_none hexact, ← sum_countP_groups (List.nodup_dedup _) hagents]
  congr 1
  refine List.map_congr_left fun agentId _ => ?_
  rw [weigh_throughput_some]
  refine List.countP_congr fun e _ => ?_
  have hinside : now - 60 * fromMinutes ≤ (taskMetricsKey e).minute.1 →
      (now - 60 * fromMinutes) * 1000 ≤ millis e := le_millis_of_le_minute
  simp only [Bool.and_eq_true, decide_eq_true_eq]
  tauto

end

end Feloxi.Views
