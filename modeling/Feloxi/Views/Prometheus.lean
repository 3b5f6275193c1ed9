import Feloxi.Lib.F64
import Feloxi.Lib.Text
import Feloxi.Redis.Workers
import Mathlib.Algebra.GroupWithZero.Nat
import Mathlib.Data.Finset.Sort
import Mathlib.Data.List.Sort
import Mathlib.Data.String.Basic

/-!
# Feloxi.Views.Prometheus

The page that Prometheus scrapes (`metrics_handler` in `crates/api/src/routes/prometheus.rs`), and
what it reads of Redis (`crates/db/src/redis/cache.rs`). It is made of the tenants that are listed,
at most 200.
-/

namespace Feloxi.Prometheus

open Redis

/-! ### Tenants -/

structure TenantRow where
  id : Uuid
  isActive : Bool
  createdAt : Int
  deriving DecidableEq

/-- The active tenants, the newest first. -/
def newestActive (rows : List TenantRow) : List TenantRow :=
  (rows.filter (·.isActive)).insertionSort fun a b => b.createdAt ≤ a.createdAt

/-- `list_tenants`. -/
def listTenants (rows : List TenantRow) (limit offset : Nat) : List TenantRow :=
  ((newestActive rows).drop offset).take limit

/-- `list_tenants(200, 0)`. -/
def listed (rows : List TenantRow) : List TenantRow := listTenants rows 200 0

/-- The tenants that are not on the page. -/
def others (rows : List TenantRow) : List TenantRow :=
  (newestActive rows).drop 200 ++ rows.filter (!·.isActive)

theorem perm_listed_others (rows : List TenantRow) : rows.Perm (listed rows ++ others rows) := by
  have hactive : (newestActive rows).Perm (rows.filter (·.isActive)) := List.perm_insertionSort _ _
  rw [listed, listTenants, List.drop_zero, others, ← List.append_assoc, List.take_append_drop]
  exact ((hactive.append_right _).trans (List.filter_append_perm _ rows)).symm

/-! ### Reads -/

/-- The order in which the members of a set come. -/
structure SetOrder where
  members : Finset String → List String
  nodup : ∀ s, (members s).Nodup
  mem : ∀ s m, m ∈ members s ↔ m ∈ s

def sortedMembers : SetOrder where
  members s := s.sort
  nodup s := s.sort_nodup _
  mem s m := s.mem_sort _

/-- `GET`. -/
def get (db : Db) (key : String) : Option String :=
  if db.live key then (db.strings key).map Prod.fst else none

/-- `get_queue_depths`. -/
def getQueueDepths (order : SetOrder) (db : Db) (tenant : Uuid) : List (String × Nat) :=
  let names := order.members (db.sets (queuesActive tenant))
  let raw := names.map fun name => get db (queueDepth tenant name)
  (names.zip raw).filterMap fun e =>
    (e.2.bind fun v => parseU64 v.toList).map fun depth => (e.1, depth)

/-- `get_online_workers`. -/
def getOnlineWorkers (order : SetOrder) (db : Db) (tenant : Uuid) : List String :=
  order.members (db.onlineWorkers tenant)

/-! ### The page -/

structure OverviewStats where
  totalTasks : Nat
  successCount : Nat
  failureCount : Nat
  avgRuntime : F64

def taskLines (overview : List OverviewStats) : String :=
  let total := (overview.map (·.totalTasks)).sum
  let succeeded := (overview.map (·.successCount)).sum
  let failed := (overview.map (·.failureCount)).sum
  let runtimes := (overview.map (·.avgRuntime)).filter fun t => t.gt .zero
  let failureRate := if total > 0 then ((F64.ofNat failed).div (.ofNat total)).mul (.ofNat 100)
    else .zero
  let avgRuntime := if runtimes.length > 0 then (runtimes.foldl F64.add .zero).div
      (.ofNat runtimes.length)
    else .zero
  "# HELP feloxi_tasks_total Number of tasks in the last 60 minutes by state\n" ++
  "# TYPE feloxi_tasks_total gauge\n" ++
  "feloxi_tasks_total\x7bstate=\"total\"\x7d " ++ toString total ++ "\n" ++
  "feloxi_tasks_total\x7bstate=\"succeeded\"\x7d " ++ toString succeeded ++ "\n" ++
  "feloxi_tasks_total\x7bstate=\"failed\"\x7d " ++ toString failed ++ "\n" ++
  "# HELP feloxi_task_failure_rate_percent " ++
  "Task failure rate over the last 60 minutes (0-100)\n" ++
  "# TYPE feloxi_task_failure_rate_percent gauge\n" ++
  "feloxi_task_failure_rate_percent " ++ failureRate.fmtFixed 2 ++ "\n" ++
  "# HELP feloxi_task_avg_runtime_seconds Average task runtime over the last 60 minutes\n" ++
  "# TYPE feloxi_task_avg_runtime_seconds gauge\n" ++
  "feloxi_task_avg_runtime_seconds " ++ avgRuntime.fmtFixed 3 ++ "\n"

/-- `queue.replace('"', "\\\"")`. -/
def safe (queue : List Char) : List Char :=
  queue.flatMap fun c => if c = '"' then ['\\', '"'] else [c]

/-- What comes before the quote of a queue. -/
def depthLead : String := "feloxi_queue_depth\x7bqueue="

def depthLine (entry : String × Nat) : String :=
  depthLead ++ "\"" ++ String.ofList (safe entry.1.toList) ++ "\"\x7d " ++
    toString entry.2 ++ "\n"

/-- A line for each queue of each tenant. -/
def depthLines (depths : List (List (String × Nat))) : String :=
  String.join (depths.flatten.map depthLine)

/-- `feloxi_workers_online`. -/
def onlineTotal (workers : List (List String)) : Nat := (workers.map List.length).sum

def queuesHeader : String :=
  "# HELP feloxi_queue_depth Live queue depth reported by the broker\n" ++
  "# TYPE feloxi_queue_depth gauge\n"

def workersHeader : String :=
  "# HELP feloxi_workers_online Number of workers that sent a heartbeat recently\n" ++
  "# TYPE feloxi_workers_online gauge\n"

/-- `metrics_handler`, for what the reads of each tenant give, if they do. -/
def metricsText (rows : List TenantRow) (overview : Uuid → Option OverviewStats)
    (depths : Uuid → Option (List (String × Nat))) (online : Uuid → Option (List String)) :
    String :=
  let tenants := (listed rows).map (·.id)
  taskLines (tenants.filterMap overview) ++ queuesHeader ++ depthLines (tenants.filterMap depths) ++
    workersHeader ++ "feloxi_workers_online " ++ toString (onlineTotal (tenants.filterMap online)) ++
    "\n"

/-! ### What Redis says -/

/-- The queues of a tenant, as its key space has them. -/
def reported (order : SetOrder) (db : Db) (tenants : List TenantRow) : List (String × Nat) :=
  tenants.flatMap fun t => getQueueDepths order db t.id

/-- The lines of the queues on the page. -/
def queueLines (order : SetOrder) (db : Db) (rows : List TenantRow) : String :=
  depthLines (((listed rows).map (·.id)).filterMap fun id => some (getQueueDepths order db id))

/-- `feloxi_workers_online` on the page. -/
def workersOnlineGauge (order : SetOrder) (db : Db) (rows : List TenantRow) : Nat :=
  onlineTotal (((listed rows).map (·.id)).filterMap fun id => some (getOnlineWorkers order db id))

/-- The page, when Redis answers. -/
theorem metricsText_redis (order : SetOrder) (db : Db) (rows : List TenantRow)
    (overview : Uuid → Option OverviewStats) :
    metricsText rows overview (fun id => some (getQueueDepths order db id))
        (fun id => some (getOnlineWorkers order db id)) =
      taskLines (((listed rows).map (·.id)).filterMap overview) ++ queuesHeader ++
        queueLines order db rows ++ workersHeader ++ "feloxi_workers_online " ++
        toString (workersOnlineGauge order db rows) ++ "\n" := rfl

end Feloxi.Prometheus
