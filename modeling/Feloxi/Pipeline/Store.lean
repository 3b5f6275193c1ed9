import Feloxi.Lib.Assoc
import Feloxi.Lib.RedisList
import Feloxi.Pipeline.Events
import Mathlib.Logic.Function.Basic

/-!
# Feloxi.Pipeline.Store

What the ingestion pipeline works on: the Redis keys of `crates/db/src/redis/cache.rs`
(counters, retry queues, task names, worker state), the two ClickHouse tables, the
broadcast channel, and the trace of batches buffered and replayed, which nothing reads
back.

Every fallible call has a flag that says whether it fails; one that fails changes
nothing. Counter increments do not fail, and keys do not expire.
-/

namespace Feloxi.Pipeline

/-! ### Serialized rows -/

/-- Rows of one table as text, by `serde_json`: a text that decodes as rows is an array
of as many elements. -/
structure RowCodec (Row : Type) where
  encode : List Row → String
  /-- `from_str::<Vec<T>>`. -/
  decode : String → Option (List Row)
  /-- The length of `from_str::<Vec<Value>>`. -/
  elements : String → Option Nat
  elements_encode : ∀ rows, elements (encode rows) = some rows.length
  elements_decode : ∀ json rows, decode json = some rows → elements json = some rows.length

/-- The rows a buffered batch counts for; a text that is no array counts for one. -/
def RowCodec.size {Row : Type} (codec : RowCodec Row) (json : String) : Nat :=
  (codec.elements json).getD 1

@[simp] theorem RowCodec.size_encode {Row : Type} (codec : RowCodec Row) (rows : List Row) :
    codec.size (codec.encode rows) = rows.length := by
  rw [size, codec.elements_encode, Option.getD_some]

theorem RowCodec.size_of_decode {Row : Type} (codec : RowCodec Row) {json : String}
    {rows : List Row} (h : codec.decode json = some rows) : codec.size json = rows.length := by
  rw [size, codec.elements_decode json rows h, Option.getD_some]

/-- Cached state of a worker, as serialized under its state key. -/
structure WorkerState where
  workerId : String
  hostname : String
  status : String
  activeTasks : Nat
  processed : Nat
  loadAvg : List F64
  cpuPercent : F64
  memoryMb : F64
  poolSize : Nat
  poolType : String
  swIdent : String
  swVer : String
  deriving Repr, DecidableEq

/-- The serializers the pipeline uses and this repository does not define. -/
structure Services where
  serde : SerdeJson
  taskRows : RowCodec TaskEventRow
  workerRows : RowCodec WorkerEventRow
  /-- The state key of a worker as text. -/
  stateText : WorkerState → String

/-! ### World -/

/-- An update for the dashboard clients of a tenant. -/
inductive EventPayload where
  | taskUpdate (taskId taskName state queue workerId : String) (runtime : Option F64)
      (timestamp : F64)
  | workerUpdate (workerId hostname status : String) (activeTasks : Nat)
      (cpuPercent memoryMb : F64)
  deriving Repr, DecidableEq

structure TenantEvent where
  tenantId : Uuid
  payload : EventPayload
  deriving Repr, DecidableEq

/-- A batch that goes through a retry queue. -/
inductive BatchEvent where
  | buffered (kind json : String)
  | replayed (kind : String) (jsons : List String)
  deriving Repr, DecidableEq

/-- The keys of one worker. -/
structure WorkerKeys where
  state : Option String
  heartbeat : Bool
  /-- Membership of the online set. -/
  online : Bool
  deriving Repr, DecidableEq

structure World where
  counters : String → Nat
  /-- The retry lists by kind, head first. -/
  retryQueue : String → List String
  taskNames : Uuid → String → Option String
  workers : Uuid → String → WorkerKeys
  hbSampled : Uuid → String → Bool
  lastSeen : Uuid → Option String
  taskRows : List TaskEventRow
  workerRows : List WorkerEventRow
  /-- What went out on the broadcast channel. -/
  sent : List TenantEvent
  trace : List BatchEvent

namespace World

/-- `incr_pipeline_counter`. -/
def incr (w : World) (name : String) (delta : Nat) : World :=
  { w with counters := Function.update w.counters name (w.counters name + delta) }

def send (w : World) (e : TenantEvent) : World := { w with sent := w.sent ++ [e] }

def emit (w : World) (e : BatchEvent) : World := { w with trace := w.trace ++ [e] }

/-- Commands one after the other, up to the first that fails. -/
def commands (w : World) : List (Bool × (World → World)) → World
  | [] => w
  | (fails, command) :: rest => if fails then w else (command w).commands rest

/-! ### Retry queues -/

def maxRetryQueueLen : Nat := 2000

def setRetryQueue (w : World) (kind : String) (l : List String) : World :=
  { w with retryQueue := Function.update w.retryQueue kind l }

@[simp] theorem setRetryQueue_self (w : World) (kind : String) (l : List String) :
    (w.setRetryQueue kind l).retryQueue kind = l := Function.update_self ..

/-- `push_retry_batch` of a serialized batch. -/
def pushRetryBatch (w : World) (kind json : String) : World :=
  w.setRetryQueue kind
    (RedisList.ltrim (RedisList.lpush (w.retryQueue kind) [json]) (maxRetryQueueLen - 1))

/-- `pop_retry_batches`: the oldest batches, in the order they come off. -/
def popRetryBatches (w : World) (kind : String) (count : Nat) : List String × World :=
  let (popped, left) := RedisList.rpop (w.retryQueue kind) count
  (popped, w.setRetryQueue kind left)

/-- `requeue_retry_batches`. -/
def requeueRetryBatches (w : World) (kind : String) (batches : List String) : World :=
  if batches.isEmpty then w
  else w.setRetryQueue kind (RedisList.lpush (w.retryQueue kind) batches)

/-- The batches of a retry queue, oldest first: the order in which they are replayed. -/
def replayOrder (w : World) (kind : String) : List String := (w.retryQueue kind).reverse

section Queue

variable (w : World) (kind json : String) (count : Nat) (batches : List String)

theorem replayOrder_pushRetryBatch :
    (w.pushRetryBatch kind json).replayOrder kind =
      (w.replayOrder kind ++ [json]).drop ((w.replayOrder kind).length + 1 - maxRetryQueueLen) := by
  have hlen : (RedisList.lpush (w.retryQueue kind) [json]).length =
      (w.replayOrder kind).length + 1 := by
    rw [RedisList.lpush_eq, replayOrder, List.length_append, List.length_reverse,
      List.length_reverse, List.length_singleton, Nat.add_comm]
  have hmax : maxRetryQueueLen - 1 + 1 = maxRetryQueueLen := rfl
  rw [replayOrder, pushRetryBatch, setRetryQueue_self, RedisList.reverse_ltrim, hlen, hmax,
    RedisList.reverse_lpush, ← replayOrder]

@[simp] theorem popRetryBatches_fst :
    (w.popRetryBatches kind count).1 = (w.replayOrder kind).take count := rfl

@[simp] theorem replayOrder_popRetryBatches :
    (w.popRetryBatches kind count).2.replayOrder kind = (w.replayOrder kind).drop count := by
  rw [replayOrder, popRetryBatches, setRetryQueue_self, RedisList.reverse_rpop_snd, ← replayOrder]

/-- Requeued batches are the last to be replayed. -/
theorem replayOrder_requeueRetryBatches :
    (w.requeueRetryBatches kind batches).replayOrder kind = w.replayOrder kind ++ batches := by
  unfold requeueRetryBatches
  split
  · rename_i hempty
    rw [List.isEmpty_iff.1 hempty, List.append_nil]
  · rw [replayOrder, setRetryQueue_self, RedisList.reverse_lpush, ← replayOrder]

end Queue

/-! ### Task names -/

/-- `get_task_names`: parallel to the ids. -/
def getTaskNames (w : World) (tenantId : Uuid) (taskIds : List String) : List (Option String) :=
  taskIds.map (w.taskNames tenantId)

/-- `cache_task_names`. -/
def cacheTaskNames (w : World) (tenantId : Uuid) (entries : List (String × String)) : World :=
  let names : String → Option String :=
    entries.foldl (fun names e => Function.update names e.1 (some e.2)) (w.taskNames tenantId)
  { w with taskNames := Function.update w.taskNames tenantId names }

/-! ### Worker state -/

/-- Change the keys of one worker. -/
def updateWorker (w : World) (tenantId : Uuid) (workerId : String)
    (f : WorkerKeys → WorkerKeys) : World :=
  let keys := Function.update (w.workers tenantId) workerId (f (w.workers tenantId workerId))
  { w with workers := Function.update w.workers tenantId keys }

@[simp] theorem updateWorker_self (w : World) (tenantId : Uuid) (workerId : String)
    (f : WorkerKeys → WorkerKeys) :
    (w.updateWorker tenantId workerId f).workers tenantId workerId =
      f (w.workers tenantId workerId) := by
  simp [updateWorker]

theorem updateWorker_of_ne (w : World) {tenantId tenantId' : Uuid} {workerId workerId' : String}
    (h : ¬(tenantId' = tenantId ∧ workerId' = workerId)) (f : WorkerKeys → WorkerKeys) :
    (w.updateWorker tenantId workerId f).workers tenantId' workerId' =
      w.workers tenantId' workerId' := by
  by_cases htenant : tenantId' = tenantId
  · subst htenant
    have hworker : workerId' ≠ workerId := fun heq => h ⟨rfl, heq⟩
    simp [updateWorker, hworker]
  · simp [updateWorker, htenant]

/-- The commands of a worker update, in their order. -/
inductive WorkerCommand where
  | state
  | heartbeat
  | online
  | lastSeen
  deriving Repr, DecidableEq

/-- `set_worker_state`; `seen` is the time as text. -/
def setWorkerState (w : World) (fails : WorkerCommand → Bool) (tenantId : Uuid) (workerId : String)
    (stateText seen : String) : World :=
  w.commands [
    (fails .state, fun w => w.updateWorker tenantId workerId fun k =>
      { k with state := some stateText }),
    (fails .heartbeat, fun w => w.updateWorker tenantId workerId fun k =>
      { k with heartbeat := true }),
    (fails .online, fun w => w.updateWorker tenantId workerId fun k => { k with online := true }),
    (fails .lastSeen, fun w => { w with lastSeen := Function.update w.lastSeen tenantId (some seen) })]

/-- `set_worker_offline`. -/
def setWorkerOffline (w : World) (fails : WorkerCommand → Bool) (tenantId : Uuid)
    (workerId : String) : World :=
  w.commands [
    (fails .state, fun w => w.updateWorker tenantId workerId fun k => { k with state := none }),
    (fails .heartbeat, fun w => w.updateWorker tenantId workerId fun k =>
      { k with heartbeat := false }),
    (fails .online, fun w => w.updateWorker tenantId workerId fun k => { k with online := false })]

/-- `should_sample_heartbeat`: sets the throttle key if it is not there. -/
def shouldSampleHeartbeat (w : World) (fails : Bool) (tenantId : Uuid) (workerId : String) :
    Bool × World :=
  if fails || w.hbSampled tenantId workerId then (false, w)
  else
    let sampled := Function.update (w.hbSampled tenantId) workerId true
    (true, { w with hbSampled := Function.update w.hbSampled tenantId sampled })

end World

end Feloxi.Pipeline
