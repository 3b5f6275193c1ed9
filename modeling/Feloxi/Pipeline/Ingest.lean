import Feloxi.Pipeline.Store

/-!
# Feloxi.Pipeline.Ingest

The ingestion pipeline (`crates/api/src/broker_conn/pipeline.rs`) and the replay of
batches that could not be inserted (`drain_retry_queue` in `crates/api/src/main.rs`).
-/

namespace Feloxi.Pipeline

/-! ### Rows that can be buffered -/

/-- `RetryRow`: a row type with its retry kind, its text and its table. -/
structure RetryRow (Row : Type) where
  kind : String
  codec : RowCodec Row
  /-- The rows written to ClickHouse. -/
  insertBatch : List Row → World → World

def taskEvents (s : Services) : RetryRow TaskEventRow where
  kind := "task_events"
  codec := s.taskRows
  insertBatch rows w := { w with taskRows := w.taskRows ++ rows }

def workerEvents (s : Services) : RetryRow WorkerEventRow where
  kind := "worker_events"
  codec := s.workerRows
  insertBatch rows w := { w with workerRows := w.workerRows ++ rows }

section Rows

variable {Row : Type} (r : RetryRow Row)

/-- `insert_task_events` and `insert_worker_events`: whether the rows are written, and
the world after. -/
def insertRows (fails : Bool) (rows : List Row) (w : World) : Bool × World :=
  if rows.isEmpty then (true, w)
  else if fails then (false, w)
  else (true, r.insertBatch rows w)

/-- Buffer rows for replay, or count them as dropped. -/
def bufferForRetry (pushFails : Bool) (rows : List Row) (w : World) : World :=
  if pushFails then w.incr "events_dropped" rows.length
  else (w.pushRetryBatch r.kind (r.codec.encode rows)).emit
    (.buffered r.kind (r.codec.encode rows))

/-- The fallible calls of an insert. -/
inductive InsertPoint where
  | first
  | second
  | push
  deriving Repr, DecidableEq

/-- `insert_with_retry` and its worker twin: one retry, then the buffer. -/
def insertWithRetry (fails : InsertPoint → Bool) (rows : List Row) (w : World) : Bool × World :=
  let (inserted, w) := insertRows r (fails .first) rows w
  if inserted then (true, w)
  else
    let w := w.incr "insert_retries" 1
    let (inserted, w) := insertRows r (fails .second) rows w
    if inserted then (true, w)
    else (false, bufferForRetry r (fails .push) rows w)

/-- An insert leaves alone what its rows, the counters and the buffer leave alone. -/
theorem insertWithRetry_frame {γ : Type*} {r : RetryRow Row} (obs : World → γ)
    (hrows : ∀ rows w, obs (r.insertBatch rows w) = obs w)
    (hcounters : ∀ (w : World) name n, obs (w.incr name n) = obs w)
    (hbuffer : ∀ (w : World) json, obs ((w.pushRetryBatch r.kind json).emit
      (.buffered r.kind json)) = obs w)
    (fails : InsertPoint → Bool) (rows : List Row) (w : World) :
    obs (insertWithRetry r fails rows w).2 = obs w := by
  have hinsert : ∀ failed v, obs (insertRows r failed rows v).2 = obs v := by
    intro failed v
    unfold insertRows
    split
    · rfl
    · split
      · rfl
      · exact hrows rows v
  have hbuffered : ∀ failed v, obs (bufferForRetry r failed rows v) = obs v := by
    intro failed v
    unfold bufferForRetry
    split
    · exact hcounters ..
    · exact hbuffer ..
  unfold insertWithRetry
  dsimp only
  split
  · exact hinsert ..
  · split
    · rw [hinsert, hcounters, hinsert]
    · rw [hbuffered, hinsert, hcounters, hinsert]

/-! ### Replay -/

/-- Max batches drained per queue per tick. -/
def retryDrainPerCycle : Nat := 100

/-- The fallible calls of a drain pass. -/
inductive DrainPoint where
  | pop
  | insert
  | requeue
  deriving Repr, DecidableEq

/-- A popped batch joins those to be replayed, or is discarded and its rows counted as
dropped. -/
def drainBatch (acc : List String × List Row × World) (json : String) :
    List String × List Row × World :=
  match r.codec.decode json with
  | some rows => (acc.1 ++ [json], acc.2.1 ++ rows, acc.2.2)
  | none => (acc.1, acc.2.1, acc.2.2.incr "events_dropped" (r.codec.size json))

/-- `drain_retry_queue`. -/
def drainRetryQueue (fails : DrainPoint → Bool) (w : World) : World :=
  if fails .pop then w
  else
    let (jsons, w) := w.popRetryBatches r.kind retryDrainPerCycle
    if jsons.isEmpty then w
    else
      let (goodJsons, allRows, w) := jsons.foldl (drainBatch r) ([], [], w)
      if allRows.isEmpty then w
      else
        let (inserted, w) := insertRows r (fails .insert) allRows w
        if inserted then
          (w.incr "events_inserted" allRows.length).emit (.replayed r.kind goodJsons)
        else if fails .requeue then w
        else w.requeueRetryBatches r.kind goodJsons

end Rows

/-! ### Task events -/

/-- The fallible calls of a task ingest. -/
inductive TaskPoint where
  | nameLookup
  | nameStore
  | insert (pt : InsertPoint)
  deriving Repr, DecidableEq

/-- The outcomes of a task ingest: what fails, the clock and the ids drawn. -/
structure TaskEnv where
  fails : TaskPoint → Bool
  now : Int
  eventId : Nat → Uuid

/-- The names that the events of a batch carry: the first of each task. -/
def knownNames (events : List RawTaskEvent) : List (String × String) :=
  events.foldl (fun known e =>
    if e.taskName.isEmpty || (known.lookup e.taskId).isSome then known
    else known ++ [(e.taskId, e.taskName)]) []

/-- Fill a blank task name. -/
def RawTaskEvent.withName (known : List (String × String)) (e : RawTaskEvent) : RawTaskEvent :=
  if e.taskName.isEmpty then
    match known.lookup e.taskId with
    | some name => { e with taskName := name }
    | none => e
  else e

/-- The names a batch can be filled from: its own, and the cached names of the tasks it
does not name. -/
def namesFor (env : TaskEnv) (tenantId : Uuid) (events : List RawTaskEvent) (w : World) :
    List (String × String) :=
  let known := knownNames events
  let need := (events.filter fun e => e.taskName.isEmpty && (known.lookup e.taskId).isNone).map
    (·.taskId)
  if need.isEmpty || env.fails .nameLookup then known
  else (need.zip (w.getTaskNames tenantId need)).foldl (fun known e =>
    match e.2 with
    | some name => Assoc.put e.1 name known
    | none => known) known

/-- `backfill_task_names`. -/
def backfillTaskNames (env : TaskEnv) (tenantId : Uuid) (events : List RawTaskEvent) (w : World) :
    List RawTaskEvent × World :=
  let known := namesFor env tenantId events w
  (events.map (·.withName known),
    if known.isEmpty || env.fails .nameStore then w else w.cacheTaskNames tenantId known)

/-- The update sent to the dashboard clients for an event. -/
def taskUpdate (tenantId : Uuid) (e : RawTaskEvent) : TenantEvent where
  tenantId := tenantId
  payload := .taskUpdate e.taskId e.taskName (e.state.getD "") (e.queue.getD "")
    (e.workerId.getD "") e.runtime e.timestamp

/-- The rows of a batch. -/
def taskRows (env : TaskEnv) (tenantId sourceId : Uuid) (brokerType : String)
    (events : List RawTaskEvent) : List TaskEventRow :=
  events.zipIdx.map fun e =>
    normalizeTaskEvent (env.eventId e.2) env.now tenantId sourceId brokerType e.1

@[simp] theorem length_taskRows (env : TaskEnv) (tenantId sourceId : Uuid) (brokerType : String)
    (events : List RawTaskEvent) :
    (taskRows env tenantId sourceId brokerType events).length = events.length := by
  rw [taskRows, List.length_map, List.length_zipIdx]

/-- `ingest_raw_task_events`. -/
def ingestRawTaskEvents (s : Services) (env : TaskEnv) (tenantId sourceId : Uuid)
    (brokerType : String) (rawEvents : List RawTaskEvent) (w : World) : World :=
  if rawEvents.isEmpty then w
  else
    let batchSize := rawEvents.length
    let w := w.incr "events_received" batchSize
    let (rawEvents, w) := backfillTaskNames env tenantId rawEvents w
    let (inserted, w) := insertWithRetry (taskEvents s) (fun pt => env.fails (.insert pt))
      (taskRows env tenantId sourceId brokerType rawEvents) w
    let w := if inserted then w.incr "events_inserted" batchSize else w
    -- the clients are told whether or not the rows are stored
    rawEvents.foldl (fun w e => w.send (taskUpdate tenantId e)) w

/-! ### Worker events -/

/-- The fallible calls of a worker ingest. -/
inductive WorkerPoint where
  | sample (workerId : String)
  | insert (pt : InsertPoint)
  | update (workerId : String) (command : World.WorkerCommand)
  deriving Repr, DecidableEq

/-- The outcomes of a worker ingest; `order` is the order in which the map of the latest
events is walked. -/
structure WorkerEnv where
  fails : WorkerPoint → Bool
  now : Int
  /-- The clock as text. -/
  seen : String
  eventId : Nat → Uuid
  order : List RawWorkerEvent → List RawWorkerEvent
  order_perm : ∀ events, (order events).Perm events

def isTransition (e : RawWorkerEvent) : Bool :=
  e.eventType == "worker-online" || e.eventType == "worker-offline"

/-- A newer event takes the place of the one kept for its worker. -/
def keepLatest (latest : List (String × RawWorkerEvent)) (e : RawWorkerEvent) :
    List (String × RawWorkerEvent) :=
  match latest.lookup e.workerId with
  | some existing => if e.timestamp.gt existing.timestamp then Assoc.put e.workerId e latest
      else latest
  | none => Assoc.put e.workerId e latest

/-- `latest_per_worker`. -/
def latestPerWorker (events : List RawWorkerEvent) : List (String × RawWorkerEvent) :=
  events.foldl keepLatest []

/-- The state cached for an event that is not an offline one. -/
def workerStateOf (e : RawWorkerEvent) : WorkerState where
  workerId := e.workerId
  hostname := e.hostname
  status := "online"
  activeTasks := e.activeTasks.getD 0
  processed := e.processed.getD 0
  loadAvg := e.loadAvg.getD []
  cpuPercent := e.cpuPercent.getD .zero
  memoryMb := e.memoryMb.getD .zero
  poolSize := e.poolSize.getD 0
  poolType := e.poolType.getD ""
  swIdent := e.swIdent.getD ""
  swVer := e.swVer.getD ""

/-- The update of the Redis keys of one worker. -/
def applyWorkerEvent (s : Services) (env : WorkerEnv) (tenantId : Uuid) (w : World)
    (e : RawWorkerEvent) : World :=
  let fails := fun command => env.fails (.update e.workerId command)
  if e.eventType = "worker-offline" then w.setWorkerOffline fails tenantId e.workerId
  else w.setWorkerState fails tenantId e.workerId (s.stateText (workerStateOf e)) env.seen

/-- The update sent to the dashboard clients for a worker. -/
def workerUpdate (tenantId : Uuid) (e : RawWorkerEvent) : TenantEvent where
  tenantId := tenantId
  payload := .workerUpdate e.workerId e.hostname e.eventType (e.activeTasks.getD 0)
    (e.cpuPercent.getD .zero) (e.memoryMb.getD .zero)

/-- Transitions are stored, and heartbeats where a sample is due. -/
def eventsToStore (env : WorkerEnv) (tenantId : Uuid) (transitions latest : List RawWorkerEvent)
    (w : World) : List RawWorkerEvent × World :=
  latest.foldl (fun acc e =>
    if e.eventType = "worker-heartbeat" then
      let (sampled, w) := acc.2.shouldSampleHeartbeat (env.fails (.sample e.workerId)) tenantId
        e.workerId
      (if sampled then acc.1 ++ [e] else acc.1, w)
    else acc) (transitions, w)

/-- The second step of a worker ingest: rows for ClickHouse. -/
def storeWorkerEvents (s : Services) (env : WorkerEnv) (tenantId sourceId : Uuid)
    (transitions latest : List RawWorkerEvent) (w : World) : World :=
  let (stored, w) := eventsToStore env tenantId transitions latest w
  let rows := stored.zipIdx.map fun e =>
    normalizeWorkerEvent (env.eventId e.2) env.now tenantId sourceId e.1
  if rows.isEmpty then w
  else
    let w := w.incr "events_received" rows.length
    let (inserted, w) := insertWithRetry (workerEvents s) (fun pt => env.fails (.insert pt)) rows w
    if inserted then w.incr "events_inserted" rows.length else w

/-- `ingest_raw_worker_events`. -/
def ingestRawWorkerEvents (s : Services) (env : WorkerEnv) (tenantId sourceId : Uuid)
    (rawEvents : List RawWorkerEvent) (w : World) : World :=
  if rawEvents.isEmpty then w
  else
    let latest := env.order ((latestPerWorker rawEvents).map Prod.snd)
    let w := storeWorkerEvents s env tenantId sourceId (rawEvents.filter isTransition) latest w
    let w := latest.foldl (applyWorkerEvent s env tenantId) w
    latest.foldl (fun w e => w.send (workerUpdate tenantId e)) w

end Feloxi.Pipeline
