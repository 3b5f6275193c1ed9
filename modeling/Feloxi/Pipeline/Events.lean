import Feloxi.Lib.Casts
import Feloxi.Lib.Json
import Feloxi.Lib.Uuid

/-!
# Feloxi.Pipeline.Events

Celery events as they come off a broker (`crates/common/src/events.rs`) and the
ClickHouse rows made of them (`crates/engine/src/event_processor.rs`).
-/

namespace Feloxi.Pipeline

/-- `serde_json`, as far as values cross text: it is not part of this repository. -/
structure SerdeJson where
  /-- `Value::to_string`. -/
  toString : Json → String
  /-- `from_str::<Value>`, also of bytes that are UTF-8. -/
  fromStr : String → Option Json

/-! ### Raw events -/

/-- Raw task event from a Celery broker, before normalization into ClickHouse rows. -/
structure RawTaskEvent where
  taskId : String
  taskName : String
  eventType : String
  timestamp : F64
  queue : Option String
  workerId : Option String
  state : Option String
  args : Option String
  kwargs : Option String
  result : Option String
  exception : Option String
  traceback : Option String
  runtime : Option F64
  retries : Option Nat
  eta : Option F64
  expires : Option F64
  rootId : Option String
  parentId : Option String
  groupId : Option String
  chordId : Option String
  deriving Repr, DecidableEq

/-- Build a synthetic `task-sent` event for a freshly published task; `now` is the
clock of `now_seconds`. -/
def RawTaskEvent.syntheticSent (now : F64) (taskId taskName queue args kwargs : String)
    (parentId rootId : Option String) : RawTaskEvent where
  taskId := taskId
  taskName := taskName
  eventType := "task-sent"
  timestamp := now
  queue := some queue
  workerId := none
  state := none
  args := some args
  kwargs := some kwargs
  result := none
  exception := none
  traceback := none
  runtime := none
  retries := none
  eta := none
  expires := none
  rootId := rootId
  parentId := parentId
  groupId := none
  chordId := none

/-- Raw worker event from a Celery broker, before normalization. -/
structure RawWorkerEvent where
  workerId : String
  hostname : String
  eventType : String
  timestamp : F64
  activeTasks : Option Nat
  processed : Option Nat
  loadAvg : Option (List F64)
  cpuPercent : Option F64
  memoryMb : Option F64
  poolSize : Option Nat
  poolType : Option String
  swIdent : Option String
  swVer : Option String
  deriving Repr, DecidableEq

/-- A string field of an event body. -/
def strField (body : Json) (name : String) : Option String := (body.get name).bind Json.asStr

/-- A float field of an event body. -/
def f64Field (body : Json) (name : String) : Option F64 := (body.get name).bind Json.asF64

/-- An unsigned field of an event body, cast `as u32`. -/
def u32Field (body : Json) (name : String) : Option Nat :=
  ((body.get name).bind Json.asU64).map (· % 2 ^ 32)

/-- Parse a Celery event dict into our normalized format. -/
def parseCeleryEvent (serde : SerdeJson) (eventType : String) (body : Json) :
    Option RawTaskEvent := do
  let taskId ← strField body "uuid"
  let timestamp ← f64Field body "timestamp"
  let queue := (body.get "queue").or ((body.get "routing_key").or
    ((body.get "delivery_info").bind (·.get "routing_key")))
  return {
    taskId
    taskName := (strField body "name").getD ""
    eventType
    timestamp
    queue := queue.bind Json.asStr
    workerId := strField body "hostname"
    state := none -- derived from the event type by `normalizeTaskEvent`
    args := (body.get "args").map serde.toString
    kwargs := (body.get "kwargs").map serde.toString
    result := (body.get "result").map serde.toString
    exception := strField body "exception"
    traceback := strField body "traceback"
    runtime := f64Field body "runtime"
    retries := u32Field body "retries"
    eta := f64Field body "eta"
    expires := f64Field body "expires"
    rootId := strField body "root_id"
    parentId := strField body "parent_id"
    groupId := strField body "group"
    chordId := strField body "chord" }

/-- Parse a Celery worker event dict into our normalized format. -/
def parseCeleryWorkerEvent (eventType : String) (body : Json) : Option RawWorkerEvent := do
  let hostname ← strField body "hostname"
  let timestamp ← f64Field body "timestamp"
  return {
    workerId := hostname
    hostname
    eventType
    timestamp
    activeTasks := u32Field body "active"
    processed := (body.get "processed").bind Json.asU64
    loadAvg := ((body.get "loadavg").bind Json.asArray).map (·.filterMap Json.asF64)
    cpuPercent := none
    memoryMb := none
    poolSize := u32Field body "pool_size"
    poolType := strField body "pool_type"
    swIdent := strField body "sw_ident"
    swVer := strField body "sw_ver" }

/-- A parsed event has no state of its own. -/
theorem parseCeleryEvent_state {serde : SerdeJson} {eventType : String} {body : Json}
    {e : RawTaskEvent} (h : parseCeleryEvent serde eventType body = some e) : e.state = none := by
  unfold parseCeleryEvent at h
  obtain ⟨taskId, -, h⟩ := Option.bind_eq_some_iff.1 h
  obtain ⟨timestamp, -, h⟩ := Option.bind_eq_some_iff.1 h
  rw [← Option.some.inj h]

/-! ### Rows -/

/-- ClickHouse row type for the task_events table; the timestamp is in nanoseconds. -/
structure TaskEventRow where
  tenantId : Uuid
  eventId : Uuid
  taskId : String
  taskName : String
  queue : String
  workerId : String
  state : String
  eventType : String
  timestamp : Int
  args : String
  kwargs : String
  result : String
  exception : String
  traceback : String
  runtime : F64
  retries : Nat
  rootId : Option String
  parentId : Option String
  groupId : Option String
  chordId : Option String
  agentId : Uuid
  brokerType : String
  deriving Repr, DecidableEq

/-- ClickHouse row type for the worker_events table. -/
structure WorkerEventRow where
  tenantId : Uuid
  eventId : Uuid
  workerId : String
  hostname : String
  eventType : String
  timestamp : Int
  activeTasks : Nat
  processed : Nat
  loadAvg : List F64
  cpuPercent : F64
  memoryMb : F64
  poolSize : Nat
  poolType : String
  swIdent : String
  swVer : String
  agentId : Uuid
  deriving Repr, DecidableEq

/-- Map Celery event types to task states. -/
def eventTypeToState (eventType : String) : String :=
  match eventType with
  | "task-sent" => "PENDING"
  | "task-received" => "RECEIVED"
  | "task-started" => "STARTED"
  | "task-succeeded" => "SUCCESS"
  | "task-failed" => "FAILURE"
  | "task-retried" => "RETRY"
  | "task-revoked" => "REVOKED"
  | "task-rejected" => "REJECTED"
  | _ => "PENDING"

theorem eventTypeToState_ne_empty (eventType : String) : eventTypeToState eventType ≠ "" := by
  unfold eventTypeToState
  split <;> decide

/-- The unix seconds `OffsetDateTime` can hold. -/
def unixInRange (secs : Int) : Bool :=
  decide (-377705116800 ≤ secs ∧ secs ≤ 253402300799)

/-- A timestamp in whole seconds and nanoseconds; `now` stands in for seconds out of
range. -/
def eventTime (now : Int) (timestamp : F64) : Int :=
  let secs := timestamp.toI64
  let nanos := ((timestamp.sub (.ofI64 secs)).mul (.fin 1000000000)).toI64
  (if unixInRange secs then secs * 1000000000 else now) + nanos

/-- Normalize a raw task event into a ClickHouse row; `eventId` is the id drawn. -/
def normalizeTaskEvent (eventId : Uuid) (now : Int) (tenantId agentId : Uuid) (brokerType : String)
    (raw : RawTaskEvent) : TaskEventRow where
  tenantId := tenantId
  eventId := eventId
  taskId := raw.taskId
  taskName := raw.taskName
  queue := raw.queue.getD ""
  workerId := raw.workerId.getD ""
  state := raw.state.getD (eventTypeToState raw.eventType)
  eventType := raw.eventType
  timestamp := eventTime now raw.timestamp
  args := raw.args.getD ""
  kwargs := raw.kwargs.getD ""
  result := raw.result.getD ""
  exception := raw.exception.getD ""
  traceback := raw.traceback.getD ""
  runtime := raw.runtime.getD .zero
  retries := raw.retries.getD 0
  rootId := raw.rootId
  parentId := raw.parentId
  groupId := raw.groupId
  chordId := raw.chordId
  agentId := agentId
  brokerType := brokerType

/-- Normalize a raw worker event into a ClickHouse row. -/
def normalizeWorkerEvent (eventId : Uuid) (now : Int) (tenantId agentId : Uuid)
    (raw : RawWorkerEvent) : WorkerEventRow where
  tenantId := tenantId
  eventId := eventId
  workerId := raw.workerId
  hostname := raw.hostname
  eventType := raw.eventType
  timestamp := eventTime now raw.timestamp
  activeTasks := raw.activeTasks.getD 0
  processed := raw.processed.getD 0
  loadAvg := raw.loadAvg.getD []
  cpuPercent := raw.cpuPercent.getD .zero
  memoryMb := raw.memoryMb.getD .zero
  poolSize := raw.poolSize.getD 0
  poolType := raw.poolType.getD ""
  swIdent := raw.swIdent.getD ""
  swVer := raw.swVer.getD ""
  agentId := agentId

end Feloxi.Pipeline
