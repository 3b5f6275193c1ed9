import Feloxi.Broker.Kombu

/-!
# Feloxi.Broker.Consumers

The consumers of Celery events, message by message: pub/sub payloads and list queues of
a Redis broker (`crates/api/src/broker_conn/redis_consumer.rs`), and deliveries of an
AMQP broker (`crates/api/src/broker_conn/amqp_consumer.rs`).
-/

namespace Feloxi.Broker

open Pipeline (SerdeJson strField RawTaskEvent RawWorkerEvent parseCeleryEvent
  parseCeleryWorkerEvent)

/-! ### Consumer state -/

inductive ParsedEvent where
  | task (e : RawTaskEvent)
  | worker (e : RawWorkerEvent)
  deriving Repr, DecidableEq

structure Consumer where
  taskBatch : List RawTaskEvent
  workerBatch : List RawWorkerEvent
  /-- The batches handed to the pipeline. -/
  ingestedTasks : List (List RawTaskEvent)
  ingestedWorkers : List (List RawWorkerEvent)
  /-- The counter `events_parse_failed`. -/
  parseFailed : Nat
  deriving Repr, DecidableEq

namespace Consumer

/-- `route_parsed_event`. -/
def route (c : Consumer) : ParsedEvent → Consumer
  | .task e => { c with taskBatch := c.taskBatch ++ [e] }
  | .worker e => { c with workerBatch := c.workerBatch ++ [e] }

/-- Hand over the task batch once it holds `cap` events. -/
def flushTasks (cap : Nat) (c : Consumer) : Consumer :=
  if cap ≤ c.taskBatch.length then
    { c with taskBatch := [], ingestedTasks := c.ingestedTasks ++ [c.taskBatch] }
  else c

/-- Hand over the worker batch once it holds `cap` events. -/
def flushWorkers (cap : Nat) (c : Consumer) : Consumer :=
  if cap ≤ c.workerBatch.length then
    { c with workerBatch := [], ingestedWorkers := c.ingestedWorkers ++ [c.workerBatch] }
  else c

def countFailed (n : Nat) (c : Consumer) : Consumer := { c with parseFailed := c.parseFailed + n }

end Consumer

/-! ### Single events -/

/-- An event under the type it was found to have. -/
def parseAs (serde : SerdeJson) (eventType : String) (body : Json) : Option ParsedEvent :=
  if startsWith eventType "task-" then (parseCeleryEvent serde eventType body).map .task
  else if startsWith eventType "worker-" then (parseCeleryWorkerEvent eventType body).map .worker
  else none

/-- `classify_event`. -/
def classifyEvent (serde : SerdeJson) (body : Json) : Option ParsedEvent :=
  parseAs serde ((strField body "type").getD "unknown") body

/-- `parse_raw_message`. -/
def parseRawMessage (d : Decoders) (rawMsg : String) : Option ParsedEvent :=
  match decodeKombuBody d rawMsg with
  | some body =>
    parseAs d.serde (((strField body "type").or (extractEventType d rawMsg)).getD "unknown") body
  | none => (d.serde.fromStr rawMsg).bind (classifyEvent d.serde)

/-! ### Pub/sub -/

/-- The events of a payload, in their order, and how many there should have been. -/
def payloadEvents (d : Decoders) (raw : String) : List ParsedEvent × Nat :=
  match decodeKombuBody d raw with
  | some body =>
    match body.asArray with
    | some items =>
      (items.filterMap fun item => (arrayItem d.serde item).bind (classifyEvent d.serde),
        items.length)
    | none => ((classifyEvent d.serde body).toList, 1)
  | none =>
    -- not an envelope: a bare array or event
    match (d.serde.fromStr raw).bind Json.asArray with
    | some items =>
      (items.filterMap fun item => parseRawMessage d (item.asStr.getD (d.serde.toString item)),
        items.length)
    | none => ((parseRawMessage d raw).toList, 1)

/-- `process_pubsub_payload`: also returns the number of parse failures. -/
def processPubsubPayload (d : Decoders) (raw : String) (c : Consumer) : Consumer × Nat :=
  let (events, attempted) := payloadEvents d raw
  let before := c.taskBatch.length + c.workerBatch.length
  let c := events.foldl Consumer.route c
  (c, attempted - (c.taskBatch.length + c.workerBatch.length - before))

/-- A pub/sub message; the caps are set in the environment. -/
def pubsubMessage (d : Decoders) (taskBatchCap workerBatchCap : Nat) (raw : String)
    (c : Consumer) : Consumer :=
  let (c, parseFails) := processPubsubPayload d raw c
  ((c.countFailed parseFails).flushTasks taskBatchCap).flushWorkers workerBatchCap

/-! ### List queues -/

/-- A message found by `drain_list_queues`. -/
def drainMessage (d : Decoders) (rawMsg : String) (c : Consumer) : Consumer :=
  match parseRawMessage d rawMsg with
  | some parsed => c.route parsed
  | none => c

/-! ### AMQP -/

/-- One event of a delivery. -/
def amqpEvent (serde : SerdeJson) (c : Consumer) (event : Json) : Consumer :=
  let eventType := (strField event "type").getD "unknown"
  if startsWith eventType "task-" then
    match parseCeleryEvent serde eventType event with
    | some e => (c.route (.task e)).flushTasks 100
    | none => c.countFailed 1
  else if startsWith eventType "worker-" then
    match parseCeleryWorkerEvent eventType event with
    | some e => (c.route (.worker e)).flushWorkers 20
    | none => c.countFailed 1
  else c

/-- A delivery of `consume_loop`; `data` is its text, if it is UTF-8. -/
def amqpDelivery (d : Decoders) (data : Option String) (c : Consumer) : Consumer :=
  match data.bind d.serde.fromStr with
  | none => c.countFailed 1
  | some body => (body.asArray.getD [body]).foldl (amqpEvent d.serde) c

end Feloxi.Broker
