import Feloxi.Broker.Consumers

/-!
# Feloxi.Broker.Transports

A list of events on three transports: in an envelope on pub/sub, in an envelope on a list
queue, and bare on AMQP. What a consumer makes of a message is read off its `ledger`: the
events appended to its batches so far and its parse failures.

A list queue makes nothing of an envelope around an array, so the transports agree on
arrays only when they are empty, and on a single object when it is a well-formed event.
-/

namespace Feloxi.Broker

open Pipeline (SerdeJson strField RawTaskEvent RawWorkerEvent parseCeleryEvent
  parseCeleryWorkerEvent)

/-! ### What a consumer has appended -/

structure Ledger where
  tasks : List RawTaskEvent
  workers : List RawWorkerEvent
  parseFailed : Nat
  deriving Repr, DecidableEq

def ParsedEvent.asTask : ParsedEvent → Option RawTaskEvent
  | .task e => some e
  | .worker _ => none

def ParsedEvent.asWorker : ParsedEvent → Option RawWorkerEvent
  | .task _ => none
  | .worker e => some e

/-- Parsed events and failures are entered. -/
def Ledger.enter (l : Ledger) (events : List ParsedEvent) (failed : Nat) : Ledger where
  tasks := l.tasks ++ events.filterMap ParsedEvent.asTask
  workers := l.workers ++ events.filterMap ParsedEvent.asWorker
  parseFailed := l.parseFailed + failed

/-- All events ever appended, handed over or not. -/
def Consumer.ledger (c : Consumer) : Ledger where
  tasks := c.ingestedTasks.flatten ++ c.taskBatch
  workers := c.ingestedWorkers.flatten ++ c.workerBatch
  parseFailed := c.parseFailed

@[simp] theorem Ledger.enter_nil (l : Ledger) : l.enter [] 0 = l := by
  simp [enter]

theorem Ledger.enter_enter (l : Ledger) (events events' : List ParsedEvent) (m n : Nat) :
    (l.enter events m).enter events' n = l.enter (events ++ events') (m + n) := by
  simp [enter, Nat.add_assoc]

/-- What is entered can be read back. -/
theorem Ledger.enter_inj {l : Ledger} {events events' : List ParsedEvent} {m n : Nat}
    (h : l.enter events m = l.enter events' n) :
    events.length = events'.length ∧ m = n := by
  have hlength : ∀ es : List ParsedEvent, es.length =
      (es.filterMap ParsedEvent.asTask).length + (es.filterMap ParsedEvent.asWorker).length := by
    intro es
    induction es with
    | nil => rfl
    | cons e rest ih => cases e with
      | task t => simp [List.filterMap_cons, ParsedEvent.asTask, ParsedEvent.asWorker, ih]; omega
      | worker v => simp [List.filterMap_cons, ParsedEvent.asTask, ParsedEvent.asWorker, ih]; omega
  have htasks := congrArg (fun l => l.tasks.length) h
  have hworkers := congrArg (fun l => l.workers.length) h
  have hfailed := congrArg Ledger.parseFailed h
  simp only [enter, List.length_append] at htasks hworkers hfailed
  rw [hlength events, hlength events']
  omega

@[simp] theorem ledger_route (c : Consumer) (e : ParsedEvent) :
    (c.route e).ledger = c.ledger.enter [e] 0 := by
  cases e <;> simp [Consumer.route, Consumer.ledger, Ledger.enter, ParsedEvent.asTask,
    ParsedEvent.asWorker]

@[simp] theorem ledger_countFailed (c : Consumer) (n : Nat) :
    (c.countFailed n).ledger = c.ledger.enter [] n := by
  simp [Consumer.countFailed, Consumer.ledger, Ledger.enter]

/-- Handing over a batch appends nothing. -/
@[simp] theorem ledger_flushTasks (c : Consumer) (cap : Nat) :
    (c.flushTasks cap).ledger = c.ledger := by
  unfold Consumer.flushTasks
  split
  · simp [Consumer.ledger]
  · rfl

@[simp] theorem ledger_flushWorkers (c : Consumer) (cap : Nat) :
    (c.flushWorkers cap).ledger = c.ledger := by
  unfold Consumer.flushWorkers
  split
  · simp [Consumer.ledger]
  · rfl

theorem ledger_foldl_route (events : List ParsedEvent) (c : Consumer) :
    (events.foldl Consumer.route c).ledger = c.ledger.enter events 0 := by
  induction events generalizing c with
  | nil => exact (Ledger.enter_nil _).symm
  | cons e rest ih => rw [List.foldl_cons, ih, ledger_route, Ledger.enter_enter]; rfl

theorem length_foldl_route (events : List ParsedEvent) (c : Consumer) :
    (events.foldl Consumer.route c).taskBatch.length +
      (events.foldl Consumer.route c).workerBatch.length =
        c.taskBatch.length + c.workerBatch.length + events.length := by
  induction events generalizing c with
  | nil => rfl
  | cons e rest ih =>
      rw [List.foldl_cons, ih, List.length_cons]
      cases e <;> simp [Consumer.route] <;> omega

/-! ### The three transports -/

section Transports

variable {d : Decoders}

/-- Pub/sub enters the events of a payload and counts the others. -/
theorem ledger_pubsubMessage (taskBatchCap workerBatchCap : Nat) (raw : String) (c : Consumer) :
    (pubsubMessage d taskBatchCap workerBatchCap raw c).ledger =
      c.ledger.enter (payloadEvents d raw).1
        ((payloadEvents d raw).2 - (payloadEvents d raw).1.length) := by
  have hrouted := length_foldl_route (payloadEvents d raw).1 c
  have hfails : (processPubsubPayload d raw c).2 =
      (payloadEvents d raw).2 - (payloadEvents d raw).1.length := by
    unfold processPubsubPayload
    dsimp only
    omega
  unfold pubsubMessage
  dsimp only
  rw [ledger_flushWorkers, ledger_flushTasks, ledger_countFailed, hfails]
  show ((payloadEvents d raw).1.foldl Consumer.route c).ledger.enter _ _ = _
  rw [ledger_foldl_route, Ledger.enter_enter, List.append_nil, Nat.zero_add]

/-- A list queue enters what one message parses to. -/
theorem ledger_drainMessage (rawMsg : String) (c : Consumer) :
    (drainMessage d rawMsg c).ledger = c.ledger.enter (parseRawMessage d rawMsg).toList 0 := by
  unfold drainMessage
  cases parseRawMessage d rawMsg with
  | none => exact (Ledger.enter_nil _).symm
  | some parsed => exact ledger_route c parsed

/-- Whether a value has the type of a task or worker event, and is none. -/
def isBroken (serde : SerdeJson) (event : Json) : Bool :=
  let eventType := (strField event "type").getD "unknown"
  (startsWith eventType "task-" || startsWith eventType "worker-") &&
    (classifyEvent serde event).isNone

/-- AMQP passes over values of other types without counting them. -/
theorem ledger_amqpEvent (serde : SerdeJson) (c : Consumer) (event : Json) :
    (amqpEvent serde c event).ledger =
      c.ledger.enter (classifyEvent serde event).toList (if isBroken serde event then 1 else 0) := by
  unfold amqpEvent isBroken classifyEvent parseAs
  by_cases htask : startsWith ((strField event "type").getD "unknown") "task-" = true
  · cases hparse : parseCeleryEvent serde ((strField event "type").getD "unknown") event with
    | none => simp [htask, hparse]
    | some e => simp [htask, hparse]
  · by_cases hworker : startsWith ((strField event "type").getD "unknown") "worker-" = true
    · cases hparse : parseCeleryWorkerEvent ((strField event "type").getD "unknown") event with
      | none => simp [htask, hworker, hparse]
      | some e => simp [htask, hworker, hparse]
    · simp [htask, hworker]

theorem ledger_foldl_amqpEvent (serde : SerdeJson) (events : List Json) (c : Consumer) :
    (events.foldl (amqpEvent serde) c).ledger =
      c.ledger.enter (events.filterMap (classifyEvent serde)) (events.countP (isBroken serde)) := by
  induction events generalizing c with
  | nil => exact (Ledger.enter_nil _).symm
  | cons event rest ih =>
      rw [List.foldl_cons, ih, ledger_amqpEvent, Ledger.enter_enter, List.countP_cons,
        List.filterMap_cons, Nat.add_comm]
      cases classifyEvent serde event <;> rfl

/-- An event that is broken was not classified. -/
theorem isBroken_of_isSome {serde : SerdeJson} {event : Json}
    (h : (classifyEvent serde event).isSome = true) : isBroken serde event = false := by
  simp [isBroken, Option.isNone_eq_false_iff.2 h]

/-! ### One list of events -/

/-- A body that carries a list of events: an array, or the only event itself. -/
inductive Carries (events : List Json) : Json → Prop where
  | array : Carries events (.arr events)
  | bare {e : Json} (only : events = [e]) : Carries events e

/-- The events are objects. -/
def Objects (events : List Json) : Prop := ∀ e ∈ events, ∃ entries, e = .obj entries

variable {events : List Json} {body : Json}

/-- The elements of a body that carries a list are that list. -/
theorem Carries.elements (hcarries : Carries events body) (hobjects : Objects events) :
    body.asArray.getD [body] = events := by
  cases hcarries with
  | array => rfl
  | bare only =>
      obtain ⟨entries, rfl⟩ := hobjects body (by rw [only]; exact List.mem_singleton_self _)
      exact only.symm

/-- Pub/sub takes the events of an envelope one by one. -/
theorem payloadEvents_of_wraps {raw : String} (hwraps : Wraps d raw body)
    (hcarries : Carries events body) (hobjects : Objects events) :
    payloadEvents d raw = (events.filterMap (classifyEvent d.serde), events.length) := by
  have hitem : ∀ e ∈ events, arrayItem d.serde e = some e := by
    intro e he
    obtain ⟨entries, rfl⟩ := hobjects e he
    rfl
  rw [payloadEvents, decodeKombuBody_of_wraps hwraps]
  cases hcarries with
  | array =>
      show (events.filterMap _, _) = _
      congr 1
      refine List.filterMap_congr fun e he => ?_
      rw [hitem e he, Option.bind_some]
  | bare only =>
      obtain ⟨entries, rfl⟩ := hobjects body (by rw [only]; exact List.mem_singleton_self _)
      show ((classifyEvent d.serde (.obj entries)).toList, 1) = _
      rw [only]
      cases hparsed : classifyEvent d.serde (.obj entries) <;> simp [hparsed]

/-- An array has none of the fields an event needs. -/
theorem parseAs_arr (serde : SerdeJson) (eventType : String) (items : List Json) :
    parseAs serde eventType (.arr items) = none := by
  have htask : parseCeleryEvent serde eventType (.arr items) = none := rfl
  have hworker : parseCeleryWorkerEvent eventType (.arr items) = none := rfl
  simp [parseAs, htask, hworker]

/-- A list queue makes nothing of an array. -/
theorem parseRawMessage_of_wraps_array {raw : String} (hwraps : Wraps d raw (.arr events)) :
    parseRawMessage d raw = none := by
  rw [parseRawMessage, decodeKombuBody_of_wraps hwraps]
  exact parseAs_arr ..

/-- It agrees with pub/sub on an object that is an event. -/
theorem parseRawMessage_of_isSome {raw : String} (hwraps : Wraps d raw body)
    (h : (classifyEvent d.serde body).isSome = true) :
    parseRawMessage d raw = classifyEvent d.serde body := by
  rw [parseRawMessage, decodeKombuBody_of_wraps hwraps]
  cases htype : strField body "type" with
  | some t => simp [classifyEvent, htype]
  | none =>
      -- without a type there is no event
      have hunknown : classifyEvent d.serde body = none := by
        rw [classifyEvent, htype]
        rfl
      rw [hunknown] at h
      cases h

/-- **One event, one meaning** on pub/sub, list queues and AMQP: just for the empty list,
and for a single event that is sent as an object and classified. -/
theorem transports_agree_iff (hobjects : Objects events) {raw data : String} {bareBody : Json}
    (hwraps : Wraps d raw body) (hcarries : Carries events body)
    (hdata : d.serde.fromStr data = some bareBody) (hbare : Carries events bareBody)
    (taskBatchCap workerBatchCap : Nat) (c : Consumer) :
    ((drainMessage d raw c).ledger = (pubsubMessage d taskBatchCap workerBatchCap raw c).ledger ∧
      (amqpDelivery d (some data) c).ledger =
        (pubsubMessage d taskBatchCap workerBatchCap raw c).ledger) ↔
      events = [] ∨ events = [body] ∧ (classifyEvent d.serde body).isSome = true := by
  have hpubsub := ledger_pubsubMessage (d := d) taskBatchCap workerBatchCap raw c
  rw [payloadEvents_of_wraps hwraps hcarries hobjects] at hpubsub
  have hamqp : (amqpDelivery d (some data) c).ledger =
      c.ledger.enter (events.filterMap (classifyEvent d.serde))
        (events.countP (isBroken d.serde)) := by
    rw [amqpDelivery, Option.bind_some, hdata]
    show ((bareBody.asArray.getD [bareBody]).foldl (amqpEvent d.serde) c).ledger = _
    rw [hbare.elements hobjects, ledger_foldl_amqpEvent]
  rw [hpubsub, hamqp, ledger_drainMessage]
  constructor
  · intro ⟨hdrain, _⟩
    obtain ⟨hlength, hfailed⟩ := Ledger.enter_inj hdrain
    cases hcarries with
    | array =>
        rw [parseRawMessage_of_wraps_array hwraps, Option.toList_none, List.length_nil] at hlength
        exact .inl (List.eq_nil_of_length_eq_zero (by omega))
    | bare only =>
        refine .inr ⟨only, ?_⟩
        cases hparsed : classifyEvent d.serde body with
        | some parsed => rfl
        | none =>
            -- pub/sub counts what it cannot classify, a list queue does not
            rw [only, List.filterMap_cons, hparsed] at hfailed
            cases hfailed
  · intro h
    rcases h with rfl | ⟨rfl, hsome⟩
    · cases hcarries with
      | array => rw [parseRawMessage_of_wraps_array hwraps]; exact ⟨rfl, rfl⟩
      | bare only => cases only
    · obtain ⟨parsed, hparsed⟩ := Option.isSome_iff_exists.1 hsome
      rw [parseRawMessage_of_isSome hwraps hsome, List.filterMap_cons, hparsed, List.countP_cons,
        isBroken_of_isSome hsome]
      exact ⟨rfl, rfl⟩

end Transports

/-! ### One event in an array -/

/-- A worker going online. -/
def onlineEvent : Json :=
  .obj [("hostname", .str "w1"), ("timestamp", .int 1), ("type", .str "worker-online")]

def onlineText : String :=
  "\x7b\"hostname\":\"w1\",\"timestamp\":1,\"type\":\"worker-online\"\x7d"

/-- The event in an array, as Celery batches events. -/
def onlineArrayText : String :=
  "[\x7b\"hostname\":\"w1\",\"timestamp\":1,\"type\":\"worker-online\"\x7d]"

/-- An envelope around the object. -/
def enveloped : String :=
  "\x7b\"body\":\"\x7b\\\"hostname\\\":\\\"w1\\\",\\\"timestamp\\\":1,\\\"type\\\":" ++
  "\\\"worker-online\\\"\x7d\",\"content-type\":\"application/json\"\x7d"

/-- An envelope around the array. -/
def envelopedArray : String :=
  "\x7b\"body\":\"[\x7b\\\"hostname\\\":\\\"w1\\\",\\\"timestamp\\\":1,\\\"type\\\":" ++
  "\\\"worker-online\\\"\x7d]\",\"content-type\":\"application/json\"\x7d"

/-- What is inside an envelope. -/
def envelopeOf (body : String) : Json :=
  .obj [("body", .str body), ("content-type", .str "application/json")]

/-- The texts above and the values they are of. -/
def sampleDecoders : Decoders where
  serde :=
    { toString _ := ""
      fromStr text :=
        if text = onlineText then some onlineEvent
        else if text = onlineArrayText then some (.arr [onlineEvent])
        else if text = enveloped then some (envelopeOf onlineText)
        else if text = envelopedArray then some (envelopeOf onlineArrayText)
        else none }
  base64 _ := none

def idleConsumer : Consumer := ⟨[], [], [], [], 0⟩

/-- The event of the sample. -/
def onlineWorker : RawWorkerEvent where
  workerId := "w1"
  hostname := "w1"
  eventType := "worker-online"
  timestamp := .fin 1
  activeTasks := none
  processed := none
  loadAvg := none
  cpuPercent := none
  memoryMb := none
  poolSize := none
  poolType := none
  swIdent := none
  swVer := none

theorem transports_agree_iff_online :
    ((drainMessage sampleDecoders enveloped idleConsumer).ledger =
        (pubsubMessage sampleDecoders 100 20 enveloped idleConsumer).ledger ∧
      (amqpDelivery sampleDecoders (some onlineText) idleConsumer).ledger =
        (pubsubMessage sampleDecoders 100 20 enveloped idleConsumer).ledger) ↔
      [onlineEvent] = [] ∨ [onlineEvent] = [onlineEvent] ∧
        (classifyEvent sampleDecoders.serde onlineEvent).isSome = true :=
  transports_agree_iff (d := sampleDecoders) (fun e he => ⟨_, List.mem_singleton.1 he⟩)
    (.json (show _ = some (envelopeOf onlineText) by decide +kernel) rfl rfl rfl
      (by decide +kernel))
    (.bare rfl) (by decide +kernel) (.bare rfl) 100 20 idleConsumer

/-- Found on a list queue, the array yields no event; on the other transports it does. -/
theorem queue_drops_array :
    Wraps sampleDecoders envelopedArray (.arr [onlineEvent]) ∧
      (pubsubMessage sampleDecoders 100 20 envelopedArray idleConsumer).ledger =
        ⟨[], [onlineWorker], 0⟩ ∧
      (amqpDelivery sampleDecoders (some onlineArrayText) idleConsumer).ledger =
        ⟨[], [onlineWorker], 0⟩ ∧
      (drainMessage sampleDecoders envelopedArray idleConsumer).ledger = ⟨[], [], 0⟩ := by
  refine ⟨.json (show _ = some (envelopeOf onlineArrayText) by decide +kernel) rfl rfl rfl
    (by decide +kernel), ?_⟩
  decide +kernel

end Feloxi.Broker
