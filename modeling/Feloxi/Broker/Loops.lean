import Feloxi.Broker.Transports

/-!
# Feloxi.Broker.Loops

The loops of the two consumers (`run_redis_consumer` in
`crates/api/src/broker_conn/redis_consumer.rs`, `consume_loop` in
`crates/api/src/broker_conn/amqp_consumer.rs`). An input is what one turn of the `select!`
finds ready, in any order; a run is the inputs before the loop ends, by a cancel or by the
end of its stream.

Events sit in two buffers, which are emptied by a full batch, by a tick and at the end.
Whatever the order, no event is lost and none is handed over twice.
-/

namespace Feloxi.Broker

open Pipeline (RawTaskEvent RawWorkerEvent)

/-! ### The Redis loop -/

/-- Hand over what there is: `flush_batches`, and the end of both loops. -/
def Consumer.flushBatches (c : Consumer) : Consumer := (c.flushTasks 1).flushWorkers 1

/-- One list queue: `RPOP` until it answers nothing or fails (`none`), or `maxDrain`
messages were taken; also returns how many were. -/
def drainQueue (d : Decoders) (maxDrain : Nat) :
    List (Option String) → Consumer → Nat → Consumer × Nat
  | some rawMsg :: replies, c, drained =>
    if drained < maxDrain then drainQueue d maxDrain replies (drainMessage d rawMsg c) (drained + 1)
    else (c, drained)
  | none :: _, c, drained => (c, drained)
  | [], c, drained => (c, drained)

/-- `drain_list_queues`: what each queue answers, in the order of the queues. -/
def drainListQueues (d : Decoders) (maxDrain : Nat) :
    List (List (Option String)) → Consumer → Nat → Consumer
  | [], c, _ => c
  | queue :: queues, c, drained =>
    let (c, drained) := drainQueue d maxDrain queue c drained
    if maxDrain ≤ drained then c else drainListQueues d maxDrain queues c drained

inductive RedisInput where
  /-- A message; `none` if its value is no text. -/
  | message (value : Option String)
  | lagged
  /-- A tick, and the answers of the list queues if it is time to drain them. -/
  | tick (drain : Option (List (List (Option String))))

/-- What the environment sets. -/
structure RedisSettings where
  taskBatchCap : Nat
  workerBatchCap : Nat
  drainMax : Nat

/-- One turn of the loop. -/
def redisTurn (d : Decoders) (settings : RedisSettings) (c : Consumer) : RedisInput → Consumer
  | .message (some payload) => pubsubMessage d settings.taskBatchCap settings.workerBatchCap payload c
  | .message none => c
  | .lagged => c
  | .tick none => c.flushBatches
  | .tick (some queues) => drainListQueues d settings.drainMax queues c.flushBatches 0

/-- `run_redis_consumer` from its first turn to its last. -/
def runRedisConsumer (d : Decoders) (settings : RedisSettings) (inputs : List RedisInput) :
    Consumer :=
  (inputs.foldl (redisTurn d settings) idleConsumer).flushBatches

/-! ### The AMQP loop -/

inductive AmqpInput where
  /-- A delivery; `none` if its data is not UTF-8. -/
  | delivery (data : Option String)
  | tick

def amqpTurn (d : Decoders) (c : Consumer) : AmqpInput → Consumer
  | .delivery data => amqpDelivery d data c
  | .tick => c.flushBatches

/-- `consume_loop` from its first turn to its last. -/
def consumeLoop (d : Decoders) (inputs : List AmqpInput) : Consumer :=
  (inputs.foldl (amqpTurn d) idleConsumer).flushBatches

/-! ### Routed events -/

/-- The messages that `drainQueue` takes, and how many were taken then. -/
def takenFromQueue (maxDrain : Nat) : List (Option String) → Nat → List String × Nat
  | some rawMsg :: replies, drained =>
    if drained < maxDrain then
      let (taken, drained) := takenFromQueue maxDrain replies (drained + 1)
      (rawMsg :: taken, drained)
    else ([], drained)
  | none :: _, drained => ([], drained)
  | [], drained => ([], drained)

def takenFromQueues (maxDrain : Nat) : List (List (Option String)) → Nat → List String
  | [], _ => []
  | queue :: queues, drained =>
    let (taken, drained) := takenFromQueue maxDrain queue drained
    taken ++ if maxDrain ≤ drained then [] else takenFromQueues maxDrain queues drained

/-- The events that an input of the Redis loop carries. -/
def RedisInput.routed (d : Decoders) (settings : RedisSettings) : RedisInput → List ParsedEvent
  | .message (some payload) => (payloadEvents d payload).1
  | .message none => []
  | .lagged => []
  | .tick none => []
  | .tick (some queues) =>
    (takenFromQueues settings.drainMax queues 0).filterMap (parseRawMessage d)

/-- The events of a delivery. -/
def deliveryEvents (d : Decoders) (data : Option String) : List ParsedEvent :=
  match data.bind d.serde.fromStr with
  | none => []
  | some body => (body.asArray.getD [body]).filterMap (classifyEvent d.serde)

/-- The events that an input of the AMQP loop carries. -/
def AmqpInput.routed (d : Decoders) : AmqpInput → List ParsedEvent
  | .delivery data => deliveryEvents d data
  | .tick => []

/-! ### One turn -/

/-- What was appended so far, parse failures aside: `events` more than before. -/
def Appends (before after : Ledger) (events : List ParsedEvent) : Prop :=
  ∃ failed, after = before.enter events failed

theorem Appends.refl (l : Ledger) : Appends l l [] := ⟨0, (Ledger.enter_nil l).symm⟩

theorem Appends.trans {l l' l'' : Ledger} {events events' : List ParsedEvent}
    (h : Appends l l' events) (h' : Appends l' l'' events') :
    Appends l l'' (events ++ events') := by
  obtain ⟨m, rfl⟩ := h
  obtain ⟨n, rfl⟩ := h'
  exact ⟨m + n, Ledger.enter_enter l events events' m n⟩

@[simp] theorem ledger_flushBatches (c : Consumer) : c.flushBatches.ledger = c.ledger := by
  rw [Consumer.flushBatches, ledger_flushWorkers, ledger_flushTasks]

theorem appends_drainMessage (d : Decoders) (rawMsg : String) (c : Consumer) :
    Appends c.ledger (drainMessage d rawMsg c).ledger (parseRawMessage d rawMsg).toList :=
  ⟨0, ledger_drainMessage rawMsg c⟩

/-- A queue appends the events of the messages taken from it. -/
theorem appends_drainQueue (d : Decoders) (maxDrain : Nat) (replies : List (Option String))
    (c : Consumer) (drained : Nat) :
    Appends c.ledger (drainQueue d maxDrain replies c drained).1.ledger
        ((takenFromQueue maxDrain replies drained).1.filterMap (parseRawMessage d)) ∧
      (drainQueue d maxDrain replies c drained).2 =
        (takenFromQueue maxDrain replies drained).2 := by
  induction replies generalizing c drained with
  | nil => exact ⟨Appends.refl _, rfl⟩
  | cons reply replies ih =>
      cases reply with
      | none => exact ⟨Appends.refl _, rfl⟩
      | some rawMsg =>
          unfold drainQueue takenFromQueue
          by_cases hroom : drained < maxDrain
          · obtain ⟨happends, hcount⟩ := ih (drainMessage d rawMsg c) (drained + 1)
            rw [if_pos hroom, if_pos hroom]
            refine ⟨?_, hcount⟩
            have hall := (appends_drainMessage d rawMsg c).trans happends
            rw [List.filterMap_cons]
            cases hparsed : parseRawMessage d rawMsg with
            | none =>
                rw [hparsed] at hall
                exact hall
            | some parsed =>
                rw [hparsed] at hall
                exact hall
          · rw [if_neg hroom, if_neg hroom]
            exact ⟨Appends.refl _, rfl⟩

theorem appends_drainListQueues (d : Decoders) (maxDrain : Nat)
    (queues : List (List (Option String))) (c : Consumer) (drained : Nat) :
    Appends c.ledger (drainListQueues d maxDrain queues c drained).ledger
      ((takenFromQueues maxDrain queues drained).filterMap (parseRawMessage d)) := by
  induction queues generalizing c drained with
  | nil => exact Appends.refl _
  | cons queue queues ih =>
      obtain ⟨happends, hcount⟩ := appends_drainQueue d maxDrain queue c drained
      unfold drainListQueues takenFromQueues
      dsimp only
      rw [hcount, List.filterMap_append]
      split
      · rw [List.filterMap_nil, List.append_nil]
        exact happends
      · exact happends.trans (ih _ _)

/-- A turn of the Redis loop appends the events of its input. -/
theorem appends_redisTurn (d : Decoders) (settings : RedisSettings) (c : Consumer)
    (input : RedisInput) :
    Appends c.ledger (redisTurn d settings c input).ledger (input.routed d settings) := by
  cases input with
  | message value =>
      cases value with
      | none => exact Appends.refl _
      | some payload => exact ⟨_, ledger_pubsubMessage _ _ payload c⟩
  | lagged => exact Appends.refl _
  | tick drain =>
      cases drain with
      | none =>
          show Appends c.ledger c.flushBatches.ledger []
          rw [ledger_flushBatches]
          exact Appends.refl _
      | some queues =>
          have hdrain := appends_drainListQueues d settings.drainMax queues c.flushBatches 0
          rw [ledger_flushBatches] at hdrain
          exact hdrain

/-- A turn of the AMQP loop appends the events of its input. -/
theorem appends_amqpTurn (d : Decoders) (c : Consumer) (input : AmqpInput) :
    Appends c.ledger (amqpTurn d c input).ledger (input.routed d) := by
  cases input with
  | delivery data =>
      show Appends c.ledger (amqpDelivery d data c).ledger (deliveryEvents d data)
      unfold amqpDelivery deliveryEvents
      cases data.bind d.serde.fromStr with
      | none => exact ⟨1, ledger_countFailed c 1⟩
      | some body => exact ⟨_, ledger_foldl_amqpEvent d.serde _ c⟩
  | tick =>
      show Appends c.ledger c.flushBatches.ledger []
      rw [ledger_flushBatches]
      exact Appends.refl _

/-! ### A whole run -/

/-- A loop appends what its inputs carry, in their order. -/
theorem appends_foldl {ι : Type} {turn : Consumer → ι → Consumer} {routed : ι → List ParsedEvent}
    (hturn : ∀ c input, Appends c.ledger (turn c input).ledger (routed input)) (inputs : List ι)
    (c : Consumer) :
    Appends c.ledger (inputs.foldl turn c).ledger (inputs.flatMap routed) := by
  induction inputs generalizing c with
  | nil => exact Appends.refl _
  | cons input rest ih =>
      rw [List.foldl_cons, List.flatMap_cons]
      exact (hturn c input).trans (ih (turn c input))

/-- After the last flush the buffers are empty. -/
theorem flushBatches_empty (c : Consumer) :
    c.flushBatches.taskBatch = [] ∧ c.flushBatches.workerBatch = [] := by
  have htasks : ∀ c : Consumer, (c.flushTasks 1).taskBatch = [] := by
    intro c
    unfold Consumer.flushTasks
    split
    · rfl
    · rename_i hempty
      exact List.eq_nil_of_length_eq_zero (by omega)
  unfold Consumer.flushBatches Consumer.flushWorkers
  split
  · exact ⟨htasks c, rfl⟩
  · rename_i hempty
    exact ⟨htasks c, List.eq_nil_of_length_eq_zero (by omega)⟩

/-- What a loop hands over is what its inputs carry. -/
theorem ingested_of_appends {c : Consumer} {events : List ParsedEvent}
    (h : Appends idleConsumer.ledger c.ledger events) :
    c.flushBatches.ingestedTasks.flatten = events.filterMap ParsedEvent.asTask ∧
      c.flushBatches.ingestedWorkers.flatten = events.filterMap ParsedEvent.asWorker := by
  obtain ⟨htasks, hworkers⟩ := flushBatches_empty c
  obtain ⟨failed, hledger⟩ := h
  rw [← ledger_flushBatches c] at hledger
  have htask := congrArg Ledger.tasks hledger
  have hworker := congrArg Ledger.workers hledger
  rw [Consumer.ledger, htasks, List.append_nil] at htask
  rw [Consumer.ledger, hworkers, List.append_nil] at hworker
  exact ⟨htask, hworker⟩

end Feloxi.Broker
