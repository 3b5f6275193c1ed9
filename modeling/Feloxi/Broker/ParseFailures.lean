import Feloxi.Broker.Transports

/-!
# Feloxi.Broker.ParseFailures

What `process_pubsub_payload` does to the batches, loop by loop, and what it counts as failed.
Each of its branches counts in its own way; what they count is the elements without an event.
-/

namespace Feloxi.Broker

open Pipeline (RawTaskEvent RawWorkerEvent)

/-! ### The loops -/

/-- `route_parsed_event` of what was parsed, if anything. -/
def Consumer.routeParsed (c : Consumer) : Option ParsedEvent → Consumer
  | some parsed => c.route parsed
  | none => c

/-- An element of an array in an envelope. -/
def bodyItem (d : Decoders) (c : Consumer) (item : Json) : Consumer :=
  match arrayItem d.serde item with
  | some val => c.routeParsed (classifyEvent d.serde val)
  | none => c

/-- An element of a bare array: a message of its own. -/
def rawItem (d : Decoders) (c : Consumer) (item : Json) : Consumer :=
  let itemStr := match item.asStr with
    | some s => s
    | none => d.serde.toString item
  c.routeParsed (parseRawMessage d itemStr)

/-- `process_pubsub_payload`, as it is written. -/
def processPubsub (d : Decoders) (raw : String) (c : Consumer) : Consumer × Nat :=
  let before := c.taskBatch.length + c.workerBatch.length
  let routed := fun c : Consumer => c.taskBatch.length + c.workerBatch.length - before
  match decodeKombuBody d raw with
  | some body =>
    match body.asArray with
    | some arr =>
      let c := arr.foldl (bodyItem d) c
      (c, arr.length - routed c)
    | none =>
      let c := c.routeParsed (classifyEvent d.serde body)
      (c, 1 - routed c)
  | none =>
    match (d.serde.fromStr raw).bind Json.asArray with
    | some items =>
      let c := items.foldl (rawItem d) c
      (c, items.length - routed c)
    | none =>
      match parseRawMessage d raw with
      | some parsed => (c.route parsed, 0)
      | none => (c, 1)

/-! ### Elements -/

/-- What a payload consists of. -/
inductive Element where
  | ofBody (item : Json)
  | body (body : Json)
  | ofArray (item : Json)
  | message
  deriving Repr, DecidableEq

def payloadElements (d : Decoders) (raw : String) : List Element :=
  match decodeKombuBody d raw with
  | some body =>
    match body.asArray with
    | some arr => arr.map .ofBody
    | none => [.body body]
  | none =>
    match (d.serde.fromStr raw).bind Json.asArray with
    | some items => items.map .ofArray
    | none => [.message]

/-- The elements of the array that is decoded, or one. -/
def payloadSize (d : Decoders) (raw : String) : Nat :=
  match decodeKombuBody d raw with
  | some body => (body.asArray.map List.length).getD 1
  | none => (((d.serde.fromStr raw).bind Json.asArray).map List.length).getD 1

/-- The event of an element, which depends on nothing else. -/
def elementEvent (d : Decoders) (raw : String) : Element → Option ParsedEvent
  | .ofBody item => (arrayItem d.serde item).bind (classifyEvent d.serde)
  | .body body => classifyEvent d.serde body
  | .ofArray item => parseRawMessage d (item.asStr.getD (d.serde.toString item))
  | .message => parseRawMessage d raw

section

variable {d : Decoders} {raw : String}

theorem length_payloadElements : (payloadElements d raw).length = payloadSize d raw := by
  unfold payloadElements payloadSize
  cases decodeKombuBody d raw with
  | some body => cases h : body.asArray <;> simp [h]
  | none => cases (d.serde.fromStr raw).bind Json.asArray <;> simp

theorem bodyItem_eq (c : Consumer) (item : Json) :
    bodyItem d c item = c.routeParsed (elementEvent d raw (.ofBody item)) := by
  cases h : arrayItem d.serde item <;> simp [bodyItem, elementEvent, h, Consumer.routeParsed]

theorem rawItem_eq (c : Consumer) (item : Json) :
    rawItem d c item = c.routeParsed (elementEvent d raw (.ofArray item)) := by
  cases h : item.asStr <;> simp [rawItem, elementEvent, h]

/-- The batches after a run over elements. -/
theorem foldl_routeParsed (es : List Element) (c : Consumer) :
    es.foldl (fun c e => c.routeParsed (elementEvent d raw e)) c =
      { c with
        taskBatch := c.taskBatch ++
          es.filterMap fun e => (elementEvent d raw e).bind ParsedEvent.asTask
        workerBatch := c.workerBatch ++
          es.filterMap fun e => (elementEvent d raw e).bind ParsedEvent.asWorker } := by
  induction es generalizing c with
  | nil => simp
  | cons e es ih =>
      rw [List.foldl_cons, ih]
      cases he : elementEvent d raw e with
      | none => simp [Consumer.routeParsed, he]
      | some parsed =>
          cases parsed <;>
            simp [Consumer.routeParsed, Consumer.route, ParsedEvent.asTask, ParsedEvent.asWorker, he]

/-- Every element is appended to one of the batches, or to none. -/
theorem length_appended (d : Decoders) (raw : String) (es : List Element) :
    (es.filterMap fun e => (elementEvent d raw e).bind ParsedEvent.asTask).length +
        (es.filterMap fun e => (elementEvent d raw e).bind ParsedEvent.asWorker).length +
      es.countP (fun e => (elementEvent d raw e).isNone) = es.length := by
  induction es with
  | nil => rfl
  | cons e es ih =>
      cases he : elementEvent d raw e with
      | none =>
          simp [he]
          omega
      | some parsed =>
          cases parsed <;> simp [he, ParsedEvent.asTask, ParsedEvent.asWorker] <;> omega

theorem processPubsub_fst (c : Consumer) :
    (processPubsub d raw c).1 =
      (payloadElements d raw).foldl (fun c e => c.routeParsed (elementEvent d raw e)) c := by
  unfold processPubsub payloadElements
  cases decodeKombuBody d raw with
  | some body =>
      dsimp only
      cases body.asArray with
      | some arr =>
          dsimp only
          rw [List.foldl_map]
          simp only [← bodyItem_eq]
      | none => rfl
  | none =>
      dsimp only
      cases (d.serde.fromStr raw).bind Json.asArray with
      | some items =>
          dsimp only
          rw [List.foldl_map]
          simp only [← rawItem_eq]
      | none =>
          dsimp only [List.foldl_cons, List.foldl_nil, elementEvent]
          cases parseRawMessage d raw <;> rfl

/-- What every branch counts. -/
theorem processPubsub_snd (c : Consumer) :
    (processPubsub d raw c).2 = payloadSize d raw -
      ((processPubsub d raw c).1.taskBatch.length + (processPubsub d raw c).1.workerBatch.length -
        (c.taskBatch.length + c.workerBatch.length)) := by
  unfold processPubsub payloadSize
  cases decodeKombuBody d raw with
  | some body =>
      dsimp only
      cases body.asArray <;> rfl
  | none =>
      dsimp only
      cases (d.serde.fromStr raw).bind Json.asArray with
      | some items => rfl
      | none =>
          dsimp only
          cases parseRawMessage d raw with
          | none => simp
          | some parsed => cases parsed <;> simp [Consumer.route] <;> omega

/-- **Parse failures are exact.** A payload appends the events of its elements to the two batches,
in their order, and does nothing else to the consumer; the events appended and the failures
counted are together as many as the elements. -/
theorem processPubsub_exact (d : Decoders) (raw : String) (c : Consumer) :
    let es := payloadElements d raw
    let tasks := es.filterMap fun e => (elementEvent d raw e).bind ParsedEvent.asTask
    let workers := es.filterMap fun e => (elementEvent d raw e).bind ParsedEvent.asWorker
    let r := processPubsub d raw c
    es.length = payloadSize d raw ∧
      r.1 = { c with taskBatch := c.taskBatch ++ tasks, workerBatch := c.workerBatch ++ workers } ∧
      tasks.length + workers.length + r.2 = payloadSize d raw ∧
      r.2 = es.countP fun e => (elementEvent d raw e).isNone := by
  have hlength : (payloadElements d raw).length = payloadSize d raw := length_payloadElements
  have happended := length_appended d raw (payloadElements d raw)
  have hfst : (processPubsub d raw c).1 = _ := processPubsub_fst c
  have hsnd : (processPubsub d raw c).2 = _ := processPubsub_snd c
  rw [foldl_routeParsed] at hfst
  rw [hfst] at hsnd
  simp only [List.length_append] at hsnd
  dsimp only
  refine ⟨hlength, hfst, ?_, ?_⟩ <;> omega

/-- The loops are the events of the payload, routed one after the other. -/
theorem processPubsub_eq (c : Consumer) : processPubsub d raw c = processPubsubPayload d raw c := by
  have hevents : (payloadEvents d raw).1 = (payloadElements d raw).filterMap (elementEvent d raw) ∧
      (payloadEvents d raw).2 = payloadSize d raw := by
    unfold payloadEvents payloadElements payloadSize
    cases decodeKombuBody d raw with
    | some body =>
        dsimp only
        cases body.asArray with
        | some arr => simp [List.filterMap_map, Function.comp_def, elementEvent]
        | none => cases h : classifyEvent d.serde body <;> simp [elementEvent, h]
    | none =>
        dsimp only
        cases (d.serde.fromStr raw).bind Json.asArray with
        | some items => simp [List.filterMap_map, Function.comp_def, elementEvent]
        | none => cases h : parseRawMessage d raw <;> simp [elementEvent, h]
  -- an element without an event changes nothing
  have hroute : ∀ (es : List Element) (c : Consumer),
      es.foldl (fun c e => c.routeParsed (elementEvent d raw e)) c =
        (es.filterMap (elementEvent d raw)).foldl Consumer.route c := by
    intro es
    induction es with
    | nil => exact fun c => rfl
    | cons e es ih =>
        intro c
        rw [List.foldl_cons, ih]
        cases he : elementEvent d raw e <;> simp [Consumer.routeParsed, he]
  have hfst : (processPubsub d raw c).1 = (payloadEvents d raw).1.foldl Consumer.route c := by
    rw [processPubsub_fst, hroute, hevents.1]
  refine Prod.ext hfst ?_
  rw [processPubsub_snd, hfst, ← hevents.2]
  rfl

end

end Feloxi.Broker
