import Feloxi.Pipeline.Conservation

/-!
# Feloxi.Pipeline.LiveUpdates

An ingested event is shown twice: to the dashboard clients as an update, and in the
table as a row. A parsed event has no state, which the row derives from the event type
and the update leaves blank; the other fields agree.
-/

namespace Feloxi.Pipeline

/-! ### What is sent and what is stored -/

theorem sent_foldl_send {ι : Type*} (f : ι → TenantEvent) (items : List ι) (w : World) :
    (items.foldl (fun w i => w.send (f i)) w).sent = w.sent ++ items.map f := by
  induction items generalizing w with
  | nil => exact (List.append_nil _).symm
  | cons i rest ih =>
      rw [List.foldl_cons, ih, List.map_cons]
      exact List.append_assoc _ [f i] _

theorem sent_backfillTaskNames (env : TaskEnv) (tenantId : Uuid) (events : List RawTaskEvent)
    (w : World) : (backfillTaskNames env tenantId events w).2.sent = w.sent := by
  simp only [backfillTaskNames]
  split <;> rfl

/-- The clients are sent one update for each event, stored or not. -/
theorem sent_ingestRawTaskEvents (s : Services) (env : TaskEnv) (tenantId sourceId : Uuid)
    (brokerType : String) (events : List RawTaskEvent) (w : World) :
    (ingestRawTaskEvents s env tenantId sourceId brokerType events w).sent =
      w.sent ++ (ingestedEvents env tenantId events w).map (taskUpdate tenantId) := by
  unfold ingestRawTaskEvents
  by_cases hevents : events.isEmpty = true
  · rw [if_pos hevents, List.isEmpty_iff.1 hevents]
    exact (List.append_nil _).symm
  · rw [if_neg hevents]
    simp only [sent_foldl_send]
    have hstored := insertWithRetry_frame (r := taskEvents s) World.sent (fun _ _ => rfl)
      (fun _ _ _ => rfl) (fun _ _ => rfl) (fun pt => env.fails (.insert pt))
      (taskRows env tenantId sourceId brokerType (ingestedEvents env tenantId events w))
      (backfillTaskNames env tenantId events (w.incr "events_received" events.length)).2
    rw [sent_backfillTaskNames] at hstored
    congr 1
    split <;> exact hstored

theorem taskRows_insertWithRetry {s : Services} {fails : InsertPoint → Bool}
    (hinserted : ingestOutcome fails = .inserted) {rows : List TaskEventRow} (hrows : rows ≠ [])
    (w : World) :
    (insertWithRetry (taskEvents s) fails rows w).2.taskRows = w.taskRows ++ rows := by
  have hempty : rows.isEmpty = false := by simpa using hrows
  cases hfirst : fails .first with
  | false => simp [insertWithRetry, insertRows, hempty, hfirst, taskEvents]
  | true => cases hsecond : fails .second with
    | false => simp [insertWithRetry, insertRows, hempty, hfirst, hsecond, taskEvents, World.incr]
    | true =>
        rw [ingestOutcome, hfirst, hsecond] at hinserted
        cases hpush : fails .push <;> simp [hpush] at hinserted

/-- The table gets the rows of the batch if an insert goes through. -/
theorem taskRows_ingestRawTaskEvents (s : Services) {env : TaskEnv}
    (hinserted : (ingestOutcome fun pt => env.fails (.insert pt)) = .inserted)
    (tenantId sourceId : Uuid) (brokerType : String) (events : List RawTaskEvent) (w : World) :
    (ingestRawTaskEvents s env tenantId sourceId brokerType events w).taskRows =
      w.taskRows ++ taskRows env tenantId sourceId brokerType
        (ingestedEvents env tenantId events w) := by
  unfold ingestRawTaskEvents
  by_cases hevents : events.isEmpty = true
  · rw [if_pos hevents, List.isEmpty_iff.1 hevents]
    exact (List.append_nil _).symm
  · rw [if_neg hevents]
    have hrows := taskRows_ingestedEvents_ne_nil env tenantId sourceId brokerType (w := w)
      (fun hnil => hevents (List.isEmpty_iff.2 hnil))
    have hsend : ∀ (items : List RawTaskEvent) (v : World),
        (items.foldl (fun w e => w.send (taskUpdate tenantId e)) v).taskRows = v.taskRows :=
      fun _ v => Runs.foldl_frame World.taskRows (f := fun w e => w.send (taskUpdate tenantId e))
        (fun _ _ _ => rfl) v
    have hbackfill : (backfillTaskNames env tenantId events
        (w.incr "events_received" events.length)).2.taskRows = w.taskRows := by
      simp only [backfillTaskNames]
      split <;> rfl
    have hstored := taskRows_insertWithRetry (s := s) hinserted hrows
      (backfillTaskNames env tenantId events (w.incr "events_received" events.length)).2
    rw [hbackfill] at hstored
    simp only [hsend]
    split <;> exact hstored

/-! ### The two views -/

/-- What an update and a row both show of an event. -/
structure Shown where
  taskId : String
  taskName : String
  state : String
  queue : String
  workerId : String
  deriving Repr, DecidableEq

def EventPayload.shown : EventPayload → Option Shown
  | .taskUpdate taskId taskName state queue workerId _ _ =>
    some ⟨taskId, taskName, state, queue, workerId⟩
  | .workerUpdate .. => none

def TaskEventRow.shown (row : TaskEventRow) : Shown :=
  ⟨row.taskId, row.taskName, row.state, row.queue, row.workerId⟩

/-- Filling in the name leaves the state. -/
@[simp] theorem RawTaskEvent.withName_state (known : List (String × String)) (e : RawTaskEvent) :
    (e.withName known).state = e.state := by
  unfold withName
  split
  · split <;> rfl
  · rfl

/-- An event without a state is shown without one, and stored with one. -/
theorem shown_of_state_none {e : RawTaskEvent} (h : e.state = none) (eventId : Uuid) (now : Int)
    (tenantId sourceId : Uuid) (brokerType : String) :
    (taskUpdate tenantId e).payload.shown =
      some { (normalizeTaskEvent eventId now tenantId sourceId brokerType e).shown with
        state := "" } ∧
      (normalizeTaskEvent eventId now tenantId sourceId brokerType e).shown.state ≠ "" := by
  have hrow : (normalizeTaskEvent eventId now tenantId sourceId brokerType e).shown.state =
      eventTypeToState e.eventType := by
    show e.state.getD _ = _
    rw [h, Option.getD_none]
  refine ⟨?_, hrow ▸ eventTypeToState_ne_empty _⟩
  show some (Shown.mk _ _ (e.state.getD "") _ _) = _
  rw [h]
  rfl

/-- A `task-received` event as Celery sends it. -/
def receivedBody : Json :=
  .ofEntries [("uuid", .str "t1"), ("name", .str "tasks.add"), ("hostname", .str "celery@w1"),
    ("timestamp", .int 1700000000)]

/-- The event parsed from it. -/
def receivedEvents : List RawTaskEvent :=
  (parseCeleryEvent sampleServices.serde "task-received" receivedBody).toList

/-- Nothing fails. -/
def quietEnv : TaskEnv := { sampleEnv with fails := fun _ => false }

theorem receivedEvents_parsed : ∀ e ∈ receivedEvents, ∃ eventType body,
    parseCeleryEvent sampleServices.serde eventType body = some e := by
  intro e he
  exact ⟨"task-received", receivedBody, Option.mem_toList.1 he⟩

end Feloxi.Pipeline
