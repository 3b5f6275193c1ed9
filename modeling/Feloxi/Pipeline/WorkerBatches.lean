import Feloxi.Lib.Batches
import Feloxi.Pipeline.Conservation

/-!
# Feloxi.Pipeline.WorkerBatches

The Redis keys of the workers after a sequence of worker events that came in batches.
Within a batch the newest event of a worker counts, the first one on a tie; across
batches the last one applied does. For each worker this is the game of `Feloxi.Lib.Batches`,
played on its own events.
-/

namespace Feloxi.Pipeline

open Batches (newest lastNewest keep Unbeaten)

/-- The events of a worker. -/
def eventsOf (workerId : String) (events : List RawWorkerEvent) : List RawWorkerEvent :=
  events.filter fun e => e.workerId == workerId

/-- How a batch compares events. -/
def newerEvent (e kept : RawWorkerEvent) : Bool := e.timestamp.gt kept.timestamp

/-- The keys an event leaves for its worker. -/
def written (s : Services) (e : RawWorkerEvent) : WorkerKeys :=
  if e.eventType = "worker-offline" then ⟨none, false, false⟩
  else ⟨some (s.stateText (workerStateOf e)), true, true⟩

/-! ### The latest events of a batch -/

theorem eventsOf_concat (workerId : String) (events : List RawWorkerEvent) (e : RawWorkerEvent) :
    eventsOf workerId (events ++ [e]) =
      eventsOf workerId events ++ if e.workerId = workerId then [e] else [] := by
  rw [eventsOf, List.filter_append, eventsOf]
  by_cases hworker : e.workerId = workerId
  · simp [hworker]
  · simp [hworker]

theorem latestPerWorker_concat (events : List RawWorkerEvent) (e : RawWorkerEvent) :
    latestPerWorker (events ++ [e]) = keepLatest (latestPerWorker events) e := by
  rw [latestPerWorker, List.foldl_append]
  rfl

theorem lookup_keepLatest (latest : List (String × RawWorkerEvent)) (e : RawWorkerEvent)
    (workerId : String) :
    (keepLatest latest e).lookup workerId =
      if e.workerId = workerId then keep newerEvent (latest.lookup workerId) e
      else latest.lookup workerId := by
  unfold keepLatest
  by_cases hworker : e.workerId = workerId
  · subst hworker
    rw [if_pos rfl]
    cases hkept : latest.lookup e.workerId with
    | none => exact Assoc.lookup_put_self ..
    | some existing =>
        by_cases hnewer : e.timestamp.gt existing.timestamp = true
        · simp only [keep, newerEvent, hnewer, if_true]
          exact Assoc.lookup_put_self e.workerId e latest
        · simp only [keep, newerEvent, hnewer, Bool.false_eq_true, if_false]
          exact hkept
  · rw [if_neg hworker]
    split
    · split
      · exact Assoc.lookup_put_of_ne (Ne.symm hworker) ..
      · rfl
    · exact Assoc.lookup_put_of_ne (Ne.symm hworker) ..

/-- The event kept for a worker is the newest of its events. -/
theorem lookup_latestPerWorker (events : List RawWorkerEvent) (workerId : String) :
    (latestPerWorker events).lookup workerId = newest newerEvent (eventsOf workerId events) := by
  induction events using List.reverseRecOn with
  | nil => rfl
  | append_singleton events e ih =>
      rw [latestPerWorker_concat, lookup_keepLatest, ih, eventsOf_concat]
      by_cases hworker : e.workerId = workerId
      · rw [if_pos hworker, if_pos hworker, Batches.newest_concat]
      · rw [if_neg hworker, if_neg hworker, List.append_nil]

/-- The map of the latest events has one entry for each worker, under its name. -/
theorem latestPerWorker_keyed (events : List RawWorkerEvent) :
    (∀ entry ∈ latestPerWorker events, entry.1 = entry.2.workerId) ∧
      ((latestPerWorker events).map Prod.fst).Nodup := by
  induction events using List.reverseRecOn with
  | nil => exact ⟨fun _ hmem => absurd hmem List.not_mem_nil, List.nodup_nil⟩
  | append_singleton events e ih =>
      rw [latestPerWorker_concat]
      obtain ⟨hkeyed, hnodup⟩ := ih
      have hput : (∀ entry ∈ Assoc.put e.workerId e (latestPerWorker events),
          entry.1 = entry.2.workerId) ∧
          ((Assoc.put e.workerId e (latestPerWorker events)).map Prod.fst).Nodup := by
        refine ⟨?_, Assoc.nodup_put hnodup⟩
        intro entry hentry
        rcases List.mem_append.1 hentry with hold | hnew
        · exact hkeyed entry (List.mem_filter.1 hold).1
        · rw [List.mem_singleton.1 hnew]
      unfold keepLatest
      split
      · split
        · exact hput
        · exact ⟨hkeyed, hnodup⟩
      · exact hput

/-! ### One batch -/

/-- Redis takes the worker updates of a batch. -/
def WorkerEnv.Quiet (env : WorkerEnv) : Prop :=
  ∀ workerId command, env.fails (.update workerId command) = false

theorem workers_applyWorkerEvent (s : Services) {env : WorkerEnv} (henv : env.Quiet)
    (tenantId : Uuid) (w : World) (e : RawWorkerEvent) (workerId : String) :
    (applyWorkerEvent s env tenantId w e).workers tenantId workerId =
      if e.workerId = workerId then written s e else w.workers tenantId workerId := by
  have hquiet : ∀ command, env.fails (.update e.workerId command) = false := henv e.workerId
  by_cases hworker : e.workerId = workerId
  · subst hworker
    rw [if_pos rfl]
    unfold applyWorkerEvent written
    split
    · simp [World.setWorkerOffline, World.commands, hquiet]
    · simp [World.setWorkerState, World.commands, hquiet]
  · rw [if_neg hworker]
    have hother : ∀ (v : World) f, (v.updateWorker tenantId e.workerId f).workers tenantId
        workerId = v.workers tenantId workerId :=
      fun v f => v.updateWorker_of_ne (fun h => hworker h.2.symm) f
    unfold applyWorkerEvent
    split
    · simp [World.setWorkerOffline, World.commands, hquiet, hother]
    · simp [World.setWorkerState, World.commands, hquiet, hother]

/-- Storing the events of a batch leaves the worker keys alone. -/
theorem workers_storeWorkerEvents (s : Services) (env : WorkerEnv) (tenantId sourceId : Uuid)
    (transitions latest : List RawWorkerEvent) (w : World) :
    (storeWorkerEvents s env tenantId sourceId transitions latest w).workers = w.workers := by
  have hsampled : (eventsToStore env tenantId transitions latest w).2.workers = w.workers := by
    unfold eventsToStore
    refine Runs.foldl_frame (fun acc : List RawWorkerEvent × World => acc.2.workers) ?_
      (transitions, w)
    intro acc e _
    dsimp only
    split
    · unfold World.shouldSampleHeartbeat
      split <;> rfl
    · rfl
  have hinsert := insertWithRetry_frame (r := workerEvents s) World.workers (fun _ _ => rfl)
    (fun _ _ _ => rfl) (fun _ _ => rfl)
  unfold storeWorkerEvents
  dsimp only
  split
  · exact hsampled
  · split
    · exact (hinsert _ _ _).trans hsampled
    · exact (hinsert _ _ _).trans hsampled

/-- **A batch** leaves for each worker the keys its newest event writes. -/
theorem workers_ingestRawWorkerEvents (s : Services) {env : WorkerEnv} (henv : env.Quiet)
    (tenantId sourceId : Uuid) (events : List RawWorkerEvent) (w : World) (workerId : String) :
    (ingestRawWorkerEvents s env tenantId sourceId events w).workers tenantId workerId =
      ((newest newerEvent (eventsOf workerId events)).map (written s)).getD
        (w.workers tenantId workerId) := by
  obtain ⟨hkeyed, hnodup⟩ := latestPerWorker_keyed events
  let latest := env.order ((latestPerWorker events).map Prod.snd)
  have hperm : latest.Perm ((latestPerWorker events).map Prod.snd) := env.order_perm _
  have hkeys : (latest.map RawWorkerEvent.workerId).Nodup := by
    rw [(hperm.map _).nodup_iff, List.map_map]
    rwa [List.map_congr_left hkeyed] at hnodup
  have hstore := workers_storeWorkerEvents s env tenantId sourceId (events.filter isTransition)
    latest w
  have hsend : ∀ (items : List RawWorkerEvent) (v : World),
      (items.foldl (fun w e => w.send (workerUpdate tenantId e)) v).workers = v.workers :=
    fun _ v => Runs.foldl_frame World.workers (f := fun w e => w.send (workerUpdate tenantId e))
      (fun _ _ _ => rfl) v
  have happly := fun v e => workers_applyWorkerEvent s henv tenantId v e workerId
  unfold ingestRawWorkerEvents
  by_cases hempty : events.isEmpty = true
  · rw [if_pos hempty, List.isEmpty_iff.1 hempty]
    rfl
  · rw [if_neg hempty]
    dsimp only
    rw [hsend]
    show (latest.foldl (applyWorkerEvent s env tenantId) (storeWorkerEvents s env tenantId sourceId
      (events.filter isTransition) latest w)).workers tenantId workerId = _
    cases hnewest : newest newerEvent (eventsOf workerId events) with
    | none =>
        -- no event of the batch is about this worker
        have hother : ∀ e ∈ latest, e.workerId ≠ workerId := by
          intro e he heq
          obtain ⟨entry, hentry, rfl⟩ := List.mem_map.1 (hperm.subset he)
          rw [← lookup_latestPerWorker, List.lookup_eq_none_iff] at hnewest
          have hne := hnewest entry hentry
          rw [hkeyed entry hentry, heq, bne_self_eq_false] at hne
          cases hne
        rw [← hstore]
        exact Runs.foldl_frame (fun v : World => v.workers tenantId workerId)
          (fun v e he => (happly v e).trans (if_neg (hother e he))) _
    | some e =>
        rw [← lookup_latestPerWorker] at hnewest
        obtain ⟨before, after, hsplit, -⟩ := List.lookup_eq_some_iff.1 hnewest
        have hentry : (workerId, e) ∈ latestPerWorker events := by
          rw [hsplit]
          exact List.mem_append_right _ List.mem_cons_self
        have hworker : workerId = e.workerId := hkeyed _ hentry
        have hmem : e ∈ latest := hperm.symm.subset (List.mem_map.2 ⟨_, hentry, rfl⟩)
        obtain ⟨v, -, hv⟩ := Runs.foldl_at_key (fun v : World => v.workers tenantId workerId)
          hkeys hmem (fun v e' _ hne => (happly v e').trans (if_neg fun h => hne (h.trans hworker)))
          (storeWorkerEvents s env tenantId sourceId (events.filter isTransition) latest w)
        exact hv.trans ((happly v e).trans (if_pos hworker.symm))

/-! ### All batches -/

/-- A sequence of batches, each with what becomes of its calls. -/
def ingestBatches (s : Services) (tenantId sourceId : Uuid)
    (batches : List (WorkerEnv × List RawWorkerEvent)) (w : World) : World :=
  batches.foldl (fun w b => ingestRawWorkerEvents s b.1 tenantId sourceId b.2 w) w

/-- **A run of batches** leaves for each worker the keys of the event that `lastNewest`
keeps of its events. -/
theorem workers_ingestBatches (s : Services) (tenantId sourceId : Uuid)
    {batches : List (WorkerEnv × List RawWorkerEvent)} (hquiet : ∀ b ∈ batches, b.1.Quiet)
    (w : World) (workerId : String) :
    (ingestBatches s tenantId sourceId batches w).workers tenantId workerId =
      ((lastNewest newerEvent (batches.map fun b => eventsOf workerId b.2)).map
        (written s)).getD (w.workers tenantId workerId) := by
  induction batches using List.reverseRecOn with
  | nil => rfl
  | append_singleton batches b ih =>
      have hb := workers_ingestRawWorkerEvents s (hquiet b (by simp)) tenantId sourceId b.2
        (ingestBatches s tenantId sourceId batches w) workerId
      rw [ingestBatches, List.foldl_append, List.map_append, List.map_singleton,
        Batches.lastNewest_concat, ← ingestBatches]
      refine hb.trans ?_
      rw [ih fun b' hb' => hquiet b' (List.mem_append_left _ hb')]
      cases newest newerEvent (eventsOf workerId b.2) with
      | none => rfl
      | some e => rfl

/-- How the latest event is told: by its timestamp, and by arrival on a tie. -/
def laterEvent (e kept : RawWorkerEvent) : Bool := !kept.timestamp.gt e.timestamp

/-- However the events are cut into batches, each worker is left with the keys that its
latest event writes. -/
def BatchingIrrelevant (s : Services) (tenantId sourceId : Uuid) (events : List RawWorkerEvent)
    (w : World) : Prop :=
  ∀ batches : List (WorkerEnv × List RawWorkerEvent), (∀ b ∈ batches, b.1.Quiet) →
    batches.flatMap Prod.snd = events → ∀ workerId,
      (ingestBatches s tenantId sourceId batches w).workers tenantId workerId =
        ((newest laterEvent (eventsOf workerId events)).map (written s)).getD
          (w.workers tenantId workerId)

/-- An event that no later event of its worker exceeds writes what the worker's last event
writes. -/
def UnbeatenAgree (s : Services) (events : List RawWorkerEvent) : Prop :=
  ∀ workerId e, Unbeaten newerEvent (eventsOf workerId events) e →
    (eventsOf workerId events).getLast?.map (written s) = some (written s e)

/-- Nothing fails, and the map is walked in order. -/
def quietWorkerEnv : WorkerEnv where
  fails _ := false
  now := 0
  seen := "1970-01-01T00:00:00Z"
  eventId _ := 1#128
  order events := events
  order_perm events := .refl events

/-- Timestamps that increase for every worker are enough. -/
theorem unbeatenAgree_of_increasing (s : Services) {events : List RawWorkerEvent}
    (hincreasing : ∀ workerId, (eventsOf workerId events).Pairwise fun e e' =>
      newerEvent e' e = true) : UnbeatenAgree s events := by
  intro workerId e ⟨before, after, hsplit, hafter⟩
  have hpairs := hincreasing workerId
  rw [hsplit] at hpairs ⊢
  cases after with
  | nil => rw [List.getLast?_concat]; rfl
  | cons y rest =>
      have hnewer := List.rel_of_pairwise_cons (List.pairwise_append.1 hpairs).2.1
        (List.mem_cons_self (a := y))
      rw [hafter y List.mem_cons_self] at hnewer
      cases hnewer

/-! ### A tie -/

/-- A worker event with nothing but its type and time. -/
def sampleWorkerEvent (eventType : String) (timestamp : F64) : RawWorkerEvent where
  workerId := "celery@w1"
  hostname := "celery@w1"
  eventType := eventType
  timestamp := timestamp
  activeTasks := none
  processed := none
  loadAvg := none
  cpuPercent := none
  memoryMb := none
  poolSize := none
  poolType := none
  swIdent := none
  swVer := none

/-- The last heartbeat of a worker, and its farewell at the same time. -/
def farewell : List RawWorkerEvent :=
  [sampleWorkerEvent "worker-heartbeat" (.fin 5), sampleWorkerEvent "worker-offline" (.fin 5)]

end Feloxi.Pipeline
