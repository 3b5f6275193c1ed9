import Feloxi.Lib.Runs
import Feloxi.Pipeline.Ingest

/-!
# Feloxi.Pipeline.Tally

The pipeline of one retry kind as an account: the three counters of the events that
came in, were stored or were given up, the batches that wait, and what the trace says
of batches buffered and replayed. An ingest and a drain pass do to the account what
`Tally.ingest` and `Tally.drain` do; nothing else of the world matters to them.
-/

namespace Feloxi.Pipeline

/-! ### The account -/

structure Tally where
  received : Nat
  inserted : Nat
  dropped : Nat
  /-- The waiting batches, oldest first. -/
  queue : List String
  trace : List BatchEvent

/-- The account of a retry kind. -/
def World.tally (kind : String) (w : World) : Tally where
  received := w.counters "events_received"
  inserted := w.counters "events_inserted"
  dropped := w.counters "events_dropped"
  queue := w.replayOrder kind
  trace := w.trace

/-- What becomes of an ingested batch. -/
inductive IngestOutcome where
  | inserted
  | buffered
  | dropped
  deriving Repr, DecidableEq

def ingestOutcome (fails : InsertPoint → Bool) : IngestOutcome :=
  if !fails .first || !fails .second then .inserted
  else if fails .push then .dropped
  else .buffered

/-- The batches a push trims off a queue. -/
def trimmed (queue : List String) : List String :=
  queue.take (queue.length + 1 - World.maxRetryQueueLen)

namespace Tally

/-- A batch of rows comes in; `json` is its text. -/
def ingest (t : Tally) (kind json : String) (count : Nat) : IngestOutcome → Tally
  | .inserted => { t with
      received := t.received + count
      inserted := t.inserted + count }
  | .buffered => { t with
      received := t.received + count
      queue := (t.queue ++ [json]).drop (t.queue.length + 1 - World.maxRetryQueueLen)
      trace := t.trace ++ [.buffered kind json] }
  | .dropped => { t with
      received := t.received + count
      dropped := t.dropped + count }

/-- A batch that was counted as received before it was stored. -/
theorem ingest_of_received (t : Tally) (kind json : String) (count : Nat)
    (outcome : IngestOutcome) :
    { ({ t with received := t.received + count }).ingest kind json count outcome with
      received := t.received + count } = t.ingest kind json count outcome := by
  cases outcome <;> simp only [ingest]

section Drain

variable {Row : Type} (r : RetryRow Row)

/-- The batches that decode. -/
def good (jsons : List String) : List String := jsons.filter fun j => (r.codec.decode j).isSome

/-- The batches that do not. -/
def bad (jsons : List String) : List String := jsons.filter fun j => (r.codec.decode j).isNone

/-- The rows of the batches that decode. -/
def rowsOf (jsons : List String) : List Row := jsons.flatMap fun j => (r.codec.decode j).getD []

/-- The rows batches count for. -/
def weight (jsons : List String) : Nat := (jsons.map r.codec.size).sum

@[simp] theorem weight_nil : weight r [] = 0 := rfl

@[simp] theorem weight_append (jsons jsons' : List String) :
    weight r (jsons ++ jsons') = weight r jsons + weight r jsons' := by
  rw [weight, List.map_append, List.sum_append, weight, weight]

@[simp] theorem weight_cons (json : String) (jsons : List String) :
    weight r (json :: jsons) = r.codec.size json + weight r jsons := by
  rw [weight, List.map_cons, List.sum_cons, weight]

theorem weight_good_add_bad (jsons : List String) :
    weight r (good r jsons) + weight r (bad r jsons) = weight r jsons := by
  induction jsons with
  | nil => rfl
  | cons json rest ih =>
      rw [weight_cons, ← ih, good, bad, good, bad]
      cases hdecode : r.codec.decode json with
      | none => simp only [List.filter_cons, hdecode, Option.isSome_none, Option.isNone_none,
          if_true, Bool.false_eq_true, if_false, weight_cons]; omega
      | some rows => simp only [List.filter_cons, hdecode, Option.isSome_some, Option.isNone_some,
          if_true, Bool.false_eq_true, if_false, weight_cons]; omega

/-- Decoded rows are what their batches count for. -/
theorem length_rowsOf (jsons : List String) :
    (rowsOf r jsons).length = weight r (good r jsons) := by
  induction jsons with
  | nil => rfl
  | cons json rest ih =>
      rw [rowsOf, List.flatMap_cons, List.length_append, ← rowsOf, ih, good, good, List.filter_cons]
      cases hdecode : r.codec.decode json with
      | none => simp
      | some rows => simp [weight_cons, r.codec.size_of_decode hdecode]

/-- A drain pass. -/
def drain (t : Tally) (fails : DrainPoint → Bool) : Tally :=
  if fails .pop then t
  else
    let popped := t.queue.take retryDrainPerCycle
    let left := t.queue.drop retryDrainPerCycle
    let t := { t with
      dropped := t.dropped + weight r (bad r popped)
      queue := left }
    if (rowsOf r popped).isEmpty then t
    else if !fails .insert then { t with
      inserted := t.inserted + weight r (good r popped)
      trace := t.trace ++ [.replayed r.kind (good r popped)] }
    else if fails .requeue then t
    else { t with queue := left ++ good r popped }

end Drain

end Tally

/-! ### The pipeline keeps the account -/

section Refines

variable {kind : String} {w w' : World}

@[simp] theorem World.tally_incr_received (n : Nat) :
    (w.incr "events_received" n).tally kind =
      { w.tally kind with received := (w.tally kind).received + n } := by
  simp [tally, incr, replayOrder]

@[simp] theorem World.tally_incr_inserted (n : Nat) :
    (w.incr "events_inserted" n).tally kind =
      { w.tally kind with inserted := (w.tally kind).inserted + n } := by
  simp [tally, incr, replayOrder]

@[simp] theorem World.tally_incr_dropped (n : Nat) :
    (w.incr "events_dropped" n).tally kind =
      { w.tally kind with dropped := (w.tally kind).dropped + n } := by
  simp [tally, incr, replayOrder]

@[simp] theorem World.tally_incr_retries (n : Nat) :
    (w.incr "insert_retries" n).tally kind = w.tally kind := by
  simp [tally, incr, replayOrder]

@[simp] theorem World.tally_emit (e : BatchEvent) :
    (w.emit e).tally kind =
      { w.tally kind with trace := (w.tally kind).trace ++ [e] } := rfl

theorem World.tally_pushRetryBatch (json : String) :
    (w.pushRetryBatch kind json).tally kind = { w.tally kind with
      queue := ((w.tally kind).queue ++ [json]).drop
        ((w.tally kind).queue.length + 1 - maxRetryQueueLen) } := by
  simp only [tally, replayOrder_pushRetryBatch]
  rfl

theorem World.tally_popRetryBatches (count : Nat) :
    (w.popRetryBatches kind count).2.tally kind = { w.tally kind with
      queue := (w.tally kind).queue.drop count } := by
  simp only [tally, replayOrder_popRetryBatches]
  rfl

theorem World.tally_requeueRetryBatches (batches : List String) :
    (w.requeueRetryBatches kind batches).tally kind = { w.tally kind with
      queue := (w.tally kind).queue ++ batches } := by
  simp only [tally, replayOrder_requeueRetryBatches]
  unfold requeueRetryBatches
  split <;> rfl

variable {Row : Type} {r : RetryRow Row}

/-- Writing rows is nothing to the account. -/
def RetryRow.OffAccount (r : RetryRow Row) : Prop :=
  ∀ rows w, (r.insertBatch rows w).tally r.kind = w.tally r.kind

theorem taskEvents_offAccount (s : Services) : (taskEvents s).OffAccount := fun _ _ => rfl

theorem tally_insertRows (hr : r.OffAccount) (fails : Bool) (rows : List Row) (w : World) :
    (insertRows r fails rows w).2.tally r.kind = w.tally r.kind := by
  unfold insertRows
  split
  · rfl
  · split
    · rfl
    · exact hr rows w

theorem insertRows_fst {rows : List Row} (hrows : rows ≠ []) (fails : Bool) (w : World) :
    (insertRows r fails rows w).1 = !fails := by
  unfold insertRows
  rw [if_neg (by simpa using hrows)]
  cases fails <;> rfl

/-- The rows of a received batch are stored, buffered or dropped. -/
theorem tally_insertWithRetry (hr : r.OffAccount) (fails : InsertPoint → Bool) {rows : List Row}
    (hrows : rows ≠ []) (w : World) :
    (if (insertWithRetry r fails rows w).1 then
        (insertWithRetry r fails rows w).2.incr "events_inserted" rows.length
      else (insertWithRetry r fails rows w).2).tally r.kind =
      { (w.tally r.kind).ingest r.kind (r.codec.encode rows) rows.length (ingestOutcome fails) with
        received := (w.tally r.kind).received } := by
  unfold insertWithRetry ingestOutcome
  simp only [insertRows_fst hrows]
  cases hfirst : fails .first with
  | false =>
      simp only [Bool.not_false, if_true, Bool.true_or, World.tally_incr_inserted,
        tally_insertRows hr, Tally.ingest]
  | true =>
      simp only [Bool.not_true, Bool.false_eq_true, if_false, Bool.false_or]
      cases hsecond : fails .second with
      | false =>
          simp only [Bool.not_false, if_true, World.tally_incr_inserted, tally_insertRows hr,
            World.tally_incr_retries, Tally.ingest]
      | true =>
          simp only [Bool.not_true, Bool.false_eq_true, if_false, bufferForRetry]
          cases hpush : fails .push with
          | true =>
              simp only [if_true, World.tally_incr_dropped, tally_insertRows hr,
                World.tally_incr_retries, Tally.ingest]
          | false =>
              simp only [Bool.false_eq_true, if_false, World.tally_emit,
                World.tally_pushRetryBatch, World.tally_incr_retries, tally_insertRows hr,
                Tally.ingest]

/-- The popped batches, one after the other. -/
theorem foldl_drainBatch (jsons goodJsons : List String) (rows : List Row) (w : World) :
    (jsons.foldl (drainBatch r) (goodJsons, rows, w)).1 = goodJsons ++ Tally.good r jsons ∧
      (jsons.foldl (drainBatch r) (goodJsons, rows, w)).2.1 = rows ++ Tally.rowsOf r jsons ∧
      (jsons.foldl (drainBatch r) (goodJsons, rows, w)).2.2.tally r.kind =
        { w.tally r.kind with
          dropped := (w.tally r.kind).dropped + Tally.weight r (Tally.bad r jsons) } := by
  induction jsons generalizing goodJsons rows w with
  | nil => simp [Tally.good, Tally.rowsOf, Tally.bad]
  | cons json rest ih =>
      rw [List.foldl_cons, drainBatch]
      cases hdecode : r.codec.decode json with
      | none =>
          obtain ⟨hgood, hrows, htally⟩ := ih goodJsons rows (w.incr "events_dropped" (r.codec.size json))
          refine ⟨?_, ?_, ?_⟩
          · rw [hgood]
            simp [Tally.good, hdecode]
          · rw [hrows]
            simp [Tally.rowsOf, hdecode]
          · rw [htally]
            simp [Tally.bad, hdecode, Nat.add_assoc]
      | some more =>
          obtain ⟨hgood, hrows, htally⟩ := ih (goodJsons ++ [json]) (rows ++ more) w
          refine ⟨?_, ?_, ?_⟩
          · rw [hgood]
            simp [Tally.good, hdecode]
          · rw [hrows]
            simp [Tally.rowsOf, hdecode]
          · rw [htally]
            simp [Tally.bad, hdecode]

/-- **A drain pass does to the account what `Tally.drain` does.** -/
theorem tally_drainRetryQueue (hr : r.OffAccount) (fails : DrainPoint → Bool) (w : World) :
    (drainRetryQueue r fails w).tally r.kind = (w.tally r.kind).drain r fails := by
  unfold Tally.drain
  by_cases hpop : fails .pop = true
  · rw [if_pos hpop, drainRetryQueue, if_pos hpop]
  · let popped := (w.tally r.kind).queue.take retryDrainPerCycle
    let left := (w.popRetryBatches r.kind retryDrainPerCycle).2
    let drained := popped.foldl (drainBatch r) ([], [], left)
    let stored := insertRows r (fails .insert) drained.2.1 drained.2.2
    have hbody : drainRetryQueue r fails w = if popped.isEmpty then left
        else if drained.2.1.isEmpty then drained.2.2
        else if stored.1 then (stored.2.incr "events_inserted" drained.2.1.length).emit
          (.replayed r.kind drained.1)
        else if fails .requeue then stored.2
        else stored.2.requeueRetryBatches r.kind drained.1 := if_neg hpop
    have hleft : left.tally r.kind = { w.tally r.kind with
        queue := (w.tally r.kind).queue.drop retryDrainPerCycle } := World.tally_popRetryBatches _
    obtain ⟨hgood, hrows, hdrained⟩ := foldl_drainBatch (r := r) popped [] [] left
    rw [List.nil_append] at hgood hrows
    rw [hleft] at hdrained
    have hstored : stored.2.tally r.kind = drained.2.2.tally r.kind := tally_insertRows hr _ _ _
    rw [if_neg hpop, hbody]
    show _ = if (Tally.rowsOf r popped).isEmpty then _ else _
    by_cases hempty : popped.isEmpty = true
    · have hnil : popped = [] := List.isEmpty_iff.1 hempty
      have hbad : Tally.weight r (Tally.bad r popped) = 0 := by
        rw [hnil]
        rfl
      rw [if_pos hempty, if_pos (by rw [hnil]; rfl), hleft, hbad]
      rfl
    · rw [if_neg hempty]
      by_cases hnone : (Tally.rowsOf r popped).isEmpty = true
      · rw [if_pos hnone, if_pos (by rw [hrows]; exact hnone), hdrained]
      · have hne : drained.2.1 ≠ [] := by
          rw [hrows]
          exact fun h => hnone (List.isEmpty_iff.2 h)
        rw [if_neg hnone, if_neg (by simpa using hne), insertRows_fst hne]
        cases hinsert : fails .insert with
        | false =>
            simp only [Bool.not_false, if_true, World.tally_emit, World.tally_incr_inserted, hstored]
            rw [hdrained, hgood, hrows, Tally.length_rowsOf]
        | true =>
            simp only [Bool.not_true, Bool.false_eq_true, if_false]
            cases hrequeue : fails .requeue with
            | true => simp only [if_true, hstored]; rw [hdrained]
            | false =>
                simp only [Bool.false_eq_true, if_false, World.tally_requeueRetryBatches, hstored]
                rw [hdrained, hgood]

/-- The names are filled and cached off the account. -/
theorem tally_backfillTaskNames (env : TaskEnv) (tenantId : Uuid) (events : List RawTaskEvent)
    (w : World) : (backfillTaskNames env tenantId events w).2.tally kind = w.tally kind := by
  simp only [backfillTaskNames]
  split
  · rfl
  · rfl

theorem tally_foldl_send {ι : Type*} (f : ι → TenantEvent) (items : List ι) (w : World) :
    (items.foldl (fun w i => w.send (f i)) w).tally kind = w.tally kind := by
  refine Runs.foldl_frame (World.tally kind) (fun v i _ => ?_) w
  rfl

/-- The events a batch is stored as. -/
abbrev ingestedEvents (env : TaskEnv) (tenantId : Uuid) (events : List RawTaskEvent) (w : World) :
    List RawTaskEvent :=
  (backfillTaskNames env tenantId events (w.incr "events_received" events.length)).1

@[simp] theorem length_ingestedEvents (env : TaskEnv) (tenantId : Uuid)
    (events : List RawTaskEvent) (w : World) :
    (ingestedEvents env tenantId events w).length = events.length := List.length_map ..

theorem taskRows_ingestedEvents_ne_nil (env : TaskEnv) (tenantId sourceId : Uuid)
    (brokerType : String) {events : List RawTaskEvent} (hevents : events ≠ []) {w : World} :
    taskRows env tenantId sourceId brokerType (ingestedEvents env tenantId events w) ≠ [] := by
  intro hnil
  have hlen := congrArg List.length hnil
  rw [length_taskRows, length_ingestedEvents, List.length_nil] at hlen
  exact hevents (List.eq_nil_of_length_eq_zero hlen)

/-- **An ingest does to the account what `Tally.ingest` does.** -/
theorem tally_ingestRawTaskEvents (s : Services) (env : TaskEnv) (tenantId sourceId : Uuid)
    (brokerType : String) {events : List RawTaskEvent} (hevents : events ≠ []) (w : World) :
    (ingestRawTaskEvents s env tenantId sourceId brokerType events w).tally (taskEvents s).kind =
      (w.tally (taskEvents s).kind).ingest (taskEvents s).kind
        (s.taskRows.encode (taskRows env tenantId sourceId brokerType
          (ingestedEvents env tenantId events w)))
        events.length (ingestOutcome fun pt => env.fails (.insert pt)) := by
  unfold ingestRawTaskEvents
  rw [if_neg (by simpa using hevents)]
  have hstored := tally_insertWithRetry (taskEvents_offAccount s)
    (fun pt => env.fails (.insert pt))
    (taskRows_ingestedEvents_ne_nil env tenantId sourceId brokerType hevents (w := w))
    (backfillTaskNames env tenantId events (w.incr "events_received" events.length)).2
  rw [length_taskRows, length_ingestedEvents, tally_backfillTaskNames,
    World.tally_incr_received] at hstored
  simp only [tally_foldl_send]
  exact hstored.trans (Tally.ingest_of_received ..)

end Refines

end Feloxi.Pipeline
