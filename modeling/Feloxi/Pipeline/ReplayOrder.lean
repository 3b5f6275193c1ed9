import Feloxi.Pipeline.Conservation

/-!
# Feloxi.Pipeline.ReplayOrder

The order in which buffered batches are replayed. A requeue pushes to the end of the
list that pushes go to, so what is put back is replayed after everything that waits.
The order survives when nothing waits by then, or when what waits and what is put back
cannot be told apart.

The runs here are those of the queue alone: a push may come between the pop and the
requeue of one drain pass.
-/

namespace Feloxi.Pipeline

/-! ### Pop and requeue -/

/-- **A failed replay keeps the replay order** if and only if it popped all that waits, or
the queue is one block over and over and whole blocks were popped. -/
theorem replayOrder_requeue_iff (w : World) (kind : String) (n : Nat) :
    ((w.popRetryBatches kind n).2.requeueRetryBatches kind
        (w.popRetryBatches kind n).1).replayOrder kind = w.replayOrder kind ↔
      (w.replayOrder kind).length ≤ n ∨ RedisList.Periodic n (w.replayOrder kind) := by
  rw [World.replayOrder_requeueRetryBatches, World.replayOrder_popRetryBatches,
    World.popRetryBatches_fst]
  exact RedisList.drop_append_take_eq_self_iff n _

/-! ### Runs of the queue -/

/-- How a drain pass ends for the batches it popped. -/
inductive Settlement where
  | inserted
  | requeued
  | dropped
  deriving Repr, DecidableEq

/-- What happens to a retry queue. -/
inductive QueueStep where
  | push (json : String)
  | pop (count : Nat)
  | settle (how : Settlement)
  deriving Repr, DecidableEq

/-- A retry queue with the batches popped from it. -/
structure Flight where
  world : World
  /-- Popped and not yet settled. -/
  inFlight : List String
  /-- Inserted so far. -/
  replayed : List String

section Queue

variable {Row : Type} (r : RetryRow Row)

/-- Batches that do not decode are discarded when they are popped. -/
def queueStep (s : Flight) : QueueStep → Flight
  | .push json => { s with world := s.world.pushRetryBatch r.kind json }
  | .pop count => { s with
      world := (s.world.popRetryBatches r.kind count).2
      inFlight := s.inFlight ++ Tally.good r (s.world.popRetryBatches r.kind count).1 }
  | .settle .inserted => { s with inFlight := [], replayed := s.replayed ++ s.inFlight }
  | .settle .requeued => { s with
      world := s.world.requeueRetryBatches r.kind s.inFlight
      inFlight := [] }
  | .settle .dropped => { s with inFlight := [] }

/-- The batches pushed in a run. -/
def pushes (steps : List QueueStep) : List String :=
  steps.filterMap fun
    | .push json => some json
    | _ => none

/-! ### A drain pass is a run -/

/-- The steps of a drain pass. -/
def drainSteps (fails : DrainPoint → Bool) (w : World) : List QueueStep :=
  if fails .pop then []
  else
    [.pop retryDrainPerCycle, .settle (
      if (Tally.rowsOf r ((w.replayOrder r.kind).take retryDrainPerCycle)).isEmpty then .dropped
      else if !fails .insert then .inserted
      else if fails .requeue then .dropped
      else .requeued)]

/-- The batches of a kind the trace says were replayed. -/
def replaysOf (kind : String) (trace : List BatchEvent) : List String :=
  trace.flatMap fun
    | .replayed kind' jsons => if kind' = kind then jsons else []
    | .buffered .. => []

theorem replaysOf_replayed (kind : String) (trace : List BatchEvent) (jsons : List String) :
    replaysOf kind (trace ++ [.replayed kind jsons]) = replaysOf kind trace ++ jsons := by
  simp [replaysOf]

/-- A drain pass leaves the queue its steps leave, and replays what they replay. -/
theorem drainRetryQueue_eq_run (hr : r.OffAccount) (fails : DrainPoint → Bool) (w : World) :
    (Runs.run (queueStep r) ⟨w, [], []⟩ (drainSteps r fails w)).inFlight = [] ∧
      (drainRetryQueue r fails w).replayOrder r.kind =
        (Runs.run (queueStep r) ⟨w, [], []⟩ (drainSteps r fails w)).world.replayOrder r.kind ∧
      replaysOf r.kind (drainRetryQueue r fails w).trace = replaysOf r.kind w.trace ++
        (Runs.run (queueStep r) ⟨w, [], []⟩ (drainSteps r fails w)).replayed := by
  have htally := tally_drainRetryQueue hr fails w
  have hqueue : (drainRetryQueue r fails w).replayOrder r.kind =
      ((w.tally r.kind).drain r fails).queue := congrArg Tally.queue htally
  have htrace : (drainRetryQueue r fails w).trace =
      ((w.tally r.kind).drain r fails).trace := congrArg Tally.trace htally
  rw [hqueue, htrace]
  unfold Tally.drain drainSteps
  cases hpop : fails .pop with
  | true => exact ⟨rfl, rfl, (List.append_nil _).symm⟩
  | false =>
      have hpopped : (w.tally r.kind).queue.take retryDrainPerCycle =
          (w.replayOrder r.kind).take retryDrainPerCycle := rfl
      simp only [Bool.false_eq_true, if_false, hpopped]
      by_cases hnone : (Tally.rowsOf r ((w.replayOrder r.kind).take retryDrainPerCycle)).isEmpty =
          true
      · rw [if_pos hnone, if_pos hnone]
        exact ⟨rfl, (World.replayOrder_popRetryBatches ..).symm, (List.append_nil _).symm⟩
      · rw [if_neg hnone, if_neg hnone]
        cases hinsert : fails .insert with
        | false =>
            refine ⟨rfl, (World.replayOrder_popRetryBatches ..).symm, ?_⟩
            exact replaysOf_replayed r.kind w.trace _
        | true => cases hrequeue : fails .requeue with
          | true =>
              exact ⟨rfl, (World.replayOrder_popRetryBatches ..).symm, (List.append_nil _).symm⟩
          | false =>
              refine ⟨rfl, ?_, (List.append_nil _).symm⟩
              show (w.replayOrder r.kind).drop retryDrainPerCycle ++ Tally.good r _ =
                (World.requeueRetryBatches (w.popRetryBatches r.kind retryDrainPerCycle).2 r.kind
                  (Tally.good r _)).replayOrder r.kind
              rw [World.replayOrder_requeueRetryBatches, World.replayOrder_popRetryBatches]
              rfl

/-! ### The order of a run -/

variable {r}

/-- Nothing is trimmed off, and what is put back meets no other batches than its own. -/
def KeepsOrder (s : Flight) : QueueStep → Prop
  | .push _ => (s.world.replayOrder r.kind).length < World.maxRetryQueueLen
  | .settle .requeued => RedisList.SameBlock (s.world.replayOrder r.kind) s.inFlight
  | _ => True

/-- Replayed batches come before those in flight, and these before the waiting ones. -/
def Flight.order (r : RetryRow Row) (s : Flight) : List String :=
  s.replayed ++ s.inFlight ++ s.world.replayOrder r.kind

theorem order_queueStep {s : Flight} {i : QueueStep} (h : KeepsOrder (r := r) s i) :
    ((queueStep r s i).order r).Sublist (s.order r ++ pushes [i]) := by
  cases i with
  | push json =>
      have hlen : (s.world.replayOrder r.kind).length + 1 - World.maxRetryQueueLen = 0 := by
        have hlt : (s.world.replayOrder r.kind).length < World.maxRetryQueueLen := h
        omega
      have hqueue := s.world.replayOrder_pushRetryBatch r.kind json
      rw [hlen, List.drop_zero] at hqueue
      show (s.replayed ++ s.inFlight ++
        (s.world.pushRetryBatch r.kind json).replayOrder r.kind).Sublist
          (s.replayed ++ s.inFlight ++ s.world.replayOrder r.kind ++ [json])
      rw [hqueue, ← List.append_assoc]
  | pop count =>
      -- what is popped was next, and some of it may be discarded
      have hsplit : s.world.replayOrder r.kind = (s.world.replayOrder r.kind).take count ++
          (s.world.replayOrder r.kind).drop count := (List.take_append_drop ..).symm
      show (s.replayed ++ (s.inFlight ++ Tally.good r ((s.world.replayOrder r.kind).take count)) ++
        (s.world.popRetryBatches r.kind count).2.replayOrder r.kind).Sublist (s.order r ++ [])
      rw [World.replayOrder_popRetryBatches, List.append_nil, Flight.order]
      conv => rhs; rw [hsplit]
      rw [← List.append_assoc, ← List.append_assoc]
      exact (List.filter_sublist.append_left _).append_right _
  | settle how => cases how with
    | inserted =>
        show (s.replayed ++ s.inFlight ++ [] ++ s.world.replayOrder r.kind).Sublist
          (s.order r ++ [])
        rw [List.append_nil, List.append_nil, Flight.order]
    | requeued =>
        -- the batches put back and those that wait may be told in either order
        have hcomm : s.world.replayOrder r.kind ++ s.inFlight =
            s.inFlight ++ s.world.replayOrder r.kind := (RedisList.append_comm_iff _ _).2 h
        show (s.replayed ++ [] ++
          (s.world.requeueRetryBatches r.kind s.inFlight).replayOrder r.kind).Sublist
            (s.order r ++ [])
        rw [World.replayOrder_requeueRetryBatches, hcomm, List.append_nil, List.append_nil,
          ← List.append_assoc, Flight.order]
    | dropped =>
        show (s.replayed ++ [] ++ s.world.replayOrder r.kind).Sublist (s.order r ++ [])
        rw [List.append_nil, List.append_nil, Flight.order, List.append_assoc]
        exact (List.sublist_append_right _ _).append_left _

/-- In such a run the batches stay in the order in which they were pushed. -/
theorem order_run {s : Flight} {steps : List QueueStep}
    (h : Runs.AllSteps (queueStep r) (KeepsOrder (r := r)) s steps) :
    ((Runs.run (queueStep r) s steps).order r).Sublist (s.order r ++ pushes steps) := by
  induction steps generalizing s with
  | nil =>
      show (s.order r).Sublist (s.order r ++ [])
      rw [List.append_nil]
  | cons i rest ih =>
      have hpushes : pushes (i :: rest) = pushes [i] ++ pushes rest := by
        rw [pushes, ← List.singleton_append, List.filterMap_append, ← pushes, ← pushes]
      rw [hpushes, ← List.append_assoc, Runs.run_cons]
      exact (ih h.2).trans ((order_queueStep h.1).append_right _)

/-- **Replay order.** A failed replay keeps the order of the queue if and only if it popped
all that waits, or the queue is one block over and over and whole blocks were popped; and
in a run where nothing is trimmed off and every requeue meets an empty queue, or more of
the block it puts back, batches are replayed in the order in which they were pushed. -/
theorem replayOrder_kept (r : RetryRow Row) (w : World) :
    (∀ n, ((w.popRetryBatches r.kind n).2.requeueRetryBatches r.kind
        (w.popRetryBatches r.kind n).1).replayOrder r.kind = w.replayOrder r.kind ↔
      (w.replayOrder r.kind).length ≤ n ∨ RedisList.Periodic n (w.replayOrder r.kind)) ∧
    ∀ steps, Runs.AllSteps (queueStep r) (KeepsOrder (r := r)) ⟨w, [], []⟩ steps →
      ∀ before after, steps = before ++ after →
        (Runs.run (queueStep r) ⟨w, [], []⟩ before).replayed.Sublist
          (w.replayOrder r.kind ++ pushes before) := by
  refine ⟨fun n => replayOrder_requeue_iff w r.kind n, ?_⟩
  rintro steps hall before after rfl
  have horder := order_run (Runs.allSteps_append.1 hall).1
  rw [Flight.order, Flight.order, List.append_assoc] at horder
  exact (List.sublist_append_left _ _).trans horder

end Queue

/-! ### Requeued batches fall behind -/

/-- A batch is buffered while another is being replayed. -/
def overtaking : List QueueStep :=
  [.push (sampleText "t1"), .pop 100, .push (sampleText "t2"), .settle .requeued, .pop 100,
    .settle .inserted]

/-- The replay fails before the next batch is buffered. -/
def inTurn : List QueueStep :=
  [.push (sampleText "t1"), .pop 100, .settle .requeued, .push (sampleText "t2"), .pop 100,
    .settle .inserted]

theorem keepsOrder_inTurn :
    Runs.AllSteps (queueStep (taskEvents sampleServices))
      (KeepsOrder (r := taskEvents sampleServices)) ⟨freshWorld, [], []⟩ inTurn := by
  have hempty : (freshWorld.replayOrder "task_events").length < World.maxRetryQueueLen := by decide
  refine ⟨hempty, trivial, RedisList.sameBlock_nil _, ?_, trivial, trivial, trivial⟩
  have hfirst : Runs.AllSteps (queueStep (taskEvents sampleServices))
      (KeepsOrder (r := taskEvents sampleServices)) ⟨freshWorld, [], []⟩ (inTurn.take 3) :=
    ⟨hempty, trivial, RedisList.sameBlock_nil _, trivial⟩
  -- no more waits than was pushed
  have hlen := (order_run hfirst).length_le
  have hone : List.length (Flight.order (taskEvents sampleServices) ⟨freshWorld, [], []⟩ ++
      pushes (inTurn.take 3)) = 1 := by
    simp [Flight.order, World.replayOrder, freshWorld, pushes, inTurn]
  rw [hone, Flight.order, List.length_append] at hlen
  show ((Runs.run (queueStep (taskEvents sampleServices)) ⟨freshWorld, [], []⟩
    (inTurn.take 3)).world.replayOrder (taskEvents sampleServices).kind).length < _
  have hmax : World.maxRetryQueueLen = 2000 := rfl
  omega

theorem replayOrder_kept_inTurn :
    (Runs.run (queueStep (taskEvents sampleServices)) ⟨freshWorld, [], []⟩ inTurn).replayed.Sublist
      (freshWorld.replayOrder "task_events" ++ pushes inTurn) :=
  (replayOrder_kept (taskEvents sampleServices) freshWorld).2 inTurn keepsOrder_inTurn
    inTurn [] rfl

/-- Two batches wait. -/
def twoWaiting : World := freshWorld.setRetryQueue "task_events" ["second", "first"]

/-- A queue of two batches loses its order, and the batch pushed second is replayed first. -/
theorem requeued_behind :
    ((twoWaiting.popRetryBatches "task_events" 1).2.requeueRetryBatches "task_events"
        (twoWaiting.popRetryBatches "task_events" 1).1).replayOrder "task_events" ≠
          twoWaiting.replayOrder "task_events" ∧
      pushes overtaking = [sampleText "t1", sampleText "t2"] ∧
      (Runs.run (queueStep (taskEvents sampleServices)) ⟨freshWorld, [], []⟩ overtaking).replayed =
        [sampleText "t2", sampleText "t1"] := by
  refine ⟨by decide +kernel, by simp [pushes, overtaking], ?_⟩
  have hdecode : ∀ taskId ∈ ["t1", "t2"],
      ((taskEvents sampleServices).codec.decode (sampleText taskId)).isSome = true := by
    intro taskId htaskId
    simp only [List.mem_cons, List.not_mem_nil, or_false] at htaskId
    rcases htaskId with rfl | rfl
    · rw [show (taskEvents sampleServices).codec.decode (sampleText "t1") = some [sampleRow "t1"]
        from sampleCodec_decode]
      rfl
    · show (sampleCodec.decode (sampleText "t2")).isSome = true
      simp only [sampleCodec, if_true]
      split <;> rfl
  have h1 := hdecode "t1" (by simp)
  have h2 := hdecode "t2" (by simp)
  have hstart : freshWorld.replayOrder (taskEvents sampleServices).kind = [] := rfl
  simp only [overtaking, Runs.run, List.foldl, queueStep, World.popRetryBatches_fst,
    World.replayOrder_requeueRetryBatches, World.replayOrder_pushRetryBatch,
    World.replayOrder_popRetryBatches, hstart, Tally.good]
  simp [World.maxRetryQueueLen, h1, h2]

end Feloxi.Pipeline
