import Feloxi.Pipeline.Tally

/-!
# Feloxi.Pipeline.Conservation

Runs of ingests and drain passes on the task events, and the rows that go missing in
them. A step that loses rows loses them for good, so the counters and the queue add up
in every state of a run just when no step of it is lossy.
-/

namespace Feloxi.Pipeline

/-! ### Runs -/

/-- A step of the task pipeline. -/
inductive Step where
  | ingest (env : TaskEnv) (tenantId sourceId : Uuid) (brokerType : String)
      (events : List RawTaskEvent)
  | drain (fails : DrainPoint → Bool)

def step (s : Services) (w : World) : Step → World
  | .ingest env tenantId sourceId brokerType events =>
    ingestRawTaskEvents s env tenantId sourceId brokerType events w
  | .drain fails => drainRetryQueue (taskEvents s) fails w

/-- The state after a run. -/
abbrev run (s : Services) : World → List Step → World := Runs.run (step s)

/-- The account of the task events. -/
abbrev World.tasks (s : Services) (w : World) : Tally := w.tally (taskEvents s).kind

/-- An empty batch is ignored. -/
theorem ingestRawTaskEvents_nil (s : Services) (env : TaskEnv) (tenantId sourceId : Uuid)
    (brokerType : String) (w : World) :
    ingestRawTaskEvents s env tenantId sourceId brokerType [] w = w := rfl

/-! ### Losses -/

namespace Tally

variable {Row : Type} (r : RetryRow Row)

/-- All received rows are stored, dropped, waiting or missing. -/
def Accounts (missing : Nat) (t : Tally) : Prop :=
  t.received = t.inserted + t.dropped + weight r t.queue + missing

/-- The rows an ingest loses: those of the batches trimmed off. -/
def lostByIngest (t : Tally) : IngestOutcome → Nat
  | .buffered => weight r (trimmed t.queue)
  | _ => 0

/-- The rows a drain pass loses: those of popped batches neither stored nor put back. -/
def lostByDrain (t : Tally) (fails : DrainPoint → Bool) : Nat :=
  if !fails .pop && fails .insert && fails .requeue then
    weight r (good r (t.queue.take retryDrainPerCycle))
  else 0

variable {r} {missing : Nat} {t : Tally}

theorem Accounts.ingest (h : t.Accounts r missing) (rows : List Row) (outcome : IngestOutcome) :
    (t.ingest r.kind (r.codec.encode rows) rows.length outcome).Accounts r
      (missing + t.lostByIngest r outcome) := by
  unfold Accounts at h ⊢
  cases outcome with
  | inserted => simp only [Tally.ingest, lostByIngest]; omega
  | dropped => simp only [Tally.ingest, lostByIngest]; omega
  | buffered =>
      -- what is trimmed off was waiting before
      have hmax : World.maxRetryQueueLen = 2000 := rfl
      have hdrop : t.queue.length + 1 - World.maxRetryQueueLen ≤ t.queue.length := by omega
      have hsplit : weight r t.queue = weight r (trimmed t.queue) +
          weight r (t.queue.drop (t.queue.length + 1 - World.maxRetryQueueLen)) := by
        rw [← weight_append, trimmed, List.take_append_drop]
      simp only [Tally.ingest, lostByIngest, List.drop_append_of_le_length hdrop, weight_append,
        weight_cons, weight_nil, RowCodec.size_encode]
      omega

theorem Accounts.drain (h : t.Accounts r missing) (fails : DrainPoint → Bool) :
    (t.drain r fails).Accounts r (missing + t.lostByDrain r fails) := by
  unfold Accounts at h ⊢
  unfold Tally.drain lostByDrain
  cases hpop : fails .pop with
  | true => simpa using h
  | false =>
      have hsplit : weight r t.queue = weight r (t.queue.take retryDrainPerCycle) +
          weight r (t.queue.drop retryDrainPerCycle) := by
        rw [← weight_append, List.take_append_drop]
      have hparts := weight_good_add_bad r (t.queue.take retryDrainPerCycle)
      simp only [Bool.false_eq_true, if_false, Bool.not_false, Bool.true_and]
      by_cases hnone : (rowsOf r (t.queue.take retryDrainPerCycle)).isEmpty = true
      · -- nothing to store: the batches that decode hold no rows
        have hzero : weight r (good r (t.queue.take retryDrainPerCycle)) = 0 := by
          rw [← length_rowsOf, List.isEmpty_iff.1 hnone, List.length_nil]
        rw [if_pos hnone, hzero]
        simp only [ite_self]
        omega
      · rw [if_neg hnone]
        cases hinsert : fails .insert with
        | false =>
            simp only [Bool.not_false, if_true, Bool.false_and, Bool.false_eq_true, if_false]
            omega
        | true => cases hrequeue : fails .requeue with
          | true =>
              simp only [Bool.not_true, Bool.false_eq_true, if_false, if_true, Bool.and_true]
              omega
          | false =>
              simp only [Bool.not_true, Bool.false_eq_true, if_false, Bool.and_false,
                weight_append]
              omega

end Tally

/-- The rows a step loses. -/
def lostBy (s : Services) (w : World) : Step → Nat
  | .ingest env _ _ _ events =>
    if events.isEmpty then 0
    else (w.tasks s).lostByIngest (taskEvents s) (ingestOutcome fun pt => env.fails (.insert pt))
  | .drain fails => (w.tasks s).lostByDrain (taskEvents s) fails

/-- A step adds its losses to what is missing. -/
theorem accounts_step {s : Services} {w : World} {missing : Nat}
    (h : (w.tasks s).Accounts (taskEvents s) missing) (i : Step) :
    ((step s w i).tasks s).Accounts (taskEvents s) (missing + lostBy s w i) := by
  cases i with
  | ingest env tenantId sourceId brokerType events =>
      by_cases hevents : events = []
      · subst hevents
        exact h
      · have hlost : lostBy s w (.ingest env tenantId sourceId brokerType events) =
            (w.tasks s).lostByIngest (taskEvents s)
              (ingestOutcome fun pt => env.fails (.insert pt)) :=
          if_neg (by simpa using hevents)
        have hcount : events.length = (taskRows env tenantId sourceId brokerType
            (ingestedEvents env tenantId events w)).length := by
          rw [length_taskRows, length_ingestedEvents]
        rw [step, World.tasks, tally_ingestRawTaskEvents s env tenantId sourceId brokerType hevents,
          hlost, hcount]
        exact h.ingest _ _
  | drain fails =>
      rw [step, World.tasks, tally_drainRetryQueue (taskEvents_offAccount s)]
      exact h.drain fails

/-! ### Conservation -/

/-- What came in was stored, was given up or waits. -/
def Conserved (s : Services) (w : World) : Prop :=
  w.counters "events_received" = w.counters "events_inserted" + w.counters "events_dropped" +
    Tally.weight (taskEvents s) (w.replayOrder (taskEvents s).kind)

/-- No rows are lost: a push onto a full queue trims off nothing but empty batches, and
what was popped and could not be stored is put back. -/
def Lossless (s : Services) (w : World) : Step → Prop
  | .ingest env _ _ _ events => events ≠ [] → env.fails (.insert .first) = true →
      env.fails (.insert .second) = true → env.fails (.insert .push) = false →
      ∀ json ∈ trimmed (w.replayOrder (taskEvents s).kind), (taskEvents s).codec.size json = 0
  | .drain fails => fails .pop = false → fails .insert = true → fails .requeue = true →
      Tally.rowsOf (taskEvents s)
        ((w.replayOrder (taskEvents s).kind).take retryDrainPerCycle) = []

instance (s : Services) (w : World) : Decidable (Conserved s w) :=
  inferInstanceAs (Decidable (_ = _))

theorem lostBy_eq_zero_iff (s : Services) (w : World) (i : Step) :
    lostBy s w i = 0 ↔ Lossless s w i := by
  cases i with
  | ingest env tenantId sourceId brokerType events =>
      simp only [lostBy, Lossless]
      by_cases hevents : events = []
      · simp [hevents]
      · rw [if_neg (by simpa using hevents)]
        have hsum : ∀ l : List String, Tally.weight (taskEvents s) l = 0 ↔
            ∀ json ∈ l, (taskEvents s).codec.size json = 0 := by
          intro l
          rw [Tally.weight, List.sum_eq_zero_iff_forall_eq_nat]
          simp
        cases hfirst : env.fails (.insert .first) with
        | false => simp [ingestOutcome, hfirst, Tally.lostByIngest]
        | true => cases hsecond : env.fails (.insert .second) with
          | false => simp [ingestOutcome, hfirst, hsecond, Tally.lostByIngest]
          | true => cases hpush : env.fails (.insert .push) with
            | true => simp [ingestOutcome, hfirst, hsecond, hpush, Tally.lostByIngest]
            | false =>
                have houtcome : (ingestOutcome fun pt => env.fails (.insert pt)) = .buffered := by
                  simp [ingestOutcome, hfirst, hsecond, hpush]
                rw [houtcome]
                simp only [ne_eq, hevents, not_false_eq_true, true_imp_iff]
                exact hsum _
  | drain fails =>
      have hrows : Tally.weight (taskEvents s) (Tally.good (taskEvents s)
          ((w.replayOrder (taskEvents s).kind).take retryDrainPerCycle)) = 0 ↔
          Tally.rowsOf (taskEvents s)
            ((w.replayOrder (taskEvents s).kind).take retryDrainPerCycle) = [] := by
        rw [← Tally.length_rowsOf, List.length_eq_zero_iff]
      simp only [lostBy, Lossless, Tally.lostByDrain]
      cases hpop : fails .pop with
      | true => simp
      | false => cases hinsert : fails .insert with
        | false => simp
        | true => cases hrequeue : fails .requeue with
          | false => simp
          | true =>
              simp only [Bool.not_false, Bool.and_true, if_true, true_imp_iff]
              exact hrows

/-- In a conserved state a step keeps conservation just when it loses nothing. -/
theorem conserved_step_iff {s : Services} {w : World} (h : Conserved s w) (i : Step) :
    Conserved s (step s w i) ↔ Lossless s w i := by
  rw [← lostBy_eq_zero_iff]
  have hstep : ((step s w i).tasks s).Accounts (taskEvents s) (0 + lostBy s w i) :=
    accounts_step (show (w.tasks s).Accounts (taskEvents s) 0 from h) i
  unfold Tally.Accounts at hstep
  show ((step s w i).tasks s).received = ((step s w i).tasks s).inserted +
    ((step s w i).tasks s).dropped +
      Tally.weight (taskEvents s) ((step s w i).tasks s).queue ↔ _
  omega

/-- A freshly sent task. -/
def sampleEvent (taskId : String) : RawTaskEvent :=
  .syntheticSent (.fin 1) taskId "tasks.add" "celery" "[2,3]" "\x7b\x7d" none none

/-- The row of a sample event. -/
def sampleRow (taskId : String) : TaskEventRow :=
  normalizeTaskEvent 1#128 0 7#128 9#128 "redis" (sampleEvent taskId)

/-- The text of a batch of one sample row. -/
def sampleText (taskId : String) : String :=
  "[" ++ ("\x7b\"tenant_id\":\"00000000-0000-0000-0000-000000000007\"," ++
  "\"event_id\":\"00000000-0000-0000-0000-000000000001\"," ++
  "\"task_id\":\"" ++ taskId ++ "\",\"task_name\":\"tasks.add\",\"queue\":\"celery\"," ++
  "\"worker_id\":\"\",\"state\":\"PENDING\",\"event_type\":\"task-sent\"," ++
  "\"timestamp\":1000,\"args\":\"[2,3]\",\"kwargs\":\"\x7b\x7d\",\"result\":\"\"," ++
  "\"exception\":\"\",\"traceback\":\"\",\"runtime\":0.0,\"retries\":0," ++
  "\"root_id\":null,\"parent_id\":null,\"group_id\":null,\"chord_id\":null," ++
  "\"agent_id\":\"00000000-0000-0000-0000-000000000009\",\"broker_type\":\"redis\"\x7d]")

/-- A bracket is no letter of other rows. -/
theorem replicate_ne_sampleText (n : Nat) (taskId : String) :
    String.ofList (List.replicate n 'r') ≠ sampleText taskId := by
  intro heq
  have hmem : '[' ∈ (sampleText taskId).toList := by
    rw [sampleText, String.toList_append]
    exact List.mem_append_left _ (by decide)
  rw [← heq, String.toList_ofList] at hmem
  exact absurd (List.eq_of_mem_replicate hmem) (by decide)

/-- The sample batches with the text they have; other rows are a letter each. -/
def sampleCodec : RowCodec TaskEventRow where
  encode rows :=
    if rows = [sampleRow "t1"] then sampleText "t1"
    else if rows = [sampleRow "t2"] then sampleText "t2"
    else String.ofList (List.replicate rows.length 'r')
  decode json :=
    if json = sampleText "t1" then some [sampleRow "t1"]
    else if json = sampleText "t2" then some [sampleRow "t2"]
    else none
  elements json :=
    if json = sampleText "t1" ∨ json = sampleText "t2" then some 1 else some json.length
  elements_encode rows := by
    by_cases h1 : rows = [sampleRow "t1"]
    · simp [h1]
    · by_cases h2 : rows = [sampleRow "t2"]
      · rw [if_neg h1, if_pos h2, if_pos (.inr rfl), h2]
        rfl
      · rw [if_neg h1, if_neg h2, if_neg, String.length_ofList, List.length_replicate]
        rintro (heq | heq)
        · exact replicate_ne_sampleText _ _ heq
        · exact replicate_ne_sampleText _ _ heq
  elements_decode json rows h := by
    split at h
    · rename_i hjson
      rw [if_pos (.inl hjson), ← Option.some.inj h]
      rfl
    · split at h
      · rename_i hjson
        rw [if_pos (.inr hjson), ← Option.some.inj h]
        rfl
      · cases h

theorem sampleCodec_encode : sampleCodec.encode [sampleRow "t1"] = sampleText "t1" := if_pos rfl

theorem sampleCodec_decode : sampleCodec.decode (sampleText "t1") = some [sampleRow "t1"] := by
  simp only [sampleCodec, if_true]

/-- Services that know the sample batches; the other serializers are not called. -/
def sampleServices : Services where
  serde := { toString _ := "", fromStr _ := none }
  taskRows := sampleCodec
  workerRows :=
    { encode rows := String.ofList (List.replicate rows.length 'r')
      decode _ := none
      elements json := some json.length
      elements_encode rows := by rw [String.length_ofList, List.length_replicate]
      elements_decode json rows h := by cases h }
  stateText _ := ""

/-- Nothing has happened yet. -/
def freshWorld : World where
  counters _ := 0
  retryQueue _ := []
  taskNames _ _ := none
  workers _ _ := ⟨none, false, false⟩
  hbSampled _ _ := false
  lastSeen _ := none
  taskRows := []
  workerRows := []
  sent := []
  trace := []

/-- Both inserts of an ingest fail, and the batch is buffered. -/
def sampleEnv : TaskEnv where
  fails pt := decide (pt = .insert .first ∨ pt = .insert .second)
  now := 0
  eventId _ := 1#128

/-- Buffer a sample event. -/
def bufferStep (taskId : String) : Step := .ingest sampleEnv 7#128 9#128 "redis" [sampleEvent taskId]

/-- ClickHouse is down: a batch is buffered, and the replay puts it back. -/
def outage : List Step := [bufferStep "t1", .drain fun pt => decide (pt = .insert)]

/-- Redis fails too when the batch is put back. -/
def outageOfBoth : List Step := [bufferStep "t1", .drain fun pt => decide (pt ≠ .pop)]

theorem conserved_freshWorld : Conserved sampleServices freshWorld := rfl

/-- The batch waits. -/
theorem replayOrder_bufferStep :
    (step sampleServices freshWorld (bufferStep "t1")).replayOrder "task_events" =
      [sampleText "t1"] := by
  have hrows : taskRows sampleEnv 7#128 9#128 "redis"
      (ingestedEvents sampleEnv 7#128 [sampleEvent "t1"] freshWorld) = [sampleRow "t1"] := by
    decide +kernel
  have htally := tally_ingestRawTaskEvents sampleServices sampleEnv 7#128 9#128 "redis"
    (List.cons_ne_nil (sampleEvent "t1") []) freshWorld
  have hencode : sampleServices.taskRows.encode [sampleRow "t1"] = sampleText "t1" :=
    sampleCodec_encode
  have houtcome : (ingestOutcome fun pt => sampleEnv.fails (.insert pt)) = .buffered := rfl
  rw [hrows, hencode, houtcome] at htally
  exact congrArg Tally.queue htally

end Feloxi.Pipeline
