import Feloxi.Ws.Dashboard
import Mathlib.Data.List.DropRight

/-!
# Feloxi.Ws.Rounds

What a session of the live view owes its client. A ledger keeps, event by event, what the
client asked for at the time: the task updates by the flush that counts them, everything else
in one list. While the socket takes what it is given and the broadcast does not lag, what the
session has sent and what it holds add up to the ledger.
-/

namespace Feloxi.Ws

open Runs

/-! ### The ledger -/

/-- An input that loses nothing: the socket takes all messages and stays open, and the
broadcast does not lag. -/
def Input.Smooth : Input → Prop
  | .text _ gone => gone = false
  | .binary => True
  | .event _ => True
  | .tick gone => gone = none
  | .close | .lagged _ | .noMoreEvents => False

/-- The topics after an input. -/
def topicsAfter (topics : List SubscriptionTopic) : Input → List SubscriptionTopic
  | .text (some (.subscribe more)) _ => topics ++ more
  | .text (some (.unsubscribe fewer)) _ => topics.filter (· ∉ fewer)
  | _ => topics

/-- The event of the tenant that an input brings, if one of the topics asks for it. -/
def arrival (tenantId : Uuid) (topics : List SubscriptionTopic) : Input → Option EventPayload
  | .event event =>
    if event.tenantId = tenantId ∧ matchesAnySubscription event topics = true then
      some event.payload
    else none
  | _ => none

/-- The events of the tenant that were asked for when they came in, in order. -/
def arrivals (tenantId : Uuid) (topics : List SubscriptionTopic) : List Input → List EventPayload
  | [] => []
  | input :: rest =>
    (arrival tenantId topics input).toList ++ arrivals tenantId (topicsAfter topics input) rest

structure Ledger where
  topics : List SubscriptionTopic
  /-- The task updates that each flush is to count. -/
  rounds : List (List EventPayload)
  /-- The task updates since the last flush. -/
  current : List EventPayload
  others : List EventPayload
  deriving Repr, DecidableEq

def Ledger.start (topics : List SubscriptionTopic) : Ledger :=
  { topics, rounds := [], current := [], others := [] }

/-- An event that was asked for. -/
def Ledger.add (l : Ledger) (payload : EventPayload) : Ledger :=
  if payload.isTask then { l with current := l.current ++ [payload] }
  else { l with others := l.others ++ [payload] }

/-- A flush. -/
def Ledger.close (l : Ledger) : Ledger :=
  if l.current = [] then l else { l with rounds := l.rounds ++ [l.current], current := [] }

def Ledger.step (tenantId : Uuid) (l : Ledger) (input : Input) : Ledger :=
  match input with
  | .tick _ => l.close
  | _ =>
    { (arrival tenantId l.topics input).elim l l.add with topics := topicsAfter l.topics input }

/-- The ledger of a session from its start. -/
def ledger (tenantId : Uuid) (inputs : List Input) : Ledger :=
  run (Ledger.step tenantId) (.start (openSession tenantId).subscriptions) inputs

/-- The task updates of all flushes and since. -/
def Ledger.tasks (l : Ledger) : List EventPayload := l.rounds.flatten ++ l.current

@[simp] theorem Ledger.close_tasks (l : Ledger) : l.close.tasks = l.tasks := by
  unfold close tasks
  split <;> simp

@[simp] theorem Ledger.close_others (l : Ledger) : l.close.others = l.others := by
  unfold close
  split <;> rfl

@[simp] theorem Ledger.close_topics (l : Ledger) : l.close.topics = l.topics := by
  unfold close
  split <;> rfl

@[simp] theorem Ledger.step_topics (tenantId : Uuid) (l : Ledger) (input : Input) :
    (l.step tenantId input).topics = topicsAfter l.topics input := by
  cases input with
  | tick gone => exact l.close_topics
  | _ => rfl

/-- What a step adds to the ledger. -/
theorem Ledger.step_entries (tenantId : Uuid) (l : Ledger) (input : Input) :
    (l.step tenantId input).tasks =
        l.tasks ++ (arrival tenantId l.topics input).toList.filter (·.isTask) ∧
      (l.step tenantId input).others =
        l.others ++ (arrival tenantId l.topics input).toList.filter (!·.isTask) := by
  cases input with
  | tick gone => exact ⟨by simp [step, arrival], by simp [step, arrival]⟩
  | event event =>
      simp only [step, topicsAfter]
      cases arrival tenantId l.topics (.event event) with
      | none => simp [tasks]
      | some payload =>
          by_cases htask : payload.isTask = true
          · simp [add, tasks, htask]
          · simp [add, tasks, htask]
  | _ => simp [step, arrival, tasks]

/-- **The ledger is complete**: it has every event that was asked for when it came in, in
order. -/
theorem Ledger.run_entries (tenantId : Uuid) (l : Ledger) (inputs : List Input) :
    (run (Ledger.step tenantId) l inputs).tasks =
        l.tasks ++ (arrivals tenantId l.topics inputs).filter (·.isTask) ∧
      (run (Ledger.step tenantId) l inputs).others =
        l.others ++ (arrivals tenantId l.topics inputs).filter (!·.isTask) := by
  induction inputs generalizing l with
  | nil => simp [arrivals]
  | cons input rest ih =>
      obtain ⟨htasks, hothers⟩ := ih (l.step tenantId input)
      obtain ⟨htask, hother⟩ := l.step_entries tenantId input
      rw [run_cons, htasks, hothers, htask, hother, step_topics]
      simp [arrivals]

/-! ### What was sent -/

/-- The last few task updates of a flush. -/
def lastFew (tasks : List EventPayload) : List EventPayload := tasks.rtake TASK_LATEST_CAP

def WsServerMessage.batch? : WsServerMessage → Option (Nat × List EventPayload)
  | .event (.taskBatchUpdate count latest) => some (count, latest)
  | _ => none

def WsServerMessage.event? : WsServerMessage → Option EventPayload
  | .event (.event payload) => some payload
  | _ => none

/-- The batches that were sent, in order. -/
def batches (sent : List WsServerMessage) : List (Nat × List EventPayload) :=
  sent.filterMap WsServerMessage.batch?

/-- The other events that were sent, in order. -/
def events (sent : List WsServerMessage) : List EventPayload :=
  sent.filterMap WsServerMessage.event?

/-- The batch of a flush. -/
def batchOf (tasks : List EventPayload) : Nat × List EventPayload := (tasks.length, lastFew tasks)

theorem pushLatest_lastFew (tasks : List EventPayload) (payload : EventPayload) :
    pushLatest (lastFew tasks) payload = lastFew (tasks ++ [payload]) := by
  have hlength : (lastFew tasks).length = min TASK_LATEST_CAP tasks.length := by
    simp only [lastFew, List.rtake, List.length_drop]
    omega
  unfold pushLatest
  split
  · -- the ring is full: the oldest goes
    have hfull : TASK_LATEST_CAP ≤ tasks.length := by omega
    have hpos : 0 < TASK_LATEST_CAP := by decide
    simp only [lastFew, List.rtake, List.drop_drop, List.length_append, List.length_singleton]
    rw [List.drop_append_of_le_length (by omega)]
    congr 2
    omega
  · have hshort : tasks.length < TASK_LATEST_CAP := by omega
    have hall : tasks.length - TASK_LATEST_CAP = 0 := by omega
    have hmore : tasks.length + 1 - TASK_LATEST_CAP = 0 := by omega
    simp only [lastFew, List.rtake, List.length_append, List.length_singleton, hall, hmore,
      List.drop_zero]

/-! ### The session keeps the ledger -/

/-- What a session has sent and what it holds add up to the ledger. -/
structure Accounts (tenantId : Uuid) (l : Ledger) (s : DashboardSession) : Prop where
  isOpen : s.isOpen = true
  tenant : s.tenantId = tenantId
  topics : s.subscriptions = l.topics
  count : s.taskCount = l.current.length
  latest : s.taskLatest = lastFew l.current
  batches : batches s.sent = l.rounds.map batchOf
  others : events s.sent ++ s.otherBatch = l.others

theorem accounts_openSession (tenantId : Uuid) :
    Accounts tenantId (.start (openSession tenantId).subscriptions) (openSession tenantId) :=
  ⟨rfl, rfl, rfl, rfl, rfl, rfl, rfl⟩

/-- A message that is no event is not on the account. -/
theorem Accounts.send {tenantId : Uuid} {l : Ledger} {s : DashboardSession}
    (h : Accounts tenantId l s) {message : WsServerMessage} (hbatch : message.batch? = none)
    (hevent : message.event? = none) : Accounts tenantId l (s.send message false) where
  isOpen := rfl
  tenant := h.tenant
  topics := h.topics
  count := h.count
  latest := h.latest
  batches := by
    rw [← h.batches]
    simp [DashboardSession.send, Ws.batches, hbatch]
  others := by
    rw [← h.others]
    simp [DashboardSession.send, events, hevent]

theorem accounts_event {tenantId : Uuid} {l : Ledger} {s : DashboardSession}
    (h : Accounts tenantId l s) (event : TenantEvent) :
    Accounts tenantId (l.step tenantId (.event event)) (onEvent s event) := by
  unfold onEvent
  simp only [Ledger.step, arrival, topicsAfter, h.tenant, h.topics]
  by_cases htenant : event.tenantId = tenantId
  · by_cases hasked : matchesAnySubscription event l.topics = true
    · simp only [htenant, hasked, and_self, if_true, Option.elim_some, Ledger.add]
      by_cases htask : event.payload.isTask = true
      · rw [if_pos htask, if_pos htask]
        refine { h with tenant := rfl, topics := rfl, count := ?_, latest := ?_ }
        · show s.taskCount + 1 = (l.current ++ [event.payload]).length
          rw [h.count, List.length_append, List.length_singleton]
        · show pushLatest s.taskLatest event.payload = lastFew (l.current ++ [event.payload])
          rw [h.latest, pushLatest_lastFew]
      · rw [if_neg htask, if_neg htask]
        refine { h with tenant := rfl, topics := rfl, others := ?_ }
        show events s.sent ++ (s.otherBatch ++ [event.payload]) = l.others ++ [event.payload]
        rw [← h.others, List.append_assoc]
    · simp only [htenant, hasked, and_false, if_true, if_false, Bool.false_eq_true, Option.elim_none]
      exact { h with topics := h.topics }
  · simp only [htenant, false_and, if_false, Option.elim_none]
    exact { h with topics := h.topics }

/-- What a flush sends: the other events, and the batch if there is anything to count. -/
theorem batches_flushed (s : DashboardSession) :
    batches (flushed s) = if s.taskCount = 0 then [] else [(s.taskCount, s.taskLatest)] := by
  have hothers : batches (s.otherBatch.map fun payload => .event (.event payload)) = [] := by
    simp [batches, WsServerMessage.batch?, List.filterMap_map, Function.comp_def]
  unfold flushed
  rw [batches, List.filterMap_append, ← batches, ← batches, hothers, List.nil_append]
  split <;> rfl

theorem events_flushed (s : DashboardSession) : events (flushed s) = s.otherBatch := by
  have hothers : events (s.otherBatch.map fun payload => .event (.event payload)) =
      s.otherBatch := by
    simp [events, WsServerMessage.event?, List.filterMap_map, Function.comp_def]
  unfold flushed
  rw [events, List.filterMap_append, ← events, ← events, hothers]
  split <;> exact List.append_nil _

theorem accounts_tick {tenantId : Uuid} {l : Ledger} {s : DashboardSession}
    (h : Accounts tenantId l s) (gone : Option Nat) :
    Accounts tenantId (l.step tenantId (.tick gone)) (onTick s none) := by
  have hbatches : batches (s.sent ++ flushed s) = batches s.sent ++ batches (flushed s) :=
    List.filterMap_append
  have hevents : events (s.sent ++ flushed s) = events s.sent ++ events (flushed s) :=
    List.filterMap_append
  refine ⟨h.isOpen, h.tenant, h.topics.trans l.close_topics.symm, ?_, ?_, ?_, ?_⟩
  · show 0 = l.close.current.length
    unfold Ledger.close
    split
    · rename_i hcurrent
      rw [hcurrent, List.length_nil]
    · rfl
  · show [] = lastFew l.close.current
    unfold Ledger.close
    split
    · rename_i hcurrent
      rw [hcurrent]
      rfl
    · rfl
  · show batches (s.sent ++ flushed s) = l.close.rounds.map batchOf
    rw [hbatches, batches_flushed, h.batches]
    unfold Ledger.close
    by_cases hcurrent : l.current = []
    · rw [if_pos hcurrent, if_pos (by rw [h.count, hcurrent, List.length_nil]), List.append_nil]
    · have hcount : s.taskCount ≠ 0 := by
        rw [h.count]
        exact fun hzero => hcurrent (List.eq_nil_of_length_eq_zero hzero)
      rw [if_neg hcurrent, if_neg hcount, List.map_append, List.map_singleton, batchOf, h.count,
        h.latest]
  · show events (s.sent ++ flushed s) ++ [] = l.close.others
    rw [hevents, events_flushed, List.append_nil, h.others, l.close_others]

theorem accounts_step {tenantId : Uuid} {l : Ledger} {s : DashboardSession}
    (h : Accounts tenantId l s) {input : Input} (hsmooth : input.Smooth) :
    Accounts tenantId (l.step tenantId input) (sessionStep s input) := by
  unfold sessionStep
  rw [if_pos h.isOpen]
  cases input with
  | text command gone =>
      obtain rfl : gone = false := hsmooth
      cases command with
      | none => exact h
      | some command =>
          cases command with
          | subscribe topics =>
              have hmore : Accounts tenantId { l with topics := l.topics ++ topics }
                  { s with subscriptions := s.subscriptions ++ topics } :=
                { h with topics := congrArg (· ++ topics) h.topics }
              exact hmore.send rfl rfl
          | unsubscribe topics =>
              exact { h with topics := congrArg (List.filter (· ∉ topics)) h.topics }
          | ping => exact h.send rfl rfl
  | binary => exact h
  | close => exact hsmooth.elim
  | event event => exact accounts_event h event
  | lagged n => exact hsmooth.elim
  | noMoreEvents => exact hsmooth.elim
  | tick gone =>
      obtain rfl : gone = none := hsmooth
      exact accounts_tick h none

/-- By induction on the inputs: the session keeps the ledger. -/
theorem accounts_run {tenantId : Uuid} {l : Ledger} {s : DashboardSession}
    (h : Accounts tenantId l s) {inputs : List Input} (hsmooth : ∀ input ∈ inputs, input.Smooth) :
    Accounts tenantId (run (Ledger.step tenantId) l inputs) (run sessionStep s inputs) := by
  induction inputs generalizing l s with
  | nil => exact h
  | cons input rest ih =>
      exact ih (accounts_step h (hsmooth input List.mem_cons_self)) fun i hi =>
        hsmooth i (List.mem_cons_of_mem input hi)

theorem accounts_ledger (tenantId : Uuid) {inputs : List Input}
    (hsmooth : ∀ input ∈ inputs, input.Smooth) :
    Accounts tenantId (ledger tenantId inputs) (run sessionStep (openSession tenantId) inputs) :=
  accounts_run (accounts_openSession tenantId) hsmooth

/-- **A session's accounts.** Of the events that were asked for when they came in, the task
updates are counted once each: the batches sent and the count held add up to them, flush by
flush, and each batch has the last few of those that it counts. All other events are sent once
each and in order, at the latest with the next flush. -/
theorem session_accounts (tenantId : Uuid) (inputs : List Input)
    (hsmooth : ∀ input ∈ inputs, input.Smooth) :
    let s := run sessionStep (openSession tenantId) inputs
    let asked := arrivals tenantId (openSession tenantId).subscriptions inputs
    ((batches s.sent).map Prod.fst).sum + s.taskCount = (asked.filter (·.isTask)).length ∧
      (∃ (rounds : List (List EventPayload)) (current : List EventPayload),
        rounds.flatten ++ current = asked.filter (·.isTask) ∧
        batches s.sent = rounds.map batchOf ∧ (s.taskCount, s.taskLatest) = batchOf current) ∧
      events s.sent ++ s.otherBatch = asked.filter (!·.isTask) ∧
      events (sessionStep s (.tick none)).sent = asked.filter (!·.isTask) := by
  intro s asked
  have h : Accounts tenantId (ledger tenantId inputs) s := accounts_ledger tenantId hsmooth
  obtain ⟨htasks, hothers⟩ := Ledger.run_entries tenantId
    (.start (openSession tenantId).subscriptions) inputs
  have htasks : (ledger tenantId inputs).tasks = asked.filter (·.isTask) := htasks
  have hothers : (ledger tenantId inputs).others = asked.filter (!·.isTask) := hothers
  refine ⟨?_, ⟨(ledger tenantId inputs).rounds, (ledger tenantId inputs).current, htasks, h.batches,
    ?_⟩, h.others.trans hothers, ?_⟩
  · rw [h.batches, h.count, ← htasks, Ledger.tasks, List.length_append, List.length_flatten,
      List.map_map]
    rfl
  · rw [h.count, h.latest]
    rfl
  · have hnext : Accounts tenantId _ (sessionStep s (.tick none)) := accounts_step h rfl
    have hheld : (sessionStep s (.tick none)).otherBatch = [] := by
      rw [sessionStep, if_pos h.isOpen]
      rfl
    have hsent := hnext.others
    rw [hheld, List.append_nil] at hsent
    rw [hsent, ← hothers]
    exact (ledger tenantId inputs).close_others

theorem session_accounts_sample :
    let update : EventPayload := .taskUpdate "t1" "tasks.add" "SUCCESS" "default" "w1" none .zero
    let inputs : List Input := [.event ⟨7, update⟩, .tick none, .event ⟨7, update⟩]
    (batches (run sessionStep (openSession 7) inputs).sent).map Prod.fst = [1] ∧
      ((batches (run sessionStep (openSession 7) inputs).sent).map Prod.fst).sum +
          (run sessionStep (openSession 7) inputs).taskCount =
        ((arrivals 7 (openSession 7).subscriptions inputs).filter (·.isTask)).length := by
  intro update inputs
  have hsmooth : ∀ input ∈ inputs, input.Smooth := by
    intro input hinput
    simp only [inputs, List.mem_cons, List.not_mem_nil, or_false] at hinput
    rcases hinput with rfl | rfl | rfl
    · trivial
    · rfl
    · trivial
  exact ⟨rfl, (session_accounts 7 inputs hsmooth).1⟩

end Feloxi.Ws
