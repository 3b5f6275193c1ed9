import Feloxi.Broker.QueueStats

/-!
# Feloxi.Broker.QueuePolls

The task that polls the queues of all brokers (`poll_queue_depths` in `crates/api/src/main.rs`). An
AMQP broker does not list its queues: the names that are probed come from task events and from the
depths that the poll itself put into Redis less than two minutes before.
-/

namespace Feloxi.Broker

open Prometheus (SetOrder getQueueDepths)
open Redis
open SortDedup

/-! ### One poll -/

/-- `candidate_queue_names`, from the names in the events and the depths in Redis, none of either if
the query failed. -/
def candidateQueueNames (eventNames : List String) (live : List (String × Nat)) : List String :=
  (sortDedup (eventNames ++ live.map Prod.fst)).take 100

/-- The poll of one broker, and what happens to it. -/
structure Poll where
  tenant : Uuid
  brokerType : String
  /-- `connection_url`. -/
  url : Except String String
  eventNames : List String
  /-- Redis answers `get_queue_depths`. -/
  readable : Bool
  /-- What connecting comes to. -/
  network : Network
  /-- The seconds until the broker has answered. -/
  wait : Nat
  /-- How many commands of the report of a queue have their effect. -/
  done : String → Nat

def Poll.candidates (order : SetOrder) (db : Db) (p : Poll) : List String :=
  candidateQueueNames p.eventNames
    (if p.readable then getQueueDepths order db p.tenant else [])

/-- What the broker says. -/
def Poll.stats (order : SetOrder) (db : Db) (p : Poll) : Except String (List QueueInfo) :=
  p.url.bind fun url => queueStats p.network p.brokerType url (p.candidates order db)

/-- What a poll does to Redis. -/
def Poll.events (order : SetOrder) (db : Db) (p : Poll) : List QueueEvent :=
  .pass p.wait :: match p.stats order db with
    | .ok stats => stats.map fun q => .report p.tenant q (p.done q.queueName)
    | .error _ => []

/-! ### Many polls -/

inductive PollInput where
  | poll (p : Poll)
  /-- A command of another task, on another key. -/
  | elsewhere (call : Redis.Call) (apart : ¬ OfQueues call.1) (write : Write)
  | pass (secs : Nat)

def PollInput.events (order : SetOrder) (db : Db) : PollInput → List QueueEvent
  | .poll p => p.events order db
  | .elsewhere call apart write => [.elsewhere call apart write]
  | .pass secs => [.pass secs]

def PollInput.duration : PollInput → Nat
  | .poll p => p.wait
  | .elsewhere _ _ _ => 0
  | .pass secs => secs

/-- `poll_queue_depths`, broker after broker. -/
def pollStep (order : SetOrder) (db : Db) (input : PollInput) : Db :=
  db.occurAll (input.events order db)

/-- The poll can see the queue: an AMQP broker has it, the connection lasts for all candidates, Redis
answers and keeps the report, and fewer than a hundred candidates come before the queue. -/
structure Sees (order : SetOrder) (tenant : Uuid) (queue : String) (db : Db) (p : Poll) : Prop where
  ofTenant : p.tenant = tenant
  readable : p.readable = true
  answers : ∃ url server count, p.url = .ok url ∧
    (p.brokerType = "rabbitmq" ∨ p.brokerType = "amqp") ∧ p.network.amqp url = .ok server ∧
    server.queueDeclare queue = some count ∧ 100 < server.channels
  kept : 2 ≤ p.done queue
  rank : rank queue (sortDedup (p.eventNames ++ (getQueueDepths order db tenant).map Prod.fst)) < 100

/-- Less than two minutes pass between the polls that see the queue; `unseen` seconds have passed
since the last one. -/
inductive Attended (order : SetOrder) (tenant : Uuid) (queue : String) :
    Db → Nat → List PollInput → Prop where
  | nil (db : Db) (unseen : Nat) : Attended order tenant queue db unseen []
  | seen {db : Db} {unseen : Nat} {p : Poll} {rest : List PollInput}
      (hsees : Sees order tenant queue db p) (hin : unseen + p.wait < 120)
      (hrest : Attended order tenant queue (pollStep order db (.poll p)) 0 rest) :
      Attended order tenant queue db unseen (.poll p :: rest)
  | other {db : Db} {unseen : Nat} {input : PollInput} {rest : List PollInput}
      (hin : unseen + input.duration < 120)
      (hrest : Attended order tenant queue (pollStep order db input) (unseen + input.duration) rest) :
      Attended order tenant queue db unseen (input :: rest)

/-! ### Reports in a row -/

variable {order : SetOrder} {tenant : Uuid} {queue : String}

theorem reflects_occurAll {db : Db} {last : Option (UInt64 × Nat)} {listed : Prop}
    (h : Reflects db tenant queue last listed) (events : List QueueEvent) :
    Reflects (db.occurAll events) tenant queue (events.foldl (reportStep tenant queue) last)
      ((∃ e ∈ events, e.Lists tenant queue) ∨ listed) := by
  induction events generalizing db last listed with
  | nil => simpa [Db.occurAll] using h
  | cons event rest ih =>
      have hrest := ih (h.occur event)
      refine ⟨hrest.value, hrest.active.trans ?_⟩
      simp only [List.mem_cons, exists_eq_or_imp]
      rw [or_left_comm, or_assoc]

/-- The last report is at most so old. -/
def Recent (age : Nat) (last : Option (UInt64 × Nat)) : Prop := ∃ d a, last = some (d, a) ∧ a ≤ age

theorem Recent.pass {age : Nat} {last : Option (UInt64 × Nat)} (h : Recent age last) (secs : Nat) :
    Recent (age + secs) (reportStep tenant queue last (.pass secs)) := by
  obtain ⟨d, a, rfl, hle⟩ := h
  exact ⟨d, a + secs, rfl, Nat.add_le_add_right hle secs⟩

theorem Recent.report {age : Nat} {last : Option (UInt64 × Nat)} (h : Recent age last)
    (tenant' : Uuid) (q : QueueInfo) (done : Nat) :
    Recent age (reportStep tenant queue last (.report tenant' q done)) := by
  rw [reportStep]
  split
  · exact ⟨q.depth, 0, rfl, Nat.zero_le _⟩
  · exact h

theorem Recent.reports {age : Nat} {last : Option (UInt64 × Nat)} (h : Recent age last)
    (tenant' : Uuid) (done : String → Nat) (stats : List QueueInfo) :
    Recent age ((stats.map fun q => .report tenant' q (done q.queueName)).foldl
      (reportStep tenant queue) last) := by
  induction stats generalizing last with
  | nil => exact h
  | cons q rest ih => exact ih (h.report tenant' q (done q.queueName))

/-- A report of the queue among others makes it new. -/
theorem fresh_of_mem {last : Option (UInt64 × Nat)} {done : String → Nat}
    {stats : List QueueInfo} {q : QueueInfo} (hq : q ∈ stats) (hdone : 1 ≤ done q.queueName) :
    Recent 0 ((stats.map fun q => .report tenant q (done q.queueName)).foldl
      (reportStep tenant q.queueName) last) := by
  obtain ⟨before, after, rfl⟩ := List.append_of_mem hq
  rw [List.map_append, List.map_cons, List.foldl_append, List.foldl_cons]
  refine Recent.reports ?_ tenant done after
  exact ⟨q.depth, 0, by simp [reportStep, hdone], Nat.le_refl 0⟩

/-! ### The loop -/

/-- The queue is read, with a report that is at most so old. -/
def Visible (tenant : Uuid) (queue : String) (db : Db) (age : Nat) : Prop :=
  ∃ last, Reflects db tenant queue last True ∧ Recent age last

theorem Visible.mem {db : Db} {age : Nat} (h : Visible tenant queue db age) (hage : age < 120)
    (order : SetOrder) : ∃ depth, (queue, depth) ∈ getQueueDepths order db tenant := by
  obtain ⟨last, hreflects, d, a, rfl, hle⟩ := h
  have hget := (get_of_reflects hreflects d.toNat).2 ⟨d, a, rfl, hle.trans_lt hage, rfl⟩
  refine ⟨d.toNat, ?_⟩
  rw [getQueueDepths_eq, List.mem_filterMap]
  exact ⟨queue, (order.mem _ _).2 (hreflects.active.2 trivial), by rw [hget]; rfl⟩

theorem Visible.occurAll {db : Db} {age : Nat} (h : Visible tenant queue db age)
    {events : List QueueEvent} {age' : Nat} (hfresh : ∀ last, Recent age last →
      Recent age' (events.foldl (reportStep tenant queue) last)) :
    Visible tenant queue (db.occurAll events) age' := by
  obtain ⟨last, hreflects, hlast⟩ := h
  have hafter := reflects_occurAll hreflects events
  exact ⟨_, ⟨hafter.value, hafter.active.trans (by simp)⟩, hfresh last hlast⟩

/-- Any input keeps the queue, as old as it is by then. -/
theorem Visible.step {db : Db} {age : Nat} (h : Visible tenant queue db age) (input : PollInput) :
    Visible tenant queue (pollStep order db input) (age + input.duration) := by
  refine h.occurAll fun last hlast => ?_
  cases input with
  | elsewhere call apart write => exact hlast
  | pass secs => exact @Recent.pass tenant queue age last hlast secs
  | poll p =>
      simp only [PollInput.events, Poll.events, List.foldl_cons]
      cases p.stats order db with
      | ok stats => exact (hlast.pass p.wait).reports p.tenant p.done stats
      | error e => exact hlast.pass p.wait

/-- A queue that is read is among the candidates of a poll that sees it, and so it is reported. -/
theorem exists_stats_of_sees {db : Db} {p : Poll} (hsees : Sees order tenant queue db p)
    {depth : Nat} (hread : (queue, depth) ∈ getQueueDepths order db tenant) :
    ∃ stats count, p.stats order db = .ok stats ∧ ⟨queue, count⟩ ∈ stats := by
  obtain ⟨htenant, hreadable, ⟨url, server, count, hurl, htype, hserver, hcount, hchannels⟩, -,
    hrank⟩ := hsees
  have hcandidates : p.candidates order db =
      (sortDedup (p.eventNames ++ (getQueueDepths order db tenant).map Prod.fst)).take 100 := by
    rw [Poll.candidates, hreadable, htenant]
    rfl
  have hmem : queue ∈ p.candidates order db := by
    rw [hcandidates, mem_take_iff (pairwise_sortDedup _)]
    exact ⟨by simpa using .inr ⟨depth, hread⟩, hrank⟩
  have hlength : (p.candidates order db).length < server.channels := by
    rw [hcandidates]
    exact (List.length_take_le _ _).trans_lt hchannels
  have hne : p.brokerType ≠ "redis" := by
    rcases htype with h | h <;> simp [h]
  refine ⟨amqpQueueStats server (p.candidates order db), count.toUInt64, ?_,
    mem_amqpQueueStats hmem hcount hlength⟩
  rw [Poll.stats, hurl]
  simp only [Except.bind, queueStats, if_neg hne, if_pos htype, hserver]
  rfl

theorem Visible.seen {db : Db} {age : Nat} (h : Visible tenant queue db age) (hage : age < 120)
    {p : Poll} (hsees : Sees order tenant queue db p) :
    Visible tenant queue (pollStep order db (.poll p)) 0 := by
  obtain ⟨depth, hread⟩ := h.mem hage order
  obtain ⟨stats, count, hstats, hmem⟩ := exists_stats_of_sees hsees hread
  refine h.occurAll fun last hlast => ?_
  obtain rfl := hsees.ofTenant
  simp only [PollInput.events, Poll.events, hstats, List.foldl_cons]
  exact fresh_of_mem hmem ((Nat.le_succ 1).trans hsees.kept)

/-- **A queue that was seen stays.** As long as less than two minutes pass between the polls that can
see it, a queue whose depth was reported once is read at all times, also if no event names it any
more: each poll finds it among the depths that the one before it wrote. -/
theorem attended_reads (now : Int) (history : List QueueEvent) (d : UInt64) (age : Nat)
    (inputs : List PollInput) (hlisted : ∃ e ∈ history, e.Lists tenant queue)
    (hlast : lastReport history tenant queue = some (d, age)) (hage : age < 120)
    (hattended : Attended order tenant queue (Db.occurAll (.empty now) history) age inputs) :
    ∃ depth, (queue, depth) ∈ getQueueDepths order
      (inputs.foldl (pollStep order) (Db.occurAll (.empty now) history)) tenant := by
  have hreflects := reflects_after now history tenant queue
  have hvisible : Visible tenant queue (Db.occurAll (.empty now) history) age :=
    ⟨_, ⟨hreflects.value, hreflects.active.trans (by simpa using hlisted)⟩, d, age, hlast, Nat.le_refl _⟩
  clear hreflects hlisted hlast
  generalize Db.occurAll (.empty now) history = db at *
  induction hattended with
  | nil db unseen => exact hvisible.mem hage order
  | seen hsees hin hrest ih => exact ih (by decide) (hvisible.seen hage hsees)
  | other hin hrest ih => exact ih hin (hvisible.step _)

theorem length_getQueueDepths_le (order : SetOrder) (db : Db) (tenant : Uuid) :
    (getQueueDepths order db tenant).length ≤ (db.sets (queuesActive tenant)).card := by
  have hmembers : (order.members (db.sets (queuesActive tenant))).length =
      (db.sets (queuesActive tenant)).card := by
    rw [← List.toFinset_card_of_nodup (order.nodup _)]
    exact congrArg Finset.card (by ext; simp [order.mem])
  rw [getQueueDepths_eq, ← hmembers]
  exact List.length_filterMap_le _ _

/-- With fewer than a hundred names in all, none is cut off. -/
theorem rank_lt_of_card (order : SetOrder) {db : Db} {eventNames : List String}
    (h : eventNames.length + (db.sets (queuesActive tenant)).card < 100) (queue : String) :
    rank queue (sortDedup (eventNames ++ (getQueueDepths order db tenant).map Prod.fst)) < 100 := by
  have hlive := length_getQueueDepths_le order db tenant
  have hsorted := length_sortDedup_le (eventNames ++ (getQueueDepths order db tenant).map Prod.fst)
  have hrank := List.length_filter_le (· < queue)
    (sortDedup (eventNames ++ (getQueueDepths order db tenant).map Prod.fst))
  rw [List.length_append, List.length_map] at hsorted
  rw [rank]
  omega

/-- A queue that no event names. -/
def emailsHistory : List QueueEvent := [.report 1 ⟨"emails", 3⟩ 2]

def emailsPoll : Poll where
  tenant := 1
  brokerType := "amqp"
  url := .ok "amqp://broker"
  eventNames := []
  readable := true
  network := ⟨fun _ => .error "", fun _ => .ok ⟨fun name => if name = "emails" then some 7 else none, 2047⟩⟩
  wait := 5
  done _ := 2

theorem attended_reads_emails : ∃ depth, ("emails", depth) ∈ getQueueDepths Prometheus.sortedMembers
    ([.pass 110, .poll emailsPoll].foldl (pollStep Prometheus.sortedMembers)
      (Db.occurAll (.empty 0) emailsHistory)) 1 := by
  refine attended_reads 0 emailsHistory 3 0 _ ⟨_, List.mem_singleton_self _, ?_⟩ ?_ (by decide) ?_
  · exact ⟨rfl, rfl, Nat.le_refl 2⟩
  · simp [lastReport, emailsHistory, reportStep]
  · refine .other (by decide) (.seen ⟨rfl, rfl, ⟨_, _, 7, rfl, .inr rfl, rfl, by simp, by decide⟩,
      Nat.le_refl 2, rank_lt_of_card _ ?_ _⟩ (by decide) (.nil _ _))
    simp [emailsPoll, emailsHistory, Db.occurAll, pollStep, PollInput.events, Db.occur,
      setQueueDepth, Db.exec, Db.empty, Db.tick]

end Feloxi.Broker
