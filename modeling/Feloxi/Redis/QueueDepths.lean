import Feloxi.Redis.KeySpace
import Feloxi.Views.Prometheus

/-!
# Feloxi.Redis.QueueDepths

The depths of a tenant's queues in Redis (`set_queue_depth` and `get_queue_depths` in
`crates/db/src/redis/cache.rs`), after any history of reports. A depth is read for two minutes; the
name of its queue stays in the active set for good.
-/

namespace Feloxi.Redis

open Prometheus (SetOrder getQueueDepths get)

/-! ### Commands -/

/-- `QueueInfo`. -/
structure QueueInfo where
  queueName : String
  depth : UInt64
  deriving DecidableEq

/-- `set_queue_depth`. -/
def setQueueDepth (tenant : Uuid) (q : QueueInfo) : List Command :=
  [.set (queueDepth tenant q.queueName) (toString q.depth.toNat) (some 120),
    .sadd (queuesActive tenant) q.queueName]

/-- A command without its key. -/
inductive Write where
  | set (value : String) (ex : Option Int)
  | del
  | sadd (member : String)
  | srem (member : String)

def Write.on (key : String) : Write → Command
  | set value ex => .set key value ex
  | del => .del key
  | sadd member => .sadd key member
  | srem member => .srem key member

/-- The keys that `set_queue_depth` writes. -/
def OfQueues (f : Fn) : Prop := f = .queueDepth ∨ f = .queuesActive

inductive QueueEvent where
  /-- `set_queue_depth`, of which the first `done` commands have their effect. -/
  | report (tenant : Uuid) (q : QueueInfo) (done : Nat)
  /-- A command on any other key. -/
  | elsewhere (call : Call) (apart : ¬ OfQueues call.1) (write : Write)
  | pass (secs : Nat)

def Db.occur (db : Db) : QueueEvent → Db
  | .report tenant q done => ((setQueueDepth tenant q).take done).foldl exec db
  | .elsewhere call _ write => db.exec (write.on call.key)
  | .pass secs => db.tick secs

def Db.occurAll (db : Db) (history : List QueueEvent) : Db := history.foldl Db.occur db

/-- Redis without queues. -/
def Db.empty (now : Int) : Db := ⟨now, fun _ => none, fun _ => ∅⟩

/-! ### What was reported -/

/-- The last depth of a queue that was written, and how long ago. -/
def reportStep (tenant : Uuid) (queue : String) (last : Option (UInt64 × Nat)) :
    QueueEvent → Option (UInt64 × Nat)
  | .report tenant' q done =>
    if tenant = tenant' ∧ queue = q.queueName ∧ 1 ≤ done then some (q.depth, 0) else last
  | .elsewhere _ _ _ => last
  | .pass secs => last.map fun r => (r.1, r.2 + secs)

def lastReport (history : List QueueEvent) (tenant : Uuid) (queue : String) :
    Option (UInt64 × Nat) :=
  history.foldl (reportStep tenant queue) none

/-- The event puts the queue into the active set. -/
def QueueEvent.Lists (tenant : Uuid) (queue : String) : QueueEvent → Prop
  | .report tenant' q done => tenant = tenant' ∧ queue = q.queueName ∧ 2 ≤ done
  | _ => False

/-! ### Keys -/

variable {tenant tenant' : Uuid} {queue queue' : String}

theorem queueDepth_inj :
    queueDepth tenant queue = queueDepth tenant' queue' ↔ tenant = tenant' ∧ queue = queue' := by
  constructor
  · intro h
    have hpair : (tenant, queue) = (tenant', queue') := Fn.run_injective .queueDepth h
    exact Prod.mk.inj hpair
  · rintro ⟨rfl, rfl⟩
    rfl

theorem queuesActive_inj : queuesActive tenant = queuesActive tenant' ↔ tenant = tenant' :=
  ⟨fun h => Fn.run_injective .queuesActive h, fun h => h ▸ rfl⟩

theorem queueDepth_ne_call {call : Call} (h : ¬ OfQueues call.1) :
    queueDepth tenant queue ≠ call.key :=
  Fn.run_ne (f := .queueDepth) (fun heq => h (.inl heq.symm)) (tenant, queue) call.2

theorem queuesActive_ne_call {call : Call} (h : ¬ OfQueues call.1) :
    queuesActive tenant ≠ call.key :=
  Fn.run_ne (f := .queuesActive) (fun heq => h (.inr heq.symm)) tenant call.2

/-! ### Frames -/

theorem strings_elsewhere (db : Db) {key other : String} (h : key ≠ other) (write : Write) :
    (db.exec (write.on other)).strings key = db.strings key := by
  cases write <;> simp [Write.on, Db.exec, Function.update_of_ne h]

theorem sets_elsewhere (db : Db) {key other : String} (h : key ≠ other) (write : Write) :
    (db.exec (write.on other)).sets key = db.sets key := by
  cases write <;> simp [Write.on, Db.exec, Function.update_of_ne h]

theorem now_exec (db : Db) (command : Command) : (db.exec command).now = db.now := by
  cases command <;> rfl

/-! ### After a history -/

/-- The key of a queue, by its last report, and its place in the active set. -/
structure Reflects (db : Db) (tenant : Uuid) (queue : String) (last : Option (UInt64 × Nat))
    (listed : Prop) : Prop where
  value : db.strings (queueDepth tenant queue) =
    last.map fun r => (toString r.1.toNat, some (db.now - (r.2 : Int) + 120))
  active : queue ∈ db.sets (queuesActive tenant) ↔ listed

@[simp] theorem occur_report_none (db : Db) (tenant : Uuid) (q : QueueInfo) :
    db.occur (.report tenant q 0) = db := rfl

@[simp] theorem occur_report_one (db : Db) (tenant : Uuid) (q : QueueInfo) :
    db.occur (.report tenant q 1) =
      db.exec (.set (queueDepth tenant q.queueName) (toString q.depth.toNat) (some 120)) := rfl

@[simp] theorem occur_report_all (db : Db) (tenant : Uuid) (q : QueueInfo) (done : Nat) :
    db.occur (.report tenant q (done + 2)) =
      (db.exec (.set (queueDepth tenant q.queueName) (toString q.depth.toNat) (some 120))).exec
        (.sadd (queuesActive tenant) q.queueName) := by
  simp [Db.occur, setQueueDepth]

theorem now_report (db : Db) (tenant : Uuid) (q : QueueInfo) (done : Nat) :
    (db.occur (.report tenant q done)).now = db.now := by
  rcases done with _ | _ | done
  · rfl
  · rfl
  · rw [occur_report_all]
    rfl

theorem strings_report (db : Db) (q : QueueInfo) (done : Nat) :
    (db.occur (.report tenant' q done)).strings (queueDepth tenant queue) =
      if tenant = tenant' ∧ queue = q.queueName ∧ 1 ≤ done then
        some (toString q.depth.toNat, some (db.now + 120))
      else db.strings (queueDepth tenant queue) := by
  rcases done with _ | done
  · simp
  · have hset : (db.occur (.report tenant' q (done + 1))).strings =
        Function.update db.strings (queueDepth tenant' q.queueName)
          (some (toString q.depth.toNat, some (db.now + 120))) := by
      rcases done with _ | done
      · rfl
      · rw [occur_report_all]
        rfl
    rw [hset, Function.update_apply]
    simp [queueDepth_inj]

theorem mem_active_report (db : Db) (q : QueueInfo) (done : Nat) :
    queue ∈ (db.occur (.report tenant' q done)).sets (queuesActive tenant) ↔
      (tenant = tenant' ∧ queue = q.queueName ∧ 2 ≤ done) ∨
        queue ∈ db.sets (queuesActive tenant) := by
  rcases done with _ | _ | done
  · simp
  · simp [Db.exec]
  · have hset : (db.occur (.report tenant' q (done + 2))).sets =
        Function.update db.sets (queuesActive tenant')
          (insert q.queueName (db.sets (queuesActive tenant'))) := by
      rw [occur_report_all]
      rfl
    rw [hset, Function.update_apply]
    by_cases htenant : tenant = tenant'
    · subst htenant
      simp
    · simp [htenant, queuesActive_inj]

/-- **One event.** -/
theorem Reflects.occur {db : Db} {last : Option (UInt64 × Nat)} {listed : Prop}
    (h : Reflects db tenant queue last listed) (event : QueueEvent) :
    Reflects (db.occur event) tenant queue (reportStep tenant queue last event)
      (event.Lists tenant queue ∨ listed) := by
  cases event with
  | elsewhere call apart write =>
      refine ⟨?_, ?_⟩
      · rw [Db.occur, strings_elsewhere db (queueDepth_ne_call apart), now_exec]
        exact h.value
      · rw [Db.occur, sets_elsewhere db (queuesActive_ne_call apart)]
        simpa [QueueEvent.Lists] using h.active
  | pass secs =>
      refine ⟨?_, h.active.trans (by simp [QueueEvent.Lists])⟩
      show db.strings _ = _
      rw [h.value]
      cases last with
      | none => rfl
      | some r =>
          have hshift : db.now - (r.2 : Int) = db.now + (secs : Int) - ((r.2 + secs : Nat) : Int) := by
            omega
          simp only [reportStep, Option.map_some, Db.occur, Db.tick, hshift]
  | report tenant' q done =>
      refine ⟨?_, ?_⟩
      · rw [strings_report, reportStep, now_report]
        split
        · simp
        · exact h.value
      · rw [mem_active_report, h.active]
        rfl

theorem reflects_empty (now : Int) (tenant : Uuid) (queue : String) :
    Reflects (.empty now) tenant queue none False :=
  ⟨rfl, by simp [Db.empty]⟩

/-- **A whole history.** -/
theorem reflects_after (now : Int) (history : List QueueEvent) (tenant : Uuid) (queue : String) :
    Reflects (Db.occurAll (.empty now) history) tenant queue (lastReport history tenant queue)
      (∃ e ∈ history, e.Lists tenant queue) := by
  induction history using List.reverseRecOn with
  | nil => simpa [lastReport, Db.occurAll] using reflects_empty now tenant queue
  | append_singleton history event ih =>
      have hstep := ih.occur event
      rw [Db.occurAll, List.foldl_append, lastReport, List.foldl_append]
      refine ⟨hstep.value, hstep.active.trans ?_⟩
      simp only [List.mem_append, List.mem_singleton]
      constructor
      · rintro (h | ⟨e, he, h⟩)
        · exact ⟨event, .inr rfl, h⟩
        · exact ⟨e, .inl he, h⟩
      · rintro ⟨e, he | rfl, h⟩
        · exact .inr ⟨e, he, h⟩
        · exact .inl h

/-! ### Reads -/

theorem parseU64_of_digits {digits : List Char} (hne : digits ≠ [])
    (hall : ∀ c ∈ digits, c.isDigit = true) (hlt : Nat.ofDigitChars 10 digits 0 < 2 ^ 64) :
    parseU64 digits = some (Nat.ofDigitChars 10 digits 0) := by
  cases digits with
  | nil => exact absurd rfl hne
  | cons c rest =>
      have hplus : c ≠ '+' := by
        rintro rfl
        simpa using hall '+' List.mem_cons_self
      have hdigits : (c :: rest).all Char.isDigit = true := List.all_eq_true.2 hall
      simp [parseU64, hplus, hdigits]
      exact hlt

theorem parseU64_toString (n : UInt64) : parseU64 (toString n.toNat).toList = some n.toNat := by
  have hdigits : (toString n.toNat).toList = Nat.toDigits 10 n.toNat := by
    simp [toString, Nat.repr]
  have hparse := @parseU64_of_digits (Nat.toDigits 10 n.toNat) Nat.toDigits_ne_nil
    (fun c hc => Nat.isDigit_of_mem_toDigits (by decide) (by decide) hc)
  rw [Nat.ofDigitChars_ten_toDigits] at hparse
  rw [hdigits]
  exact hparse n.toNat_lt

theorem getQueueDepths_eq (order : SetOrder) (db : Db) (tenant : Uuid) :
    getQueueDepths order db tenant =
      (order.members (db.sets (queuesActive tenant))).filterMap fun name =>
        ((get db (queueDepth tenant name)).bind fun v => parseU64 v.toList).map fun depth =>
          (name, depth) := by
  have hzip : ∀ (names : List String) (f : String → Option String),
      names.zip (names.map f) = names.map fun name => (name, f name) := by
    intro names f
    simpa using List.zip_map' (f := id) (g := f) (l := names)
  simp only [getQueueDepths, hzip, List.filterMap_map]
  rfl

/-- What is read of a queue with a key like this. -/
theorem get_of_reflects {db : Db} {last : Option (UInt64 × Nat)} {listed : Prop}
    (h : Reflects db tenant queue last listed) (depth : Nat) :
    ((get db (queueDepth tenant queue)).bind fun v => parseU64 v.toList) = some depth ↔
      ∃ d age, last = some (d, age) ∧ age < 120 ∧ depth = d.toNat := by
  cases last with
  | none => simp [Prometheus.get, Db.live, h.value]
  | some r =>
      by_cases hage : r.2 < 120
      · have hlive : db.live (queueDepth tenant queue) = true := by
          simp only [Db.live, h.value, Option.map_some, decide_eq_true_eq]
          omega
        simp only [Prometheus.get, hlive, if_true, h.value, Option.map_some, Option.bind_some,
          parseU64_toString]
        constructor
        · rintro heq
          exact ⟨r.1, r.2, rfl, hage, (Option.some.inj heq).symm⟩
        · rintro ⟨d, age, heq, -, rfl⟩
          cases heq
          rfl
      · have hdead : db.live (queueDepth tenant queue) = false := by
          simp only [Db.live, h.value, Option.map_some, decide_eq_false_iff_not]
          omega
        simp only [Prometheus.get, hdead, Bool.false_eq_true, if_false, Option.bind_none]
        constructor
        · nofun
        · rintro ⟨d, age, heq, hlt, -⟩
          cases heq
          exact absurd hlt hage

theorem keys_filterMap {α β : Type} (f : α → Option β) (l : List α) :
    (l.filterMap fun a => (f a).map fun b => (a, b)).map Prod.fst =
      l.filter fun a => (f a).isSome := by
  induction l with
  | nil => rfl
  | cons a l ih => cases h : f a <;> simp [h, ih]

/-- **The depths that are read.** After any history, whatever other keys were written: each queue
once, with the depth that was written last, if that was less than two minutes ago and the queue was
ever put into the active set. -/
theorem getQueueDepths_after (order : SetOrder) (now : Int) (history : List QueueEvent)
    (tenant : Uuid) :
    ((getQueueDepths order (Db.occurAll (.empty now) history) tenant).map Prod.fst).Nodup ∧
      ∀ queue depth,
        (queue, depth) ∈ getQueueDepths order (Db.occurAll (.empty now) history) tenant ↔
          (∃ e ∈ history, e.Lists tenant queue) ∧
            ∃ d age, lastReport history tenant queue = some (d, age) ∧ age < 120 ∧
              depth = d.toNat := by
  rw [getQueueDepths_eq]
  constructor
  · rw [keys_filterMap]
    exact (order.nodup _).filter _
  · intro queue depth
    have hreflects := reflects_after now history tenant queue
    rw [← hreflects.active, ← get_of_reflects hreflects, ← order.mem]
    simp only [List.mem_filterMap, Option.map_eq_some_iff, Prod.mk.injEq]
    constructor
    · rintro ⟨name, hname, d, hd, rfl, rfl⟩
      exact ⟨hname, hd⟩
    · rintro ⟨hname, hd⟩
      exact ⟨queue, hname, depth, hd, rfl, rfl⟩

end Feloxi.Redis
