import Feloxi.Lib.Interleavings
import Feloxi.Redis.KeySpace
import Feloxi.Redis.Workers

/-!
# Feloxi.Redis.Liveness

The commands of `set_worker_state` and `set_worker_offline` calls in any order. A live worker is
in the online set when no call is in progress, unless a late `SREM` takes out one whose heartbeat
came back (`workers_counted`).
-/

namespace Feloxi.Redis

open Interleavings

/-- Concurrent calls on one Redis, whose keys expire as time goes on. -/
def workerCalls : System Db Command WorkerCall Nat where
  program := WorkerCall.commands
  exec := Db.exec
  occur := Db.tick

abbrev Calls := Pool Db Command

abbrev CallAction := Action WorkerCall Nat

/-! ### What is ahead -/

/-- One of the commands adds the worker to the online set, or takes its heartbeat away. -/
def Settles (tenant : Uuid) (worker : String) (commands : List Command) : Prop :=
  .sadd (workersOnline tenant) worker ∈ commands ∨ .del (workerHeartbeat tenant worker) ∈ commands

/-- A call in progress still has to do so. -/
def Unsettled (p : Calls) (tenant : Uuid) (worker : String) : Prop :=
  ∃ thread ∈ p.threads, Settles tenant worker thread

/-- A worker is taken out of the online set only while its heartbeat key does not exist, or while
a call in progress will still add it again or take its heartbeat away. -/
def RemovedInTime (p : Calls) : CallAction → Prop
  | .pick i => ∀ tenant worker, p.next? i = some (.srem (workersOnline tenant) worker) →
      p.state.alive tenant worker = true → Unsettled p tenant worker
  | _ => True

/-! ### Keys -/

section

variable {tenant tenant' : Uuid} {worker worker' : String}

theorem heartbeat_inj : workerHeartbeat tenant worker = workerHeartbeat tenant' worker' ↔
    tenant = tenant' ∧ worker = worker' := by
  constructor
  · intro h
    have hpair : (tenant, worker) = (tenant', worker') := Fn.run_injective .workerHeartbeat h
    exact Prod.mk.inj hpair
  · rintro ⟨rfl, rfl⟩
    rfl

theorem online_inj : workersOnline tenant = workersOnline tenant' ↔ tenant = tenant' :=
  ⟨fun h => Fn.run_injective .workersOnline h, fun h => h ▸ rfl⟩

theorem heartbeat_ne_state : workerHeartbeat tenant worker ≠ workerState tenant' worker' :=
  @Fn.run_ne .workerHeartbeat .workerState (by decide) (tenant, worker) (tenant', worker')

theorem heartbeat_ne_lastSeen : workerHeartbeat tenant worker ≠ workersLastSeen tenant' :=
  @Fn.run_ne .workerHeartbeat .workersLastSeen (by decide) (tenant, worker) tenant'

theorem online_ne_state : workersOnline tenant ≠ workerState tenant' worker' :=
  @Fn.run_ne .workersOnline .workerState (by decide) tenant (tenant', worker')

theorem online_ne_heartbeat : workersOnline tenant ≠ workerHeartbeat tenant' worker' :=
  @Fn.run_ne .workersOnline .workerHeartbeat (by decide) tenant (tenant', worker')

end

/-! ### Commands -/

namespace Db

variable {db : Db} {tenant tenant' : Uuid} {worker worker' key value : String} {ex : Option Int}

theorem live_congr {db' : Db} (hnow : db.now = db'.now) (h : db.strings key = db'.strings key) :
    db.live key = db'.live key := by
  simp only [live, hnow, h]

theorem alive_set (h : workerHeartbeat tenant worker ≠ key) :
    (db.exec (.set key value ex)).alive tenant worker = db.alive tenant worker :=
  live_congr rfl (Function.update_of_ne h _ _)

theorem alive_del (h : workerHeartbeat tenant worker ≠ key) :
    (db.exec (.del key)).alive tenant worker = db.alive tenant worker :=
  live_congr rfl (Function.update_of_ne h _ _)

theorem alive_del_self :
    (db.exec (.del (workerHeartbeat tenant worker))).alive tenant worker = false := by
  simp only [alive, live, exec, Function.update_self]

theorem online_del (h : workersOnline tenant ≠ key) :
    (db.exec (.del key)).onlineWorkers tenant = db.onlineWorkers tenant := by
  simp only [onlineWorkers, exec, Function.update_of_ne h]

theorem mem_online_sadd :
    worker ∈ (db.exec (.sadd (workersOnline tenant') worker')).onlineWorkers tenant ↔
      (tenant = tenant' ∧ worker = worker') ∨ worker ∈ db.onlineWorkers tenant := by
  simp only [onlineWorkers, exec, Function.update_apply, online_inj]
  split
  · rename_i h
    simp [h]
  · rename_i h
    simp [h]

theorem mem_online_srem :
    worker ∈ (db.exec (.srem (workersOnline tenant') worker')).onlineWorkers tenant ↔
      ¬ (tenant = tenant' ∧ worker = worker') ∧ worker ∈ db.onlineWorkers tenant := by
  simp only [onlineWorkers, exec, Function.update_apply, online_inj]
  split
  · rename_i h
    simp [h]
  · rename_i h
    simp [h]

end Db

/-- What a thread runs next, and what it still has to run then. -/
inductive Next : Command → List Command → Prop
  | state (tenant worker value ex rest) : Next (.set (workerState tenant worker) value ex) rest
  | heartbeat (tenant worker value ex) {rest} : Settles tenant worker rest →
      Next (.set (workerHeartbeat tenant worker) value ex) rest
  | online (tenant worker rest) : Next (.sadd (workersOnline tenant) worker) rest
  | lastSeen (tenant value ex rest) : Next (.set (workersLastSeen tenant) value ex) rest
  | dropState (tenant worker rest) : Next (.del (workerState tenant worker)) rest
  | dropHeartbeat (tenant worker rest) : Next (.del (workerHeartbeat tenant worker)) rest
  | offline (tenant worker rest) : Next (.srem (workersOnline tenant) worker) rest

theorem next_of_suffix {c : Command} {rest : List Command} {call : WorkerCall}
    (h : c :: rest <:+ call.commands) : Next c rest := by
  cases call with
  | setWorkerState tenant worker json lastSeen =>
      simp only [WorkerCall.commands, List.suffix_cons_iff, List.cons.injEq, List.suffix_nil,
        reduceCtorEq, or_false] at h
      rcases h with ⟨rfl, rfl⟩ | ⟨rfl, rfl⟩ | ⟨rfl, rfl⟩ | ⟨rfl, rfl⟩
      · exact .state ..
      · exact .heartbeat _ _ _ _ (.inl List.mem_cons_self)
      · exact .online ..
      · exact .lastSeen ..
  | setWorkerOffline tenant worker =>
      simp only [WorkerCall.commands, List.suffix_cons_iff, List.cons.injEq, List.suffix_nil,
        reduceCtorEq, or_false] at h
      rcases h with ⟨rfl, rfl⟩ | ⟨rfl, rfl⟩ | ⟨rfl, rfl⟩
      · exact .dropState ..
      · exact .dropHeartbeat ..
      · exact .offline ..

/-! ### Steps -/

/-- A live worker is in the online set, or a call in progress settles it. -/
def Safe (p : Calls) (tenant : Uuid) (worker : String) : Prop :=
  p.state.alive tenant worker = true →
    worker ∈ p.state.onlineWorkers tenant ∨ Unsettled p tenant worker

section

variable {p : Calls} {tenant : Uuid} {worker : String} {before after : List (List Command)}
  {c : Command} {rest : List Command}

/-- A command that does not settle the worker leaves what is ahead. -/
theorem unsettled_of_cons (h : Settles tenant worker (c :: rest))
    (hadd : c ≠ .sadd (workersOnline tenant) worker)
    (hdel : c ≠ .del (workerHeartbeat tenant worker)) : Settles tenant worker rest := by
  refine h.imp (fun hmem => ?_) fun hmem => ?_
  · exact (List.mem_cons.1 hmem).resolve_left hadd.symm
  · exact (List.mem_cons.1 hmem).resolve_left hdel.symm

theorem Unsettled.pick {db : Db} (hthreads : p.threads = before ++ (c :: rest) :: after)
    (h : Unsettled p tenant worker) (hadd : c ≠ .sadd (workersOnline tenant) worker)
    (hdel : c ≠ .del (workerHeartbeat tenant worker)) :
    Unsettled ⟨db, before ++ rest :: after⟩ tenant worker := by
  obtain ⟨thread, hmem, hsettles⟩ := h
  rw [hthreads, List.mem_append, List.mem_cons] at hmem
  rcases hmem with hmem | rfl | hmem
  · exact ⟨thread, by simp [hmem], hsettles⟩
  · exact ⟨rest, by simp, unsettled_of_cons hsettles hadd hdel⟩
  · exact ⟨thread, by simp [hmem], hsettles⟩

theorem Safe.pick (hthreads : p.threads = before ++ (c :: rest) :: after) (hnext : Next c rest)
    (h : Safe p tenant worker)
    (hremoved : c = .srem (workersOnline tenant) worker → p.state.alive tenant worker = true →
      Unsettled p tenant worker) :
    Safe ⟨p.state.exec c, before ++ rest :: after⟩ tenant worker := by
  intro halive
  cases hnext with
  | state tenant' worker' value ex =>
      rw [Db.alive_set heartbeat_ne_state] at halive
      exact (h halive).imp_right fun hahead => hahead.pick hthreads (by simp) (by simp)
  | heartbeat tenant' worker' value ex hsettles =>
      by_cases hsame : tenant = tenant' ∧ worker = worker'
      · obtain ⟨rfl, rfl⟩ := hsame
        exact .inr ⟨rest, by simp, hsettles⟩
      · rw [Db.alive_set (mt heartbeat_inj.1 hsame)] at halive
        exact (h halive).imp_right fun hahead => hahead.pick hthreads (by simp) (by simp)
  | online tenant' worker' =>
      by_cases hsame : tenant = tenant' ∧ worker = worker'
      · exact .inl (Db.mem_online_sadd.2 (.inl hsame))
      · refine (h halive).imp (fun hmem => Db.mem_online_sadd.2 (.inr hmem)) fun hahead => ?_
        refine hahead.pick hthreads (fun heq => hsame ?_) (by simp)
        obtain ⟨hkey, hworker⟩ := Command.sadd.inj heq
        exact ⟨(online_inj.1 hkey).symm, hworker.symm⟩
  | lastSeen tenant' value ex =>
      rw [Db.alive_set heartbeat_ne_lastSeen] at halive
      exact (h halive).imp_right fun hahead => hahead.pick hthreads (by simp) (by simp)
  | dropState tenant' worker' =>
      rw [Db.alive_del heartbeat_ne_state] at halive
      refine (h halive).imp (fun hmem => ?_) fun hahead => ?_
      · exact (Db.online_del online_ne_state).symm ▸ hmem
      · refine hahead.pick hthreads (by simp) fun heq => ?_
        exact heartbeat_ne_state (Command.del.inj heq).symm
  | dropHeartbeat tenant' worker' =>
      by_cases hsame : tenant = tenant' ∧ worker = worker'
      · obtain ⟨rfl, rfl⟩ := hsame
        rw [Db.alive_del_self] at halive
        cases halive
      · rw [Db.alive_del (mt heartbeat_inj.1 hsame)] at halive
        refine (h halive).imp (fun hmem => ?_) fun hahead => ?_
        · exact (Db.online_del online_ne_heartbeat).symm ▸ hmem
        · refine hahead.pick hthreads (by simp) fun heq => hsame ?_
          obtain ⟨htenant, hworker⟩ := heartbeat_inj.1 (Command.del.inj heq)
          exact ⟨htenant.symm, hworker.symm⟩
  | offline tenant' worker' =>
      by_cases hsame : tenant = tenant' ∧ worker = worker'
      · obtain ⟨rfl, rfl⟩ := hsame
        exact .inr ((hremoved rfl halive).pick hthreads (by simp) (by simp))
      · refine (h halive).imp (fun hmem => Db.mem_online_srem.2 ⟨hsame, hmem⟩) fun hahead => ?_
        exact hahead.pick hthreads (by simp) (by simp)

end

theorem alive_of_tick {db : Db} {secs : Nat} {tenant : Uuid} {worker : String}
    (h : (db.tick secs).alive tenant worker = true) : db.alive tenant worker = true := by
  simp only [Db.alive, Db.live, Db.tick] at h ⊢
  split at h
  · rename_i expiry hstring
    have hlt := of_decide_eq_true h
    exact decide_eq_true (by omega)
  · rfl
  · cases h

theorem safe_step {p : Calls} (hcalled : p.Called workerCalls)
    (h : ∀ tenant worker, Safe p tenant worker) {action : CallAction}
    (hremoved : RemovedInTime p action) (tenant : Uuid) (worker : String) :
    Safe (workerCalls.step p action) tenant worker := by
  cases action with
  | start call =>
      intro halive
      refine (h tenant worker halive).imp_right fun hahead => ?_
      obtain ⟨thread, hmem, hsettles⟩ := hahead
      exact ⟨thread, List.mem_append_left _ hmem, hsettles⟩
  | event secs => exact fun halive => h tenant worker (alive_of_tick halive)
  | pick i =>
      cases hnext : p.next? i with
      | none =>
          rw [step_pick_of_none hnext]
          exact h tenant worker
      | some c =>
          obtain ⟨before, rest, after, hthreads, hstep⟩ :=
            step_pick_of_some workerCalls hnext
          obtain ⟨call, hsuffix⟩ := hcalled (c :: rest) (by simp [hthreads])
          rw [hstep]
          refine (h tenant worker).pick hthreads (next_of_suffix hsuffix) fun hc halive => ?_
          exact hremoved tenant worker (hc ▸ hnext) halive

theorem counted_of_safe {p : Calls} (hidle : p.Idle) {tenant : Uuid}
    (h : ∀ worker, Safe p tenant worker) : p.state.Counted tenant := by
  refine Db.counted_iff.2 fun worker halive => (h worker halive).resolve_right ?_
  rintro ⟨thread, hmem, hsettles⟩
  rw [hidle thread hmem] at hsettles
  simp [Settles] at hsettles

/-! ### A late removal -/

/-- A live worker that is not in the online set. -/
def Lost (db : Db) (tenant : Uuid) (worker : String) : Prop :=
  db.alive tenant worker = true ∧ worker ∉ db.onlineWorkers tenant

section

variable {db : Db} {tenant : Uuid} {worker : String}

theorem Lost.exec {c : Command} {rest : List Command} (hnext : Next c rest)
    (hnot : ¬ Settles tenant worker (c :: rest)) (h : Lost db tenant worker) :
    Lost (db.exec c) tenant worker := by
  obtain ⟨halive, hout⟩ := h
  cases hnext with
  | state tenant' worker' value ex => exact ⟨(Db.alive_set heartbeat_ne_state).trans halive, hout⟩
  | heartbeat tenant' worker' value ex hsettles =>
      have hother : ¬ (tenant = tenant' ∧ worker = worker') := by
        rintro ⟨rfl, rfl⟩
        exact hnot (hsettles.imp (List.mem_cons_of_mem _) (List.mem_cons_of_mem _))
      exact ⟨(Db.alive_set (mt heartbeat_inj.1 hother)).trans halive, hout⟩
  | online tenant' worker' =>
      refine ⟨halive, fun hmem => ?_⟩
      rcases Db.mem_online_sadd.1 hmem with ⟨rfl, rfl⟩ | hmem
      · exact hnot (.inl List.mem_cons_self)
      · exact hout hmem
  | lastSeen tenant' value ex => exact ⟨(Db.alive_set heartbeat_ne_lastSeen).trans halive, hout⟩
  | dropState tenant' worker' =>
      exact ⟨(Db.alive_del heartbeat_ne_state).trans halive,
        (Db.online_del online_ne_state).symm ▸ hout⟩
  | dropHeartbeat tenant' worker' =>
      have hother : ¬ (tenant = tenant' ∧ worker = worker') := by
        rintro ⟨rfl, rfl⟩
        exact hnot (.inr List.mem_cons_self)
      exact ⟨(Db.alive_del (mt heartbeat_inj.1 hother)).trans halive,
        (Db.online_del online_ne_heartbeat).symm ▸ hout⟩
  | offline tenant' worker' => exact ⟨halive, fun hmem => hout (Db.mem_online_srem.1 hmem).2⟩

theorem Lost.thread {call : WorkerCall} {thread : List Command} (hsuffix : thread <:+ call.commands)
    (hnot : ¬ Settles tenant worker thread) (h : Lost db tenant worker) :
    Lost (thread.foldl Db.exec db) tenant worker := by
  induction thread generalizing db with
  | nil => exact h
  | cons c rest ih =>
      refine ih ((List.suffix_cons c rest).trans hsuffix) ?_ (h.exec (next_of_suffix hsuffix) hnot)
      exact fun hsettles => hnot (hsettles.imp (List.mem_cons_of_mem _) (List.mem_cons_of_mem _))

theorem Lost.threads {threads : List (List Command)}
    (hcalled : ∀ thread ∈ threads, ∃ call : WorkerCall, thread <:+ call.commands)
    (hnot : ∀ thread ∈ threads, ¬ Settles tenant worker thread) (h : Lost db tenant worker) :
    Lost (threads.flatten.foldl Db.exec db) tenant worker := by
  induction threads generalizing db with
  | nil => exact h
  | cons thread threads ih =>
      obtain ⟨⟨call, hsuffix⟩, hcalled⟩ := List.forall_mem_cons.1 hcalled
      obtain ⟨hfirst, hnot⟩ := List.forall_mem_cons.1 hnot
      rw [List.flatten_cons, List.foldl_append]
      exact ih hcalled hnot (h.thread hsuffix hfirst)

end

/-- Once a live worker is removed too late, the calls in progress do not bring it back. -/
theorem exists_lost {p : Calls} (hcalled : p.Called workerCalls) {action : CallAction}
    (h : ¬ RemovedInTime p action) : ∃ picks : List CallAction,
      (workerCalls.run p (action :: picks)).Idle ∧
        ∃ tenant worker, Lost (workerCalls.run p (action :: picks)).state tenant worker := by
  cases action with
  | start call => exact absurd trivial h
  | event secs => exact absurd trivial h
  | pick i =>
      simp only [RemovedInTime, not_forall] at h
      obtain ⟨tenant, worker, hnext, halive, hsettled⟩ := h
      obtain ⟨before, rest, after, hthreads, hstep⟩ := step_pick_of_some workerCalls hnext
      have hcalled' := called_step hcalled (.pick i)
      obtain ⟨picks, hidle, hstate⟩ := exists_finish workerCalls (workerCalls.step p (.pick i))
      refine ⟨picks, hidle, tenant, worker, ?_⟩
      rw [System.run, Runs.run_cons, ← System.run, hstate]
      refine Lost.threads hcalled' (fun thread hmem hsettles => hsettled ?_) ?_
      · rw [hstep] at hmem
        simp only [List.mem_append, List.mem_cons] at hmem
        rcases hmem with hmem | rfl | hmem
        · exact ⟨thread, by simp [hthreads, hmem], hsettles⟩
        · refine ⟨.srem (workersOnline tenant) worker :: thread, by simp [hthreads], ?_⟩
          exact hsettles.imp (List.mem_cons_of_mem _) (List.mem_cons_of_mem _)
        · exact ⟨thread, by simp [hthreads, hmem], hsettles⟩
      · rw [hstep]
        exact ⟨halive, fun hmem => (Db.mem_online_srem.1 hmem).1 ⟨rfl, rfl⟩⟩

/-- If every removal is in time, every live worker is counted whenever no call is in progress; and
after one that is not, some worker is not when the calls in progress have ended. -/
theorem workers_counted (p : Calls) (hidle : p.Idle) (hcounted : ∀ tenant, p.state.Counted tenant)
    (actions : List CallAction) (hall : Runs.AllSteps workerCalls.step RemovedInTime p actions) :
    ((workerCalls.run p actions).Idle →
      ∀ tenant, (workerCalls.run p actions).state.Counted tenant) ∧
    ∀ action, ¬ RemovedInTime (workerCalls.run p actions) action →
      ∃ picks, (workerCalls.run p (actions ++ action :: picks)).Idle ∧
        ∃ tenant, ¬ (workerCalls.run p (actions ++ action :: picks)).state.Counted tenant := by
  have hinv := hall.invariant
    (fun p => p.Called workerCalls ∧ ∀ tenant worker, Safe p tenant worker)
    (fun p action h hremoved => ⟨called_step h.1 action, safe_step h.1 h.2 hremoved⟩) ?_
  · obtain ⟨hcalled, hsafe⟩ := hinv
    refine ⟨fun hdone tenant => counted_of_safe hdone (hsafe tenant), fun action hlate => ?_⟩
    obtain ⟨picks, hdone, tenant, worker, hlost⟩ := exists_lost hcalled hlate
    have hrun : workerCalls.run p (actions ++ action :: picks) =
        workerCalls.run (Runs.run workerCalls.step p actions) (action :: picks) :=
      Runs.run_append workerCalls.step p actions (action :: picks)
    refine ⟨picks, ?_⟩
    rw [hrun]
    exact ⟨hdone, tenant, fun h => hlost.2 (h.online worker hlost.1)⟩
  · constructor
    · intro thread hmem
      rw [hidle thread hmem]
      exact ⟨.setWorkerOffline 0 "", List.nil_suffix⟩
    · exact fun tenant worker halive => .inl ((hcounted tenant).online worker halive)

/-! ### Runs -/

def noWorkers : Calls := ⟨⟨0, fun _ => none, fun _ => ∅⟩, []⟩

def sampleTenant : Uuid := 0x550e8400e29b41d4a716446655440000

theorem counted_noWorkers (tenant : Uuid) : noWorkers.state.Counted tenant :=
  Db.counted_iff.2 fun _ halive => absurd halive Bool.false_ne_true

/-- A worker that goes offline and is online again between two commands of the first call. -/
def lateRemoval : List CallAction :=
  [.start (.setWorkerOffline sampleTenant "w1"), .pick 0, .pick 0,
    .start (.setWorkerState sampleTenant "w1" "\x7b\x7d" "1700000000"), .pick 1, .pick 1, .pick 1,
    .pick 1, .pick 0]

/-- It is alive and not counted. -/
theorem not_counted_lateRemoval : ¬ ∀ p : Calls, p.Idle → (∀ tenant, p.state.Counted tenant) →
    ∀ actions, (workerCalls.run p actions).Idle →
      ∀ tenant, (workerCalls.run p actions).state.Counted tenant := by
  intro h
  have hdone : (workerCalls.run noWorkers lateRemoval).Idle := by
    intro thread hmem
    have hthreads : (workerCalls.run noWorkers lateRemoval).threads = [[], []] := rfl
    simpa [hthreads] using hmem
  have hcounted := h noWorkers (by simp [Pool.Idle, noWorkers]) counted_noWorkers lateRemoval hdone
    sampleTenant
  have hmem := hcounted.online "w1" (by decide +kernel)
  exact absurd hmem (by decide +kernel)

theorem removedInTime_of_ne {p : Calls} {i : Nat} {c : Command} (hnext : p.next? i = some c)
    (hc : ∀ key member, c ≠ .srem key member) : RemovedInTime p (.pick i) := by
  intro tenant worker h
  rw [hnext] at h
  exact absurd (Option.some.inj h) (hc _ _)

theorem removedInTime_of_not_alive {p : Calls} {i : Nat} {tenant : Uuid} {worker : String}
    (hnext : p.next? i = some (.srem (workersOnline tenant) worker))
    (h : p.state.alive tenant worker = false) : RemovedInTime p (.pick i) := by
  intro tenant' worker' hnext' halive
  rw [hnext] at hnext'
  obtain ⟨hkey, rfl⟩ := Command.srem.inj (Option.some.inj hnext')
  obtain rfl := online_inj.1 hkey
  rw [h] at halive
  cases halive

/-- A worker that goes offline and is then online again. -/
def removalInTime : List CallAction :=
  [.start (.setWorkerOffline sampleTenant "w1"), .pick 0, .pick 0, .pick 0,
    .start (.setWorkerState sampleTenant "w1" "\x7b\x7d" "1700000000"), .pick 1, .pick 1, .pick 1,
    .pick 1, .event 30]

theorem workers_counted_sample :
    (workerCalls.run noWorkers removalInTime).state.Counted sampleTenant := by
  refine (workers_counted noWorkers (by simp [Pool.Idle, noWorkers]) counted_noWorkers _ ?_).1 ?_ _
  · exact ⟨trivial, removedInTime_of_ne rfl (by simp), removedInTime_of_ne rfl (by simp),
      removedInTime_of_not_alive rfl rfl, trivial, removedInTime_of_ne rfl (by simp),
      removedInTime_of_ne rfl (by simp), removedInTime_of_ne rfl (by simp),
      removedInTime_of_ne rfl (by simp), trivial, trivial⟩
  · intro thread hmem
    have hthreads : (workerCalls.run noWorkers removalInTime).threads = [[], []] := rfl
    simpa [hthreads] using hmem

end Feloxi.Redis
