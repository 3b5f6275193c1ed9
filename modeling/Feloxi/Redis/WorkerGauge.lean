import Feloxi.Redis.Liveness
import Feloxi.Views.Prometheus
import Mathlib.Algebra.BigOperators.Group.List.Basic

/-!
# Feloxi.Redis.WorkerGauge

The workers that `/metrics` counts, after any history of worker events. The online set forgets a
worker only when it says that it goes offline; the heartbeat key of one that crashes expires.
-/

namespace Feloxi.Redis

open Prometheus (SetOrder TenantRow listed others workersOnlineGauge)

/-! ### Histories -/

inductive WorkerEvent where
  | call (call : WorkerCall)
  | pass (secs : Nat)

def Db.happen (db : Db) : WorkerEvent → Db
  | .call call => call.commands.foldl Db.exec db
  | .pass secs => db.tick secs

/-- Redis without workers. -/
def Db.start (now : Int) : Db := ⟨now, fun _ => none, fun _ => ∅⟩

def Db.after (now : Int) (history : List WorkerEvent) : Db := history.foldl Db.happen (.start now)

/-- How long ago the state of a worker was updated, if that is the last that happened to it. -/
def ageStep (tenant : Uuid) (worker : String) (age : Option Nat) : WorkerEvent → Option Nat
  | .call (.setWorkerState tenant' worker' _ _) =>
    if tenant = tenant' ∧ worker = worker' then some 0 else age
  | .call (.setWorkerOffline tenant' worker') =>
    if tenant = tenant' ∧ worker = worker' then none else age
  | .pass secs => age.map (· + secs)

def age (history : List WorkerEvent) (tenant : Uuid) (worker : String) : Option Nat :=
  history.foldl (ageStep tenant worker) none

/-! ### Calls -/

section

variable {db : Db} {tenant tenant' : Uuid} {worker worker' json lastSeen : String}

theorem now_happen_call (db : Db) (call : WorkerCall) : (db.happen (.call call)).now = db.now := by
  cases call <;> rfl

theorem heartbeat_setWorkerState :
    (db.happen (.call (.setWorkerState tenant' worker' json lastSeen))).strings
        (workerHeartbeat tenant worker) =
      if tenant = tenant' ∧ worker = worker' then some ("1", some (db.now + 90))
      else db.strings (workerHeartbeat tenant worker) := by
  simp only [Db.happen, WorkerCall.commands, List.foldl_cons, List.foldl_nil, Db.exec]
  rw [Function.update_of_ne heartbeat_ne_lastSeen, Function.update_apply,
    Function.update_of_ne heartbeat_ne_state]
  simp only [heartbeat_inj, Option.map_some]

theorem heartbeat_setWorkerOffline :
    (db.happen (.call (.setWorkerOffline tenant' worker'))).strings
        (workerHeartbeat tenant worker) =
      if tenant = tenant' ∧ worker = worker' then none
      else db.strings (workerHeartbeat tenant worker) := by
  simp only [Db.happen, WorkerCall.commands, List.foldl_cons, List.foldl_nil, Db.exec]
  rw [Function.update_apply, Function.update_of_ne heartbeat_ne_state]
  simp only [heartbeat_inj]

theorem online_set (db : Db) (key value : String) (ex : Option Int) (tenant : Uuid) :
    (db.exec (.set key value ex)).onlineWorkers tenant = db.onlineWorkers tenant := rfl

theorem online_setWorkerState :
    worker ∈ (db.happen (.call (.setWorkerState tenant' worker' json lastSeen))).onlineWorkers
        tenant ↔ (tenant = tenant' ∧ worker = worker') ∨ worker ∈ db.onlineWorkers tenant := by
  simp only [Db.happen, WorkerCall.commands, List.foldl_cons, List.foldl_nil]
  rw [online_set, Db.mem_online_sadd, online_set, online_set]

theorem online_setWorkerOffline :
    worker ∈ (db.happen (.call (.setWorkerOffline tenant' worker'))).onlineWorkers tenant ↔
      ¬ (tenant = tenant' ∧ worker = worker') ∧ worker ∈ db.onlineWorkers tenant := by
  simp only [Db.happen, WorkerCall.commands, List.foldl_cons, List.foldl_nil]
  rw [Db.mem_online_srem, Db.online_del online_ne_heartbeat, Db.online_del online_ne_state]

end

/-! ### After a history -/

/-- The key and the set of a worker, by its last event. -/
structure Recorded (db : Db) (tenant : Uuid) (worker : String) (age : Option Nat) : Prop where
  heartbeat : db.strings (workerHeartbeat tenant worker) =
    age.map fun a : Nat => ("1", some (db.now - (a : Int) + 90))
  online : worker ∈ db.onlineWorkers tenant ↔ age.isSome = true

theorem recorded_start (now : Int) (tenant : Uuid) (worker : String) :
    Recorded (.start now) tenant worker none :=
  ⟨rfl, by simp [Db.onlineWorkers, Db.start]⟩

theorem Recorded.happen {db : Db} {tenant : Uuid} {worker : String} {age : Option Nat}
    (h : Recorded db tenant worker age) (event : WorkerEvent) :
    Recorded (db.happen event) tenant worker (ageStep tenant worker age event) := by
  cases event with
  | pass secs =>
      have hage : (ageStep tenant worker age (.pass secs)).isSome = age.isSome := by simp [ageStep]
      refine ⟨?_, h.online.trans (by rw [hage])⟩
      show db.strings _ = _
      rw [h.heartbeat]
      cases age with
      | none => rfl
      | some a =>
          have hshift : db.now - (a : Int) = db.now + (secs : Int) - ((a + secs : Nat) : Int) := by
            omega
          simp only [ageStep, Option.map_some, Db.happen, Db.tick, hshift]
  | call call =>
      cases call with
      | setWorkerState tenant' worker' json lastSeen =>
          by_cases hsame : tenant = tenant' ∧ worker = worker'
          · refine ⟨?_, ?_⟩
            · rw [heartbeat_setWorkerState, if_pos hsame, ageStep, if_pos hsame, now_happen_call]
              simp
            · rw [online_setWorkerState, ageStep, if_pos hsame]
              simp [hsame]
          · refine ⟨?_, ?_⟩
            · rw [heartbeat_setWorkerState, if_neg hsame, ageStep, if_neg hsame, now_happen_call]
              exact h.heartbeat
            · rw [online_setWorkerState, ageStep, if_neg hsame, or_iff_right hsame]
              exact h.online
      | setWorkerOffline tenant' worker' =>
          by_cases hsame : tenant = tenant' ∧ worker = worker'
          · refine ⟨?_, ?_⟩
            · rw [heartbeat_setWorkerOffline, if_pos hsame, ageStep, if_pos hsame]
              rfl
            · rw [online_setWorkerOffline, ageStep, if_pos hsame]
              simp [hsame]
          · refine ⟨?_, ?_⟩
            · rw [heartbeat_setWorkerOffline, if_neg hsame, ageStep, if_neg hsame, now_happen_call]
              exact h.heartbeat
            · rw [online_setWorkerOffline, ageStep, if_neg hsame, and_iff_right hsame]
              exact h.online

theorem recorded_after (now : Int) (history : List WorkerEvent) (tenant : Uuid) (worker : String) :
    Recorded (.after now history) tenant worker (age history tenant worker) := by
  induction history using List.reverseRecOn with
  | nil => exact recorded_start now tenant worker
  | append_singleton history event ih =>
      rw [Db.after, List.foldl_append, age, List.foldl_append]
      exact ih.happen event

theorem alive_iff_of_recorded {db : Db} {tenant : Uuid} {worker : String} {age : Option Nat}
    (h : Recorded db tenant worker age) : db.alive tenant worker = true ↔ ∃ a ∈ age, a < 90 := by
  unfold Db.alive Db.live
  rw [h.heartbeat]
  cases age with
  | none => simp
  | some a =>
      simp
      omega

/-! ### Counts -/

/-- The worker of a call for the tenant. -/
def WorkerEvent.worker? (tenant : Uuid) : WorkerEvent → Option String
  | .call (.setWorkerState tenant' worker _ _) => if tenant = tenant' then some worker else none
  | .call (.setWorkerOffline tenant' worker) => if tenant = tenant' then some worker else none
  | .pass _ => none

def workersOf (history : List WorkerEvent) (tenant : Uuid) : Finset String :=
  (history.filterMap (WorkerEvent.worker? tenant)).toFinset

/-- The workers of a tenant whose last event is an update less than 90 seconds ago. -/
def fresh (history : List WorkerEvent) (tenant : Uuid) : Nat :=
  ((workersOf history tenant).filter fun w => (age history tenant w).any (· < 90)).card

/-- Those whose last event is an update 90 seconds ago or longer. -/
def stale (history : List WorkerEvent) (tenant : Uuid) : Nat :=
  ((workersOf history tenant).filter fun w => (age history tenant w).any (90 ≤ ·)).card

theorem mem_workersOf_of_age {history : List WorkerEvent} {tenant : Uuid} {worker : String}
    (h : (age history tenant worker).isSome = true) : worker ∈ workersOf history tenant := by
  induction history using List.reverseRecOn with
  | nil => cases h
  | append_singleton history event ih =>
      rw [age, List.foldl_append, ← age] at h
      rw [workersOf, List.filterMap_append, List.toFinset_append, Finset.mem_union]
      cases event with
      | pass secs => exact .inl (ih (by simpa [ageStep] using h))
      | call call =>
          cases call with
          | setWorkerState tenant' worker' json lastSeen =>
              by_cases hsame : tenant = tenant' ∧ worker = worker'
              · exact .inr (by simp [WorkerEvent.worker?, hsame])
              · exact .inl (ih (by simpa [ageStep, hsame] using h))
          | setWorkerOffline tenant' worker' =>
              by_cases hsame : tenant = tenant' ∧ worker = worker'
              · simp [ageStep, hsame] at h
              · exact .inl (ih (by simpa [ageStep, hsame] using h))

theorem countLiveWorkers_after (now : Int) (history : List WorkerEvent) (tenant : Uuid) :
    (Db.after now history).countLiveWorkers tenant =
      (fresh history tenant + stale history tenant, fresh history tenant) := by
  have honline : (Db.after now history).onlineWorkers tenant =
      (workersOf history tenant).filter fun w => (age history tenant w).isSome = true := by
    ext worker
    rw [Finset.mem_filter, (recorded_after now history tenant worker).online]
    exact (and_iff_right_of_imp mem_workersOf_of_age).symm
  have halive : ∀ worker, (Db.after now history).alive tenant worker = true ↔
      (age history tenant worker).any (· < 90) = true := by
    intro worker
    rw [alive_iff_of_recorded (recorded_after now history tenant worker)]
    cases age history tenant worker <;> simp
  have hsplit : ∀ o : Option Nat, o.isSome = true ↔
      o.any (· < 90) = true ∨ o.any (90 ≤ ·) = true := by
    intro o
    cases o with
    | none => simp
    | some a => simpa using Nat.lt_or_ge a 90
  have hapart : ∀ o : Option Nat, o.any (· < 90) = true → o.any (90 ≤ ·) = true → False := by
    intro o
    cases o with
    | none => simp
    | some a => simp
  refine Prod.ext ?_ ?_
  · show ((Db.after now history).onlineWorkers tenant).card = _
    rw [honline, fresh, stale, ← Finset.card_union_of_disjoint, ← Finset.filter_or]
    · refine congrArg Finset.card (Finset.filter_congr fun worker _ => hsplit _)
    · exact Finset.disjoint_filter.2 fun worker _ h h' => hapart _ h h'
  · show (((Db.after now history).onlineWorkers tenant).filter fun worker =>
      (Db.after now history).alive tenant worker = true).card = _
    rw [honline, fresh, Finset.filter_filter]
    refine congrArg Finset.card (Finset.filter_congr fun worker _ => ?_)
    rw [halive]
    exact and_iff_right_of_imp fun h => (hsplit _).2 (.inl h)

theorem counted_after (now : Int) (history : List WorkerEvent) (tenant : Uuid) :
    (Db.after now history).Counted tenant := by
  refine Db.counted_iff.2 fun worker halive => ?_
  obtain ⟨a, ha, -⟩ := (alive_iff_of_recorded (recorded_after now history tenant worker)).1 halive
  rw [(recorded_after now history tenant worker).online, Option.mem_def.1 ha]
  rfl

/-! ### The gauge -/

theorem workersOnlineGauge_eq (order : SetOrder) (db : Db) (rows : List TenantRow) :
    workersOnlineGauge order db rows =
      ((listed rows).map fun t => (db.countLiveWorkers t.id).1).sum := by
  have hlength : ∀ s : Finset String, (order.members s).length = s.card := by
    intro s
    rw [← List.toFinset_card_of_nodup (order.nodup s)]
    refine congrArg Finset.card ?_
    ext m
    rw [List.mem_toFinset, order.mem]
  have hsome : ((listed rows).map (·.id)).filterMap
      (fun id => some (Prometheus.getOnlineWorkers order db id)) =
        (listed rows).map fun t => order.members (db.onlineWorkers t.id) := by
    rw [List.filterMap_map, ← List.filterMap_eq_map']
    rfl
  rw [workersOnlineGauge, Prometheus.onlineTotal, hsome, List.map_map]
  exact congrArg List.sum (List.map_congr_left fun t _ => hlength _)

/-- The live workers of all tenants, as the alert counts them. -/
def liveWorkers (db : Db) (rows : List TenantRow) : Nat :=
  (rows.map fun t => (db.countLiveWorkers t.id).2).sum

/-- **The gauge.** After any history the workers that are counted as live are those whose heartbeat
key is, and the gauge is their number exactly if as many workers of the listed tenants have gone
stale as workers of the other tenants are fresh. -/
theorem workersOnlineGauge_eq_live_iff (order : SetOrder) (now : Int) (history : List WorkerEvent)
    (rows : List TenantRow) :
    (∀ tenant, (Db.after now history).Counted tenant) ∧
      (workersOnlineGauge order (.after now history) rows =
          liveWorkers (.after now history) rows ↔
        ((listed rows).map fun t => stale history t.id).sum =
          ((others rows).map fun t => fresh history t.id).sum) := by
  have hlive : liveWorkers (.after now history) rows =
      ((listed rows).map fun t => fresh history t.id).sum +
        ((others rows).map fun t => fresh history t.id).sum := by
    have hperm := ((Prometheus.perm_listed_others rows).map fun t => fresh history t.id).sum_eq
    rw [List.map_append, List.sum_append] at hperm
    simp only [liveWorkers, countLiveWorkers_after]
    exact hperm
  have hgauge : workersOnlineGauge order (.after now history) rows =
      ((listed rows).map fun t => fresh history t.id).sum +
        ((listed rows).map fun t => stale history t.id).sum := by
    rw [workersOnlineGauge_eq]
    simp only [countLiveWorkers_after]
    exact List.sum_map_add
  refine ⟨counted_after now history, ?_⟩
  rw [hgauge, hlive]
  omega

/-! ### A crash -/

/-- A worker that is updated once, and then says nothing for 90 seconds. -/
def crash : List WorkerEvent :=
  [.call (.setWorkerState sampleTenant "w1" "\x7b\x7d" "1700000000"), .pass 90]

def oneTenant : List TenantRow := [⟨sampleTenant, true, 1700000000⟩]

theorem workersOnline_after_crash :
    workersOnlineGauge Prometheus.sortedMembers (.after 0 crash) oneTenant = 1 ∧
      liveWorkers (.after 0 crash) oneTenant = 0 := by
  have hcount : (Db.after 0 crash).countLiveWorkers sampleTenant = (1, 0) := by
    rw [countLiveWorkers_after]
    decide
  have hlisted : listed oneTenant = oneTenant := by decide
  rw [workersOnlineGauge_eq, hlisted]
  simp [liveWorkers, oneTenant, hcount]

end Feloxi.Redis
