import Feloxi.Lib.F64
import Feloxi.Redis.WorkerGauge
import Mathlib.Data.List.Chain
import Mathlib.Data.List.Sort

/-!
# Feloxi.Redis.WorkerHealth

The health of the workers (`worker_health` in `crates/api/src/routes/workers.rs`): what is left of a
heartbeat key in Redis, and the largest gap between the heartbeats that were kept in ClickHouse. Only
one heartbeat of a worker is kept for thirty seconds (`should_sample_heartbeat`), so the gaps that
are seen are not those of the worker.
-/

namespace Feloxi.Redis

open Prometheus (SetOrder)

/-! ### Sampling -/

/-- `SET NX EX`, and whether the key was set. -/
def Db.setNx (db : Db) (key value : String) (ex : Int) : Db × Bool :=
  if db.live key then (db, false) else (db.exec (.set key value (some ex)), true)

/-- `should_sample_heartbeat`. -/
def Db.shouldSampleHeartbeat (db : Db) (tenant : Uuid) (worker : String) : Db × Bool :=
  db.setNx (workerHbSampled tenant worker) "1" 30

/-- A heartbeat in `worker_events`, at a second. -/
structure HeartbeatRow where
  tenant : Uuid
  worker : String
  timestamp : Int
  loadAvg : List F64
  activeTasks : Nat

/-- Redis and the heartbeats that were kept, the newest last. -/
structure Beats where
  db : Db
  rows : List HeartbeatRow

inductive BeatEvent where
  /-- A heartbeat: the JSON of the state and the time of the last command, as in
  `WorkerCall.setWorkerState`, and what goes into the row. -/
  | heartbeat (tenant : Uuid) (worker json lastSeen : String) (loadAvg : List F64) (activeTasks : Nat)
  /-- Any other event of a worker. -/
  | call (call : WorkerCall)
  | pass (secs : Nat)

/-- Steps 2 and 3 of `ingest_raw_worker_events`, for one event. -/
def Beats.happen (b : Beats) : BeatEvent → Beats
  | .heartbeat tenant worker json lastSeen loadAvg activeTasks =>
    let sampled := b.db.shouldSampleHeartbeat tenant worker
    { db := sampled.1.happen (.call (.setWorkerState tenant worker json lastSeen))
      rows := if sampled.2 then b.rows ++ [⟨tenant, worker, b.db.now, loadAvg, activeTasks⟩]
        else b.rows }
  | .call call => { b with db := b.db.happen (.call call) }
  | .pass secs => { b with db := b.db.happen (.pass secs) }

def Beats.start (now : Int) : Beats := ⟨.start now, []⟩

def Beats.after (now : Int) (history : List BeatEvent) : Beats :=
  history.foldl Beats.happen (.start now)

/-! ### Reading -/

/-- `TTL`: -2 without a key, -1 for a key that does not expire. -/
def Db.ttl (db : Db) (key : String) : Int :=
  if db.live key then
    match db.strings key with
    | some (_, some expiry) => expiry - db.now
    | _ => -1
  else -2

/-- `get_heartbeat_ttls`. -/
def getHeartbeatTtls (db : Db) (tenant : Uuid) (workers : List String) : List (String × Int) :=
  workers.map fun worker => (worker, db.ttl (workerHeartbeat tenant worker))

/-- The gaps of a list of seconds. -/
def gaps (seconds : List Int) : List Int := List.zipWith (fun a b => b - a) seconds seconds.tail

/-- `WorkerHeartbeatHealthRow`. -/
structure WorkerHeartbeatHealthRow where
  workerId : String
  lastHeartbeat : Int
  heartbeatCount : Nat
  maxGapSecs : Int
  avgGapSecs : F64
  loadAvg : F64
  activeTasks : Nat

/-- The kept heartbeats of a worker in the last hours. -/
def heartbeatsOf (b : Beats) (tenant : Uuid) (hours : Nat) (worker : String) : List HeartbeatRow :=
  b.rows.filter fun r => r.tenant = tenant ∧ r.worker = worker ∧ b.db.now - 3600 * hours ≤ r.timestamp

/-- `arraySort(groupArray(timestamp))`. -/
def sortedSeconds (rows : List HeartbeatRow) : List Int :=
  (rows.map (·.timestamp)).insertionSort (· ≤ ·)

/-- `get_worker_heartbeat_health`, for one worker; nothing if it has no row. The latest row is one
with the greatest timestamp. -/
def heartbeatHealth (latest : List HeartbeatRow → Option HeartbeatRow) (b : Beats) (tenant : Uuid)
    (hours : Nat) (worker : String) : Option WorkerHeartbeatHealthRow :=
  let rows := heartbeatsOf b tenant hours worker
  (latest rows).map fun last =>
    let between := gaps (sortedSeconds rows)
    { workerId := worker
      lastHeartbeat := last.timestamp
      heartbeatCount := rows.length
      maxGapSecs := between.foldl max 0
      avgGapSecs := if between = [] then .zero
        else (F64.fin between.sum).div (.ofNat between.length)
      loadAvg := last.loadAvg.headD .zero
      activeTasks := last.activeTasks }

inductive Health where
  | offline
  | degraded
  | healthy
  deriving DecidableEq

/-- `WorkerHealthRow`. -/
structure WorkerHealthRow where
  workerId : String
  heartbeatTtl : Int
  /-- In milliseconds. -/
  lastHeartbeat : Option Int
  heartbeatCount : Nat
  maxGapSecs : Int
  avgGapSecs : F64
  loadAvg : F64
  activeTasks : Nat
  status : Health

def degradedTtlThreshold : Int := 30

def degradedGapThreshold : Int := 90

def healthOf (ttl maxGap : Int) : Health :=
  if ttl ≤ 0 then .offline
  else if ttl < degradedTtlThreshold ∨ maxGap > degradedGapThreshold then .degraded
  else .healthy

/-- `worker_health`; the lookback is a day at most. -/
def workerHealth (order : SetOrder) (latest : List HeartbeatRow → Option HeartbeatRow) (b : Beats)
    (tenant : Uuid) (hours : Option Nat) : List WorkerHealthRow :=
  let hours := max 1 (min (hours.getD 1) 24)
  (getHeartbeatTtls b.db tenant (order.members (b.db.onlineWorkers tenant))).map fun e =>
    let ch := heartbeatHealth latest b tenant hours e.1
    let maxGap := (ch.map (·.maxGapSecs)).getD 0
    { workerId := e.1
      heartbeatTtl := e.2
      lastHeartbeat := ch.map fun c => c.lastHeartbeat * 1000
      heartbeatCount := (ch.map (·.heartbeatCount)).getD 0
      maxGapSecs := maxGap
      avgGapSecs := (ch.map (·.avgGapSecs)).getD .zero
      loadAvg := (ch.map (·.loadAvg)).getD .zero
      activeTasks := (ch.map (·.activeTasks)).getD 0
      status := healthOf e.2 maxGap }

/-! ### A worker that keeps beating -/

/-- The seconds since the last heartbeat. -/
def beatStep (tenant : Uuid) (worker : String) (age : Option Nat) : BeatEvent → Option Nat
  | .heartbeat tenant' worker' _ _ _ _ => if tenant = tenant' ∧ worker = worker' then some 0 else age
  | .call _ => age
  | .pass secs => age.map (· + secs)

def beatAge (history : List BeatEvent) (tenant : Uuid) (worker : String) : Option Nat :=
  history.foldl (beatStep tenant worker) none

/-- The worker of a call. -/
def WorkerCall.subject : WorkerCall → Uuid × String
  | setWorkerState tenant worker _ _ => (tenant, worker)
  | setWorkerOffline tenant worker => (tenant, worker)

/-- A heartbeat of the worker comes at most a minute after the one before, and no other event of it
comes. -/
def InBeat (tenant : Uuid) (worker : String) (age : Option Nat) : BeatEvent → Prop
  | .heartbeat tenant' worker' _ _ _ _ => tenant = tenant' ∧ worker = worker' → ∀ a ∈ age, a ≤ 60
  | .call call => call.subject ≠ (tenant, worker)
  | .pass _ => True

def Steady (history : List BeatEvent) (tenant : Uuid) (worker : String) : Prop :=
  Runs.AllSteps (beatStep tenant worker) (InBeat tenant worker) none history

/-! ### Keys -/

variable {tenant tenant' : Uuid} {worker worker' : String}

theorem hbSampled_inj : workerHbSampled tenant worker = workerHbSampled tenant' worker' ↔
    tenant = tenant' ∧ worker = worker' := by
  constructor
  · intro h
    have hpair : (tenant, worker) = (tenant', worker') := Fn.run_injective .workerHbSampled h
    exact Prod.mk.inj hpair
  · rintro ⟨rfl, rfl⟩
    rfl

theorem heartbeat_ne_hbSampled : workerHeartbeat tenant worker ≠ workerHbSampled tenant' worker' :=
  @Fn.run_ne .workerHeartbeat .workerHbSampled (by decide) (tenant, worker) (tenant', worker')

theorem hbSampled_ne_state : workerHbSampled tenant worker ≠ workerState tenant' worker' :=
  @Fn.run_ne .workerHbSampled .workerState (by decide) (tenant, worker) (tenant', worker')

theorem hbSampled_ne_lastSeen : workerHbSampled tenant worker ≠ workersLastSeen tenant' :=
  @Fn.run_ne .workerHbSampled .workersLastSeen (by decide) (tenant, worker) tenant'

/-- No call of a worker touches the keys of the samples. -/
theorem hbSampled_call (db : Db) (call : WorkerCall) :
    (db.happen (.call call)).strings (workerHbSampled tenant worker) =
      db.strings (workerHbSampled tenant worker) := by
  cases call with
  | setWorkerState tenant' worker' json lastSeen =>
      simp only [Db.happen, WorkerCall.commands, List.foldl_cons, List.foldl_nil, Db.exec]
      rw [Function.update_of_ne hbSampled_ne_lastSeen,
        Function.update_of_ne heartbeat_ne_hbSampled.symm,
        Function.update_of_ne hbSampled_ne_state]
  | setWorkerOffline tenant' worker' =>
      simp only [Db.happen, WorkerCall.commands, List.foldl_cons, List.foldl_nil, Db.exec]
      rw [Function.update_of_ne heartbeat_ne_hbSampled.symm,
        Function.update_of_ne hbSampled_ne_state]

/-! ### A sample -/

theorem setNx_of_live {db : Db} {key value : String} {ex : Int} (h : db.live key = true) :
    db.setNx key value ex = (db, false) := by
  simp [Db.setNx, h]

theorem setNx_of_dead {db : Db} {key value : String} {ex : Int} (h : db.live key = false) :
    db.setNx key value ex = (db.exec (.set key value (some ex)), true) := by
  simp [Db.setNx, h]

/-- What a sample leaves as it was. -/
theorem shouldSample_frame (db : Db) (tenant' : Uuid) (worker' : String) :
    (db.shouldSampleHeartbeat tenant' worker').1.now = db.now ∧
      (db.shouldSampleHeartbeat tenant' worker').1.sets = db.sets ∧
      ∀ key, key ≠ workerHbSampled tenant' worker' →
        (db.shouldSampleHeartbeat tenant' worker').1.strings key = db.strings key := by
  rw [Db.shouldSampleHeartbeat]
  cases hlive : db.live (workerHbSampled tenant' worker') with
  | true =>
      rw [setNx_of_live hlive]
      exact ⟨rfl, rfl, fun _ _ => rfl⟩
  | false =>
      rw [setNx_of_dead hlive]
      exact ⟨rfl, rfl, fun key hkey => Function.update_of_ne hkey _ _⟩

theorem recorded_shouldSample {db : Db} {age : Option Nat} (h : Recorded db tenant worker age)
    (tenant' : Uuid) (worker' : String) :
    Recorded (db.shouldSampleHeartbeat tenant' worker').1 tenant worker age := by
  obtain ⟨hnow, hsets, hstrings⟩ := shouldSample_frame db tenant' worker'
  refine ⟨?_, ?_⟩
  · rw [hstrings _ heartbeat_ne_hbSampled, hnow]
    exact h.heartbeat
  · rw [Db.onlineWorkers, hsets]
    exact h.online

/-! ### The invariant -/

/-- The seconds of the kept heartbeats of a worker. -/
def secondsOf (b : Beats) (tenant : Uuid) (worker : String) : List Int :=
  (b.rows.filter fun r => r.tenant = tenant ∧ r.worker = worker).map (·.timestamp)

/-- Two kept heartbeats in a row. -/
def Near (x y : Int) : Prop := x ≤ y ∧ y ≤ x + 90

/-- The keys and the rows of a steady worker. The last heartbeat came less than thirty seconds after
the last one that was kept. -/
structure Kept (b : Beats) (tenant : Uuid) (worker : String) (age : Option Nat) : Prop where
  recorded : Recorded b.db tenant worker age
  near : (secondsOf b tenant worker).IsChain Near
  none : age = none → b.db.strings (workerHbSampled tenant worker) = none ∧
    secondsOf b tenant worker = []
  last : ∀ a ∈ age, ∃ s before, b.db.strings (workerHbSampled tenant worker) =
      some ("1", some (s + 30)) ∧ secondsOf b tenant worker = before ++ [s] ∧
    s ≤ b.db.now - a ∧ b.db.now - a < s + 30

theorem kept_start (now : Int) (tenant : Uuid) (worker : String) :
    Kept (.start now) tenant worker none where
  recorded := recorded_start now tenant worker
  near := by simp [secondsOf, Beats.start]
  none _ := ⟨rfl, rfl⟩
  last := by simp

theorem Kept.pass {b : Beats} {age : Option Nat} (h : Kept b tenant worker age) (secs : Nat) :
    Kept (b.happen (.pass secs)) tenant worker (age.map (· + secs)) where
  recorded := h.recorded.happen (.pass secs)
  near := h.near
  none hnone := h.none (by simpa using hnone)
  last a ha := by
    obtain ⟨since, hsince, rfl⟩ := Option.mem_map.1 ha
    obtain ⟨s, before, hkey, hseconds, hle, hlt⟩ := h.last since hsince
    have hnow : (b.happen (.pass secs)).db.now = b.db.now + secs := rfl
    refine ⟨s, before, hkey, hseconds, ?_, ?_⟩
    · rw [hnow]
      omega
    · rw [hnow]
      omega

/-- A call of another worker. -/
theorem Kept.call {b : Beats} {age : Option Nat} (h : Kept b tenant worker age) {call : WorkerCall}
    (hother : call.subject ≠ (tenant, worker)) :
    Kept (b.happen (.call call)) tenant worker age := by
  have hage : ageStep tenant worker age (.call call) = age := by
    cases call with
    | setWorkerState tenant' worker' json lastSeen =>
        exact if_neg fun heq => hother (by rw [heq.1, heq.2]; rfl)
    | setWorkerOffline tenant' worker' =>
        exact if_neg fun heq => hother (by rw [heq.1, heq.2]; rfl)
  have hkey : (b.db.happen (.call call)).strings (workerHbSampled tenant worker) =
      b.db.strings (workerHbSampled tenant worker) := hbSampled_call b.db call
  have hnow := now_happen_call b.db call
  refine ⟨hage ▸ h.recorded.happen (.call call), h.near, fun hnone => ?_, fun a ha => ?_⟩
  · exact ⟨hkey.trans (h.none hnone).1, (h.none hnone).2⟩
  · obtain ⟨s, before, hset, hseconds, hle, hlt⟩ := h.last a ha
    exact ⟨s, before, hkey.trans hset, hseconds, hnow.symm ▸ hle, hnow.symm ▸ hlt⟩

variable {json lastSeen : String} {loadAvg : List F64} {activeTasks : Nat}

/-- A heartbeat of another worker. -/
theorem Kept.other {b : Beats} {age : Option Nat} (h : Kept b tenant worker age)
    (hother : ¬ (tenant = tenant' ∧ worker = worker')) :
    Kept (b.happen (.heartbeat tenant' worker' json lastSeen loadAvg activeTasks)) tenant worker
      age := by
  have hage : ageStep tenant worker age (.call (.setWorkerState tenant' worker' json lastSeen)) =
      age := if_neg hother
  have hrecorded := (recorded_shouldSample h.recorded tenant' worker').happen
    (.call (.setWorkerState tenant' worker' json lastSeen))
  obtain ⟨hnow, -, hstrings⟩ := shouldSample_frame b.db tenant' worker'
  have hkey : (b.happen (.heartbeat tenant' worker' json lastSeen loadAvg activeTasks)).db.strings
      (workerHbSampled tenant worker) = b.db.strings (workerHbSampled tenant worker) := by
    rw [Beats.happen, hbSampled_call]
    exact hstrings _ fun heq => hother (hbSampled_inj.1 heq)
  have hclock : (b.happen (.heartbeat tenant' worker' json lastSeen loadAvg activeTasks)).db.now =
      b.db.now := (now_happen_call _ _).trans hnow
  have hseconds : secondsOf (b.happen (.heartbeat tenant' worker' json lastSeen loadAvg activeTasks))
      tenant worker = secondsOf b tenant worker := by
    simp only [secondsOf, Beats.happen]
    split
    · have hrow : ¬ (tenant' = tenant ∧ worker' = worker) := fun heq =>
        hother ⟨heq.1.symm, heq.2.symm⟩
      simp [hrow]
    · rfl
  refine ⟨hage ▸ hrecorded, hseconds ▸ h.near, fun hnone => ?_, fun a ha => ?_⟩
  · rw [hkey, hseconds]
    exact h.none hnone
  · rw [hkey, hseconds, hclock]
    exact h.last a ha

/-- The heartbeat is kept. -/
theorem beats_sampled {b : Beats} (hdead : b.db.live (workerHbSampled tenant worker) = false) :
    (b.happen (.heartbeat tenant worker json lastSeen loadAvg activeTasks)).db.strings
        (workerHbSampled tenant worker) = some ("1", some (b.db.now + 30)) ∧
      secondsOf (b.happen (.heartbeat tenant worker json lastSeen loadAvg activeTasks)) tenant
        worker = secondsOf b tenant worker ++ [b.db.now] := by
  simp only [Beats.happen, Db.shouldSampleHeartbeat, setNx_of_dead hdead, if_true]
  refine ⟨?_, by simp [secondsOf]⟩
  rw [hbSampled_call]
  exact Function.update_self _ _ _

/-- The heartbeat is not kept. -/
theorem beats_throttled {b : Beats} (hlive : b.db.live (workerHbSampled tenant worker) = true) :
    (b.happen (.heartbeat tenant worker json lastSeen loadAvg activeTasks)).db.strings
        (workerHbSampled tenant worker) = b.db.strings (workerHbSampled tenant worker) ∧
      secondsOf (b.happen (.heartbeat tenant worker json lastSeen loadAvg activeTasks)) tenant
        worker = secondsOf b tenant worker := by
  simp only [Beats.happen, Db.shouldSampleHeartbeat, setNx_of_live hlive]
  exact ⟨hbSampled_call _ _, rfl⟩

/-- **A heartbeat** in time. -/
theorem Kept.beat {b : Beats} {age : Option Nat} (h : Kept b tenant worker age)
    (hin : ∀ a ∈ age, a ≤ 60) :
    Kept (b.happen (.heartbeat tenant worker json lastSeen loadAvg activeTasks)) tenant worker
      (some 0) := by
  have hage : ageStep tenant worker age (.call (.setWorkerState tenant worker json lastSeen)) =
      some 0 := if_pos ⟨rfl, rfl⟩
  have hrecorded := (recorded_shouldSample h.recorded tenant worker).happen
    (.call (.setWorkerState tenant worker json lastSeen))
  rw [hage] at hrecorded
  have hclock : (b.happen (.heartbeat tenant worker json lastSeen loadAvg activeTasks)).db.now =
      b.db.now := (now_happen_call _ _).trans (shouldSample_frame b.db tenant worker).1
  cases hlive : b.db.live (workerHbSampled tenant worker) with
  | true =>
      obtain ⟨hkey, hseconds⟩ := @beats_throttled tenant worker json lastSeen loadAvg activeTasks b
        hlive
      refine ⟨hrecorded, hseconds ▸ h.near, nofun, fun a ha => ?_⟩
      cases ha
      cases age with
      | none => simp [Db.live, (h.none rfl).1] at hlive
      | some a =>
          obtain ⟨s, before, hset, hlast, hle, hlt⟩ := h.last a rfl
          have hbefore : b.db.now < s + 30 := by simpa [Db.live, hset] using hlive
          refine ⟨s, before, hkey.trans hset, hseconds.trans hlast, ?_, ?_⟩
          · rw [hclock]
            omega
          · rw [hclock]
            omega
  | false =>
      obtain ⟨hkey, hseconds⟩ := @beats_sampled tenant worker json lastSeen loadAvg activeTasks b
        hlive
      refine ⟨hrecorded, ?_, nofun, fun a ha => ?_⟩
      · rw [hseconds]
        cases age with
        | none =>
            rw [(h.none rfl).2]
            exact List.isChain_singleton _
        | some a =>
            obtain ⟨s, before, hset, hlast, hle, hlt⟩ := h.last a rfl
            have hin := hin a rfl
            rw [hlast]
            refine List.isChain_append.2 ⟨hlast ▸ h.near, List.isChain_singleton _, ?_⟩
            intro x hx y hy
            simp at hx hy
            subst hx hy
            exact ⟨by omega, by omega⟩
      · cases ha
        refine ⟨b.db.now, _, hkey, hseconds, ?_, ?_⟩
        · rw [hclock]
          omega
        · rw [hclock]
          omega

/-- **One event** of a steady history. -/
theorem Kept.happen {b : Beats} {age : Option Nat} (h : Kept b tenant worker age)
    {event : BeatEvent} (hin : InBeat tenant worker age event) :
    Kept (b.happen event) tenant worker (beatStep tenant worker age event) := by
  cases event with
  | pass secs => exact h.pass secs
  | call call => exact h.call hin
  | heartbeat tenant' worker' json lastSeen loadAvg activeTasks =>
      rw [beatStep]
      split
      · obtain ⟨rfl, rfl⟩ := ‹tenant = tenant' ∧ worker = worker'›
        exact h.beat (hin ⟨rfl, rfl⟩)
      · exact h.other ‹_›

/-- **A whole steady history.** -/
theorem kept_after {history : List BeatEvent} (now : Int) (h : Steady history tenant worker) :
    Kept (.after now history) tenant worker (beatAge history tenant worker) := by
  have hgo : ∀ (history : List BeatEvent) (b : Beats) (age : Option Nat),
      Kept b tenant worker age →
      Runs.AllSteps (beatStep tenant worker) (InBeat tenant worker) age history →
      Kept (history.foldl Beats.happen b) tenant worker
        (history.foldl (beatStep tenant worker) age) := by
    intro history
    induction history with
    | nil => exact fun b age hb _ => hb
    | cons event rest ih => exact fun b age hb hall => ih _ _ (hb.happen hall.1) hall.2
  exact hgo history _ _ (kept_start now tenant worker) h

/-! ### The report -/

/-- The heartbeats of a window are the last ones. -/
theorem near_filter {l : List Int} (h : l.IsChain Near) (c : Int) :
    (l.filter (c ≤ ·)).IsChain Near := by
  induction l with
  | nil => exact .nil
  | cons a l ih =>
      have hrest := ih (List.isChain_of_isChain_cons h)
      by_cases hc : c ≤ a
      · cases l with
        | nil => simp [hc]
        | cons b l =>
            obtain ⟨hab, -⟩ := List.isChain_cons_cons.1 h
            have hcb : c ≤ b := hc.trans hab.1
            simp only [List.filter_cons, hc, hcb, decide_true, if_true] at hrest ⊢
            exact List.isChain_cons_cons.2 ⟨hab, hrest⟩
      · simpa [hc] using hrest

theorem gaps_le {l : List Int} (h : l.IsChain Near) : ∀ g ∈ gaps l, g ≤ 90 := by
  induction l with
  | nil => simp [gaps]
  | cons a l ih =>
      cases l with
      | nil => simp [gaps]
      | cons b l =>
          obtain ⟨hab, hrest⟩ := List.isChain_cons_cons.1 h
          have hgaps : gaps (a :: b :: l) = (b - a) :: gaps (b :: l) := rfl
          rw [hgaps, List.forall_mem_cons]
          exact ⟨by have := hab.2; omega, ih hrest⟩

theorem foldl_max_le {l : List Int} {bound init : Int} (hinit : init ≤ bound)
    (h : ∀ g ∈ l, g ≤ bound) : l.foldl max init ≤ bound := by
  induction l generalizing init with
  | nil => exact hinit
  | cons g l ih =>
      rw [List.forall_mem_cons] at h
      exact ih (max_le hinit h.1) h.2

theorem sortedSeconds_heartbeatsOf {b : Beats} (h : (secondsOf b tenant worker).IsChain Near)
    (hours : Nat) : (sortedSeconds (heartbeatsOf b tenant hours worker)).IsChain Near := by
  have hwindow : (heartbeatsOf b tenant hours worker).map (·.timestamp) =
      (secondsOf b tenant worker).filter (b.db.now - 3600 * hours ≤ ·) := by
    rw [secondsOf, List.filter_map, heartbeatsOf, List.filter_filter]
    congr 2
    funext r
    rw [Function.comp_apply, ← Bool.decide_and, decide_eq_decide]
    tauto
  have hnear := near_filter h (b.db.now - 3600 * hours)
  have hsorted : ((secondsOf b tenant worker).filter
      (b.db.now - 3600 * hours ≤ ·)).Pairwise (· ≤ ·) := (hnear.imp fun _ _ hxy => hxy.1).pairwise
  rw [sortedSeconds, hwindow, List.Pairwise.insertionSort_eq hsorted]
  exact hnear

/-- No gap of a steady worker counts as one. -/
theorem maxGap_le {latest : List HeartbeatRow → Option HeartbeatRow} {b : Beats}
    (h : (secondsOf b tenant worker).IsChain Near) (hours : Nat) :
    ((heartbeatHealth latest b tenant hours worker).map (·.maxGapSecs)).getD 0 ≤ 90 := by
  rw [heartbeatHealth, Option.map_map]
  cases latest (heartbeatsOf b tenant hours worker) with
  | none => exact Int.ofNat_le.2 (Nat.zero_le 90)
  | some last =>
      exact foldl_max_le (by decide) (gaps_le (sortedSeconds_heartbeatsOf h hours))

theorem ttl_of_recorded {db : Db} {a : Nat} (h : Recorded db tenant worker (some a)) :
    db.ttl (workerHeartbeat tenant worker) = if a < 90 then 90 - (a : Int) else -2 := by
  have hkey := h.heartbeat
  rw [Option.map_some] at hkey
  by_cases hage : a < 90
  · have hlive : db.live (workerHeartbeat tenant worker) = true := by
      simp only [Db.live, hkey, decide_eq_true_eq]
      omega
    simp only [Db.ttl, hlive, if_true, hkey, if_pos hage]
    omega
  · have hdead : db.live (workerHeartbeat tenant worker) = false := by
      simp only [Db.live, hkey, decide_eq_false_iff_not]
      omega
    simp [Db.ttl, hdead, hage]

/-- How healthy a steady worker is that was last heard of `age` seconds ago. -/
def healthAt (age : Nat) : Health :=
  if age ≤ 60 then .healthy else if age < 90 then .degraded else .offline

/-- Two heartbeats, and then silence for more than a minute. -/
def silentHistory : List BeatEvent :=
  [.heartbeat 1 "celery@a" "" "" [] 0, .pass 45, .heartbeat 1 "celery@a" "" "" [] 0, .pass 70]

end Feloxi.Redis
