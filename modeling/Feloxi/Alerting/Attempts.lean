import Feloxi.Alerting.Keys

/-!
# Feloxi.Alerting.Attempts

The attempts to notify the channels of an incident, over the life of a deployment:
the inline sends of the firing that opened it, and the retries of its row. A process
that restarts loses its throttle and its streaks; history and queue survive.

`Incremental.step` is the induction rule: a property of the history, the queue and
the trace is kept if it is kept by what makes no attempt (`Idle`), by a raised
incident and by a popped job taken up.
-/

namespace Feloxi.Alerting

/-! ### The life of a deployment -/

/-- A restart: the maps of the process start anew. -/
def restart (w : World) : World := { w with throttle := .new, resolver := .new }

/-- A step of a process, or a restart (`none`). -/
def lifeStep (p : Platform) (w : World) : Option Step → World
  | some s => step p w s
  | none => restart w

/-- The state after a life. -/
abbrev lifetime (p : Platform) : World → List (Option Step) → World := Runs.run (lifeStep p)

theorem WellKeyed.lifeStep {p : Platform} {w : World} (h : WellKeyed w) (s : Option Step) :
    WellKeyed (lifeStep p w s) := by
  cases s with
  | some s => exact h.step s
  | none => exact ⟨h.tenants, h.rules, h.rows, h.history, h.historyIds, h.silences⟩

/-! ### Attempts -/

/-- The number of the attempt a notice belongs to, if it is one for the incident of a
row opened by a firing. -/
def Notice.attempt? (row : Uuid) (firing : Nat) : Notice → Option Nat
  | .fire firing' => if firing' = firing then some 1 else none
  | .retry row' k => if row' = row then some k else none
  | .resolved _ => none

/-- The attempts of an incident in a trace, each with its number. -/
def incidentAttempts (row : Uuid) (firing : Nat) (trace : List Event) : List (Nat × Delivery) :=
  (trace.filterMap Event.delivery?).filterMap fun d =>
    (d.notice.attempt? row firing).map fun k => (k, d)

section Attempts

variable {row : Uuid} {firing : Nat}

theorem incidentAttempts_append (trace events : List Event) :
    incidentAttempts row firing (trace ++ events) =
      incidentAttempts row firing trace ++ incidentAttempts row firing events := by
  simp only [incidentAttempts, List.filterMap_append]

/-- Events without an attempt of the incident. -/
theorem incidentAttempts_eq_nil {events : List Event}
    (h : ∀ d, .delivery d ∈ events → d.notice.attempt? row firing = none) :
    incidentAttempts row firing events = [] := by
  unfold incidentAttempts
  rw [List.filterMap_eq_nil_iff]
  intro d hd
  rw [h d (mem_deliveries.1 hd)]
  rfl

theorem incidentAttempts_append_of_none (trace : List Event) {events : List Event}
    (h : ∀ d, .delivery d ∈ events → d.notice.attempt? row firing = none) :
    incidentAttempts row firing (trace ++ events) = incidentAttempts row firing trace := by
  rw [incidentAttempts_append, incidentAttempts_eq_nil h, List.append_nil]

/-- Deliveries that are all the same attempt. -/
theorem incidentAttempts_of_all {events : List Event} {ds : List Delivery} {k : Nat}
    (hds : events.filterMap Event.delivery? = ds)
    (h : ∀ d ∈ ds, d.notice.attempt? row firing = some k) :
    incidentAttempts row firing events = ds.map fun d => (k, d) := by
  unfold incidentAttempts
  rw [hds]
  clear hds
  induction ds with
  | nil => rfl
  | cons d rest ih =>
      rw [List.filterMap_cons_some (by rw [h d List.mem_cons_self]; rfl), List.map_cons,
        ih fun d' hd' => h d' (List.mem_cons_of_mem d hd')]

theorem mem_incidentAttempts {trace : List Event} {a : Nat × Delivery} :
    a ∈ incidentAttempts row firing trace ↔
      .delivery a.2 ∈ trace ∧ a.2.notice.attempt? row firing = some a.1 := by
  unfold incidentAttempts
  rw [List.mem_filterMap]
  constructor
  · rintro ⟨d, hd, ha⟩
    obtain ⟨k, hk, rfl⟩ := Option.map_eq_some_iff.1 ha
    exact ⟨mem_deliveries.1 hd, hk⟩
  · rintro ⟨hd, hk⟩
    exact ⟨a.2, mem_deliveries.2 hd, by rw [hk]; rfl⟩

end Attempts

/-! ### What makes no attempt -/

/-- A part of a step that makes no attempt, opens no incident and queues nothing; it may
pop due jobs. -/
structure Idle (pending pending' : List DeliveryRetryJob) (w w' : World) : Prop where
  now_le : w.now ≤ w'.now
  trace : ∃ events, w'.trace = w.trace ++ events ∧
    (∀ d, .delivery d ∈ events → ∃ incident, d.notice = .resolved incident) ∧
    ∀ t r row firing, .opened t r row firing ∉ events
  historyIds : w'.historyIds = w.historyIds
  rows : ∀ h' ∈ w'.alertHistory, ∃ h ∈ w.alertHistory,
    h'.id = h.id ∧ h'.tenantId = h.tenantId ∧ h'.channelsSent = h.channelsSent
  jobs : (w'.jobs ++ pending').Subperm (w.jobs ++ pending)
  entries : ∀ e ∈ w'.deliveryRetry, e ∈ w.deliveryRetry
  due : ∀ j ∈ pending', j ∈ pending ∨
    ∃ e ∈ w.deliveryRetry, e.2 = j ∧ e.1.le (toUnixF64 w.now) = true

section Idle

variable {w w' : World}

/-- A step that leaves the queue alone. -/
theorem Idle.of_same {events : List Event} (hnow : w.now ≤ w'.now)
    (htrace : w'.trace = w.trace ++ events)
    (hevents : ∀ e ∈ events, (∀ d, e ≠ .delivery d) ∧ ∀ t r row firing, e ≠ .opened t r row firing)
    (hids : w'.historyIds = w.historyIds)
    (hrows : ∀ h' ∈ w'.alertHistory, ∃ h ∈ w.alertHistory,
      h'.id = h.id ∧ h'.tenantId = h.tenantId ∧ h'.channelsSent = h.channelsSent)
    (hqueue : w'.deliveryRetry = w.deliveryRetry) : Idle [] [] w w' where
  now_le := hnow
  trace := ⟨events, htrace, fun d hd => absurd rfl ((hevents _ hd).1 d),
    fun t r row firing hmem => (hevents _ hmem).2 t r row firing rfl⟩
  historyIds := hids
  rows := hrows
  jobs := by rw [World.jobs, hqueue]; exact .refl _
  entries e he := hqueue ▸ he
  due j hj := by cases hj

theorem Idle.of_trace_eq (hnow : w.now ≤ w'.now) (htrace : w'.trace = w.trace)
    (hids : w'.historyIds = w.historyIds)
    (hrows : ∀ h' ∈ w'.alertHistory, ∃ h ∈ w.alertHistory,
      h'.id = h.id ∧ h'.tenantId = h.tenantId ∧ h'.channelsSent = h.channelsSent)
    (hqueue : w'.deliveryRetry = w.deliveryRetry) : Idle [] [] w w' :=
  .of_same hnow (show w'.trace = w.trace ++ [] by rw [htrace, List.append_nil]) (by simp) hids hrows
    hqueue

theorem rows_of_eq (h : w'.alertHistory = w.alertHistory) :
    ∀ h' ∈ w'.alertHistory, ∃ h ∈ w.alertHistory,
      h'.id = h.id ∧ h'.tenantId = h.tenantId ∧ h'.channelsSent = h.channelsSent :=
  fun h' hh' => ⟨h', h ▸ hh', rfl, rfl, rfl⟩

/-- Closing rows leaves their logs alone. -/
theorem rows_of_closed {failed : Bool} {time : Instant} {t r : Uuid}
    (h : w'.alertHistory = closedHistory failed time t r w.alertHistory) :
    ∀ h' ∈ w'.alertHistory, ∃ h ∈ w.alertHistory,
      h'.id = h.id ∧ h'.tenantId = h.tenantId ∧ h'.channelsSent = h.channelsSent := by
  intro h' hh'
  rw [h] at hh'
  cases failed with
  | true => exact ⟨h', hh', rfl, rfl, rfl⟩
  | false =>
      obtain ⟨row, hrow, rfl⟩ := List.mem_map.1 hh'
      refine ⟨row, hrow, ?_⟩
      split <;> exact ⟨rfl, rfl, rfl⟩

theorem idle_advance (w : World) (c : Call) : Idle [] [] w (w.advance c) :=
  .of_trace_eq (World.now_le_advance w c) (by simp) (by simp) (rows_of_eq (by simp)) (by simp)

theorem SilentlyClosed.idle {env : PassEnv} {tenantId ruleId : Uuid}
    (h : SilentlyClosed env tenantId ruleId w w') : Idle [] [] w w' := by
  obtain ⟨time, -, hhistory⟩ := h.alertHistory
  exact .of_same h.waits.now_le h.trace (by simp) h.historyIds (rows_of_closed hhistory)
    h.deliveryRetry

theorem idle_fires (env : PassEnv) (tp : TenantPass) (rule : AlertRule) (w : World) :
    Idle [] [] w (fires env tp rule w) :=
  .of_same (judged_waits env tp rule true w).now_le (fires_trace ..) (by simp)
    (fires_historyIds ..) (rows_of_eq (fires_alertHistory ..)) (fires_deliveryRetry ..)

theorem idle_counts (env : PassEnv) (tp : TenantPass) (rule : AlertRule) (w : World) :
    Idle [] [] w (counts env tp rule w) :=
  .of_same (judged_waits env tp rule false w).now_le (counts_trace ..) (by simp)
    (counts_historyIds ..) (rows_of_eq (counts_alertHistory ..)) (counts_deliveryRetry ..)

theorem idle_forgets (env : PassEnv) (tp : TenantPass) (rule : AlertRule) (w : World) :
    Idle [] [] w (forgets env tp rule w) :=
  .of_same (judged_waits env tp rule false w).now_le (forgets_trace ..) (by simp)
    (forgets_historyIds ..) (rows_of_eq (forgets_alertHistory ..)) (forgets_deliveryRetry ..)

/-- Resolving sends resolved notices only. -/
theorem Resolved.idle {env : PassEnv} {tp : TenantPass} {rule : AlertRule} {alert : FiredAlert}
    {ds : List Delivery} (h : Resolved env tp rule w w' alert ds) : Idle [] [] w w' := by
  obtain ⟨time, -, hhistory⟩ := h.alertHistory
  refine ⟨h.waits.now_le, ⟨_, h.trace, fun d hd => ?_, by simp⟩, h.historyIds,
    rows_of_closed hhistory, ?_, fun e he => h.deliveryRetry ▸ he, by simp⟩
  · simp only [List.mem_cons, reduceCtorEq, false_or, List.mem_append, List.mem_map,
      Event.delivery.injEq, exists_eq_right, List.not_mem_nil, or_false] at hd
    exact ⟨_, (h.deliveries d hd).notice⟩
  · rw [World.jobs, h.deliveryRetry]
    exact .refl _

theorem Administrative.idle (h : Administrative w w') : Idle [] [] w w' :=
  .of_trace_eq h.now h.trace h.historyIds
    (fun h' hh' => ⟨h', h.alertHistory.subset hh', rfl, rfl, rfl⟩) h.deliveryRetry

theorem idle_popped (p : Platform) (env : DrainEnv) (w : World) :
    Idle [] (popped p env w).1 w (popped p env w).2 where
  now_le := (popped_waits p env w).now_le
  trace := ⟨[], by simp [popped, World.popDueDeliveryRetries], by simp, by simp⟩
  historyIds := by simp [popped, World.popDueDeliveryRetries]
  rows := rows_of_eq (by simp [popped, World.popDueDeliveryRetries])
  jobs := by
    rw [List.append_nil]
    exact popped_subperm p env w
  entries := popped_deliveryRetry p env w
  due j hj := .inr (mem_popped p env hj)

end Idle

/-! ### The induction rule -/

/-- What the induction rule asks of a property; `D` holds of the drain passes. -/
structure Incremental (D : DrainEnv → Prop) (P : List DeliveryRetryJob → World → Prop) : Prop where
  idle : ∀ pending pending' w w', P pending w → Idle pending pending' w w' → P pending' w'
  raised : ∀ env tp rule w w' alert ds row, rule.channels.Nodup → P [] w →
    Raised env tp rule w w' alert ds row → P [] w'
  retried : ∀ env job rest w w' ds, D env → P (job :: rest) w → Retried env job w w' ds → P rest w'

/-- No rule lists a channel twice. -/
def DistinctChannels (w : World) : Prop := ∀ q ∈ w.alertRules, q.channels.Nodup

instance (w : World) : Decidable (DistinctChannels w) :=
  inferInstanceAs (Decidable (∀ q ∈ w.alertRules, q.channels.Nodup))

theorem Incremental.pass {D : DrainEnv → Prop} {P : List DeliveryRetryJob → World → Prop}
    (hP : Incremental D P) {p : Platform} {env : PassEnv} {w : World} (hrules : DistinctChannels w) :
    PassInvariant p env w (P []) where
  wait v pt h := hP.idle _ _ _ _ h (idle_advance v _)
  gone tenant _ v v' r h _ hclosed := hP.idle _ _ _ _ h hclosed.idle
  rule turn _ v' h hat hstep := by
    have hnodup : turn.rule.channels.Nodup := by
      have hmem : turn.rule.config ∈ w.configs := hat.follows.configs ▸ hat.configured
      obtain ⟨q, hq, hconfig⟩ := List.mem_map.1 hmem
      have hchannels : turn.rule.channels = q.channels := (congrArg AlertRule.channels hconfig).symm
      rw [hchannels]
      exact hrules q hq
    have hfires := hP.idle _ _ _ _ h (idle_fires env turn.pass turn.rule turn.world)
    have hcounts := hP.idle _ _ _ _ h (idle_counts env turn.pass turn.rule turn.world)
    cases hstep with
    | stillFiring => exact hfires
    | throttled => exact hfires
    | waiting => exact hcounts
    | quiet => exact hP.idle _ _ _ _ h (idle_forgets env turn.pass turn.rule turn.world)
    | resolved _ _ _ hres => exact hP.idle _ _ _ _ hcounts hres.idle
    | raised _ _ _ hraised => exact hP.raised _ _ _ _ _ _ _ _ hnodup hfires hraised
  cleanup v h := hP.idle _ _ _ _ h (.of_trace_eq (Nat.le_refl _) rfl rfl (rows_of_eq rfl) rfl)

/-- **The rule.** -/
theorem Incremental.step {D : DrainEnv → Prop} {P : List DeliveryRetryJob → World → Prop}
    (hP : Incremental D P) {p : Platform} {w : World} (hkeys : WellKeyed w) (h : P [] w)
    (s : Option Step) (hrules : DistinctChannels w) (hdrain : ∀ env, s = some (.drain env) → D env) :
    P [] (lifeStep p w s) := by
  cases s with
  | none =>
      exact hP.idle _ _ _ _ h (.of_trace_eq (Nat.le_refl _) rfl rfl (rows_of_eq rfl) rfl)
  | some s =>
      rcases step_cases p w s with ⟨env, rfl⟩ | ⟨env, rfl⟩ | hadmin
      · exact runAlertEvaluation_induction (hP.pass hrules) hkeys h
      · refine drainDeliveryRetries_pending p env ?_ (fun _ => ?_) ?_
        · exact hP.idle _ _ _ _ h (idle_advance w _)
        · exact hP.idle _ _ _ _ h (idle_popped p env w)
        · intro v v' job rest ds hv hretried
          exact hP.retried env job rest v v' ds (hdrain env rfl) hv hretried
      · exact hP.idle _ _ _ _ h hadmin.idle

/-! ### The ledger -/

/-- What the queue and the trace refer to lies in the past. -/
structure Ledger (pending : List DeliveryRetryJob) (w : World) : Prop where
  jobs : ∀ j ∈ w.jobs ++ pending, j.historyId ∈ w.historyIds
  retried : ∀ d row k, .delivery d ∈ w.trace → d.notice = .retry row k → row ∈ w.historyIds
  fired : ∀ d firing, .delivery d ∈ w.trace → d.notice = .fire firing → firing < w.trace.length
  opened : ∀ t r row firing, .opened t r row firing ∈ w.trace →
    row ∈ w.historyIds ∧ firing < w.trace.length

section Ledger

variable {pending pending' : List DeliveryRetryJob} {w w' : World}

/-- A trace that begins no firing of its own and knows its rows. -/
theorem Ledger.of_events {events : List Event} (h : Ledger pending w)
    (htrace : w'.trace = w.trace ++ events) (hids : ∀ row ∈ w.historyIds, row ∈ w'.historyIds)
    (hjobs : ∀ j ∈ w'.jobs ++ pending', j.historyId ∈ w'.historyIds)
    (hretried : ∀ d row k, .delivery d ∈ events → d.notice = .retry row k → row ∈ w'.historyIds)
    (hfired : ∀ d firing, .delivery d ∈ events → d.notice = .fire firing → firing < w'.trace.length)
    (hopened : ∀ t r row firing, .opened t r row firing ∈ events →
      row ∈ w'.historyIds ∧ firing < w'.trace.length) : Ledger pending' w' := by
  have hlonger : w.trace.length ≤ w'.trace.length := by
    rw [htrace, List.length_append]
    omega
  refine ⟨hjobs, ?_, ?_, ?_⟩
  · intro d row k hd hretry
    rw [htrace] at hd
    rcases List.mem_append.1 hd with hold | hnew
    · exact hids row (h.retried d row k hold hretry)
    · exact hretried d row k hnew hretry
  · intro d firing hd hfire
    rw [htrace] at hd
    rcases List.mem_append.1 hd with hold | hnew
    · exact Nat.lt_of_lt_of_le (h.fired d firing hold hfire) hlonger
    · exact hfired d firing hnew hfire
  · intro t r row firing hmem
    rw [htrace] at hmem
    rcases List.mem_append.1 hmem with hold | hnew
    · obtain ⟨hrow, hlt⟩ := h.opened t r row firing hold
      exact ⟨hids row hrow, Nat.lt_of_lt_of_le hlt hlonger⟩
    · exact hopened t r row firing hnew

theorem Idle.incidentAttempts (h : Idle pending pending' w w') (row : Uuid) (firing : Nat) :
    incidentAttempts row firing w'.trace = incidentAttempts row firing w.trace := by
  obtain ⟨events, htrace, hresolved, -⟩ := h.trace
  rw [htrace, incidentAttempts_append_of_none]
  intro d hd
  obtain ⟨incident, hnotice⟩ := hresolved d hd
  rw [hnotice]
  rfl

theorem Idle.opened (h : Idle pending pending' w w') {t r row : Uuid} {firing : Nat}
    (hopened : .opened t r row firing ∈ w'.trace) : .opened t r row firing ∈ w.trace := by
  obtain ⟨events, htrace, -, hnone⟩ := h.trace
  rw [htrace] at hopened
  exact (List.mem_append.1 hopened).resolve_right (hnone t r row firing)

theorem Ledger.idle (h : Ledger pending w) (hidle : Idle pending pending' w w') :
    Ledger pending' w' := by
  obtain ⟨events, htrace, hresolved, hnone⟩ := hidle.trace
  refine h.of_events htrace (fun row hrow => hidle.historyIds ▸ hrow) ?_ ?_ ?_ ?_
  · intro j hj
    rw [hidle.historyIds]
    exact h.jobs j (hidle.jobs.subset hj)
  · intro d row k hd hretry
    obtain ⟨incident, hnotice⟩ := hresolved d hd
    rw [hnotice] at hretry
    cases hretry
  · intro d firing hd hfire
    obtain ⟨incident, hnotice⟩ := hresolved d hd
    rw [hnotice] at hfire
    cases hfire
  · intro t r row firing hmem
    exact absurd hmem (hnone t r row firing)

section Raised

variable {env : PassEnv} {tp : TenantPass} {rule : AlertRule} {alert : FiredAlert}
  {ds : List Delivery} {row : Option AlertHistoryRow}

/-- A raised incident, as events. -/
theorem Raised.parts (h : Raised env tp rule w w' alert ds row) :
    ∃ events, w'.trace = w.trace ++ events ∧ events.filterMap Event.delivery? = ds ∧
      (∀ d ∈ ds, d.notice = .fire w.trace.length) ∧
      ∀ t r id firing, .opened t r id firing ∈ events ↔
        t = tp.tenant.id ∧ r = rule.id ∧ firing = w.trace.length ∧ ∃ new ∈ row, new.id = id := by
  refine ⟨_, h.trace, ?_, fun d hd => (h.deliveries d hd).notice, ?_⟩
  · have hdeliveries : (ds.map Event.delivery).filterMap Event.delivery? = ds := by
      rw [List.filterMap_map]
      exact List.filterMap_some
    have hopened : (row.toList.map fun h => Event.opened tp.tenant.id rule.id h.id
        w.trace.length).filterMap Event.delivery? = [] := by
      cases row <;> rfl
    simp only [List.filterMap_append, hdeliveries, hopened, List.filterMap_cons, Event.delivery?,
      List.filterMap_nil, List.append_nil]
  · intro t r id firing
    constructor
    · intro hmem
      simp only [List.mem_append, List.mem_map, List.mem_cons, List.not_mem_nil, or_false,
        reduceCtorEq, and_false, exists_false, false_or, Event.opened.injEq,
        Option.mem_toList] at hmem
      obtain ⟨new, hnew, rfl, rfl, rfl, rfl⟩ := hmem
      exact ⟨rfl, rfl, rfl, new, hnew, rfl⟩
    · rintro ⟨rfl, rfl, rfl, new, hnew, rfl⟩
      simp only [List.mem_append, List.mem_map, Option.mem_toList]
      exact .inr (.inl ⟨new, hnew, rfl⟩)

/-- An incident opened before keeps its attempts: the firing is another. -/
theorem Raised.incidentAttempts_old (h : Raised env tp rule w w' alert ds row) {id : Uuid}
    {firing : Nat} (hfiring : firing < w.trace.length) :
    incidentAttempts id firing w'.trace = incidentAttempts id firing w.trace := by
  obtain ⟨events, htrace, hds, hnotice, -⟩ := h.parts
  rw [htrace, incidentAttempts_append_of_none]
  intro d hd
  rw [hnotice d (hds ▸ mem_deliveries.2 hd)]
  exact if_neg (by omega)

/-- The attempts of the new incident are its inline sends. -/
theorem Raised.incidentAttempts_new (h : Raised env tp rule w w' alert ds row)
    (hledger : Ledger [] w) {new : AlertHistoryRow} (hnew : new ∈ row) :
    incidentAttempts new.id w.trace.length w'.trace = ds.map fun d => (1, d) := by
  obtain ⟨events, htrace, hds, hnotice, -⟩ := h.parts
  have hpast : incidentAttempts new.id w.trace.length w.trace = [] := by
    refine incidentAttempts_eq_nil fun d hd => ?_
    cases hkind : d.notice with
    | fire firing =>
        have hlt := hledger.fired d firing hd hkind
        exact if_neg (by omega)
    | retry id k =>
        refine if_neg ?_
        rintro rfl
        exact (h.written new hnew).id (hledger.retried d new.id k hd hkind)
    | resolved incident => rfl
  rw [htrace, incidentAttempts_append, hpast, List.nil_append]
  refine incidentAttempts_of_all hds fun d hd => ?_
  rw [hnotice d hd]
  exact if_pos rfl

/-- What is open after a firing was open before, or is its incident. -/
theorem Raised.opened (h : Raised env tp rule w w' alert ds row) {t r id : Uuid} {firing : Nat}
    (hopened : .opened t r id firing ∈ w'.trace) : .opened t r id firing ∈ w.trace ∨
      t = tp.tenant.id ∧ firing = w.trace.length ∧ ∃ new ∈ row, new.id = id := by
  obtain ⟨events, htrace, -, -, hiff⟩ := h.parts
  rw [htrace] at hopened
  refine (List.mem_append.1 hopened).imp_right fun hmem => ?_
  obtain ⟨ht, -, hfiring, hnew⟩ := (hiff t r id firing).1 hmem
  exact ⟨ht, hfiring, hnew⟩

theorem Ledger.raised (h : Ledger [] w) (hraised : Raised env tp rule w w' alert ds row) :
    Ledger [] w' := by
  obtain ⟨events, htrace, hds, hnotice, hiff⟩ := hraised.parts
  have hold : ∀ id ∈ w.historyIds, id ∈ w'.historyIds := by
    intro id hid
    rw [hraised.historyIds]
    exact List.mem_append_right _ hid
  have hnew : ∀ new ∈ row, new.id ∈ w'.historyIds := by
    intro new hnew
    rw [hraised.historyIds]
    exact List.mem_append_left _ (List.mem_map_of_mem (Option.mem_toList.2 hnew))
  have hlonger : w.trace.length < w'.trace.length := by
    rw [hraised.trace]
    simp only [List.length_append, List.length_cons]
    omega
  refine h.of_events htrace hold ?_ ?_ ?_ ?_
  · intro j hj
    rw [List.append_nil] at hj
    obtain ⟨e, he, rfl⟩ := List.mem_map.1 hj
    rcases hraised.deliveryRetry e he with he | ⟨new, hmem, hof⟩
    · exact hold _ (h.jobs e.2 (List.mem_append_left _ (List.mem_map_of_mem he)))
    · rw [hof]
      exact hnew new hmem
  · intro d id k hd hretry
    rw [hnotice d (hds ▸ mem_deliveries.2 hd)] at hretry
    cases hretry
  · intro d firing hd hfire
    rw [hnotice d (hds ▸ mem_deliveries.2 hd), Notice.fire.injEq] at hfire
    omega
  · intro t r id firing hmem
    obtain ⟨-, -, rfl, new, hin, rfl⟩ := (hiff t r id firing).1 hmem
    exact ⟨hnew new hin, hlonger⟩

end Raised

section Retried

variable {env : DrainEnv} {job : DeliveryRetryJob} {rest : List DeliveryRetryJob}
  {ds : List Delivery}

theorem Retried.notice (h : Retried env job w w' ds) {d : Delivery} (hd : d ∈ ds) :
    d.notice = .retry job.historyId job.attempt := by
  obtain ⟨⟨tenant, -, hdelivers⟩, -⟩ := h.deliveries d hd
  exact hdelivers.notice

theorem deliveries_map (ds : List Delivery) :
    (ds.map Event.delivery).filterMap Event.delivery? = ds := by
  rw [List.filterMap_map]
  exact List.filterMap_some

/-- A retry is an attempt of the incident of its row. -/
theorem Retried.incidentAttempts_self (h : Retried env job w w' ds) (firing : Nat) :
    incidentAttempts job.historyId firing w'.trace =
      incidentAttempts job.historyId firing w.trace ++ ds.map fun d => (job.attempt, d) := by
  rw [h.trace, incidentAttempts_append, incidentAttempts_of_all (deliveries_map ds)]
  intro d hd
  rw [h.notice hd]
  exact if_pos rfl

theorem Retried.incidentAttempts_of_ne (h : Retried env job w w' ds) {row : Uuid}
    (hne : job.historyId ≠ row) (firing : Nat) :
    incidentAttempts row firing w'.trace = incidentAttempts row firing w.trace := by
  rw [h.trace, incidentAttempts_append_of_none]
  intro d hd
  obtain ⟨d', hd', heq⟩ := List.mem_map.1 hd
  obtain rfl := Event.delivery.inj heq
  rw [h.notice hd']
  exact if_neg hne

theorem Retried.opened (h : Retried env job w w' ds) {t r row : Uuid} {firing : Nat}
    (hopened : .opened t r row firing ∈ w'.trace) : .opened t r row firing ∈ w.trace := by
  rw [h.trace] at hopened
  refine (List.mem_append.1 hopened).resolve_right fun hmem => ?_
  simp at hmem

theorem Ledger.retry (h : Ledger (job :: rest) w) (hretried : Retried env job w w' ds) :
    Ledger rest w' := by
  have hjob : job.historyId ∈ w.historyIds := h.jobs job (by simp)
  refine h.of_events hretried.trace (fun row hrow => hretried.historyIds ▸ hrow) ?_ ?_ ?_ ?_
  · intro j hj
    rw [hretried.historyIds]
    rcases List.mem_append.1 hj with hj | hj
    · obtain ⟨e, he, rfl⟩ := List.mem_map.1 hj
      rcases hretried.deliveryRetry e he with he | hnew
      · exact h.jobs e.2 (List.mem_append_left _ (List.mem_map_of_mem he))
      · rw [hnew]
        exact hjob
    · exact h.jobs j (List.mem_append_right _ (List.mem_cons_of_mem job hj))
  · intro d row k hd hretry
    obtain ⟨d', hd', heq⟩ := List.mem_map.1 hd
    obtain rfl := Event.delivery.inj heq
    rw [hretried.notice hd', Notice.retry.injEq] at hretry
    rw [hretried.historyIds, ← hretry.1]
    exact hjob
  · intro d firing hd hfire
    obtain ⟨d', hd', heq⟩ := List.mem_map.1 hd
    obtain rfl := Event.delivery.inj heq
    rw [hretried.notice hd'] at hfire
    cases hfire
  · intro t r row firing hmem
    simp at hmem

end Retried

/-- The ledger of a deployment that begins with nothing queued. -/
theorem ledger_of_start (htrace : w.trace = []) (hqueue : w.deliveryRetry = []) : Ledger [] w := by
  refine ⟨?_, ?_, ?_, ?_⟩
  · simp [World.jobs, hqueue]
  · simp [htrace]
  · simp [htrace]
  · simp [htrace]

end Ledger

end Feloxi.Alerting
