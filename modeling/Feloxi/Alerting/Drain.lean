import Feloxi.Alerting.Steps

/-!
# Feloxi.Alerting.Drain

What a drain pass can do to the world, in the manner of `Feloxi.Alerting.Pass`: it
pops due jobs, and each popped job is sent again at most once, its outcome
written to the delivery log of its row, and put back at most as the next attempt
of the same notice.
-/

namespace Feloxi.Alerting

/-- A history row without its delivery log. -/
def AlertHistoryRow.core (h : AlertHistoryRow) : AlertHistoryRow := { h with channelsSent := [] }

/-- The history without its delivery logs. -/
def World.coreHistory (w : World) : List AlertHistoryRow := w.alertHistory.map (·.core)

@[simp] theorem AlertHistoryRow.core_isOpenFor (h : AlertHistoryRow) (t r : Uuid) :
    h.core.isOpenFor t r = h.isOpenFor t r := rfl

/-- The open rows of a rule, without their logs, are read off the core history. -/
theorem World.openRows_core (w : World) (t r : Uuid) :
    (w.openRows t r).map (·.core) = w.coreHistory.filter (·.isOpenFor t r) := by
  rw [coreHistory, List.filter_map]
  rfl

theorem World.updateDeliveryStatus_core (w : World) (tenantId historyId : Uuid) (key : String)
    (status : ChannelDeliveryStatus) :
    (w.updateDeliveryStatus tenantId historyId key status).coreHistory = w.coreHistory := by
  simp only [coreHistory, updateDeliveryStatus, List.map_map]
  refine List.map_congr_left fun h _ => ?_
  rw [Function.comp_apply]
  split <;> rfl

/-- A call of a drain pass. -/
def DrainCall (env : DrainEnv) (c : Call) : Prop := ∃ pt, c = env pt

/-- The log entry of an outcome. -/
def SendResult.logged (r : SendResult) : ChannelDeliveryStatus :=
  { success := r.success, error := r.error }

/-- A history with the outcome of a delivery written to the log of a row. -/
def loggedHistory (tenantId historyId : Uuid) (history : List AlertHistoryRow) (d : Delivery) :
    List AlertHistoryRow :=
  history.map fun h => if h.tenantId == tenantId && h.id == historyId
    then { h with channelsSent := insertLog d.result.deliveryKey d.result.logged h.channelsSent }
    else h

/-- A popped job taken up: at most one delivery, its outcome written to the log, and at
most one job put back. -/
structure Retried (env : DrainEnv) (job : DeliveryRetryJob) (w w' : World) (ds : List Delivery) :
    Prop where
  waits : Waits (DrainCall env) w w'
  coreHistory : w'.coreHistory = w.coreHistory
  historyIds : w'.historyIds = w.historyIds
  throttle : w'.throttle = w.throttle
  resolver : w'.resolver = w.resolver
  single : ds.length ≤ 1
  deliveries : ∀ d ∈ ds, (∃ tenant, tenant.id = job.tenantId ∧
      Delivers (DrainCall env) tenant (.retry job.historyId job.attempt) job.alert w d) ∧
    d.channel = job.channel
  trace : w'.trace = w.trace ++ ds.map .delivery
  log : ∃ written : List Delivery, written.Sublist ds ∧
    w'.alertHistory = written.foldl (loggedHistory job.tenantId job.historyId) w.alertHistory ∧
    ((∀ i, (env (.updateStatus i)).fails = false) → written = ds)
  queue : Enqueues (fun t e => ∃ d ∈ ds, d.time ≤ t ∧ isRetryable d.result = true ∧
      job.attempt < maxDeliveryAttempts ∧ e = (retryScore t job.attempt d.result,
        d.retryJob job.tenantId job.historyId (job.attempt + 1)))
    (if job.attempt < maxDeliveryAttempts
      then ds.map fun d => d.retryJob job.tenantId job.historyId (job.attempt + 1) else []) w w'

/-- What is put back is the next attempt of the same notice. -/
theorem Retried.deliveryRetry {env : DrainEnv} {job : DeliveryRetryJob} {w w' : World}
    {ds : List Delivery} (h : Retried env job w w' ds) : ∀ e ∈ w'.deliveryRetry,
      e ∈ w.deliveryRetry ∨ e.2 = { job with attempt := job.attempt + 1 } := by
  intro e he
  refine (h.queue.entries e he).imp_right fun ⟨_, _, _, d, hd, _, _, _, hmade⟩ => ?_
  obtain ⟨⟨tenant, -, hdelivers⟩, hchannel⟩ := h.deliveries d hd
  rw [hmade, Delivery.retryJob, hdelivers.alert, hchannel]

section Drain

variable (p : Platform) (env : DrainEnv)

/-- What a tenant cache may hold. -/
def TenantCache.Sound (cache : TenantCache) : Prop :=
  ∀ tenantId loaded, cache tenantId = some loaded → loaded.1.id = tenantId

/-- Loading a tenant only waits. -/
theorem loadTenant_spec (index : Nat) (tenantId : Uuid) (w : World) {cache : TenantCache}
    (hcache : cache.Sound) {r : Option (Tenant × List Integration) × World × TenantCache}
    (hr : loadTenant env index tenantId w cache = r) :
    Waits (DrainCall env) w r.2.1 ∧ Undisturbed w r.2.1 ∧ r.2.1.trace = w.trace ∧ r.2.2.Sound ∧
      ∀ loaded ∈ r.1, loaded.1.id = tenantId := by
  subst hr
  unfold loadTenant
  have hw₁ : Waits (DrainCall env) w (w.advance (env (.tenant index))) := .advance ⟨_, rfl⟩ w
  have hu₁ := undisturbed_advance w (env (.tenant index))
  cases hcached : cache tenantId with
  | some loaded =>
      exact ⟨.refl _ w, .refl w, rfl, hcache, by simpa using hcache tenantId loaded hcached⟩
  | none =>
      simp only
      cases hfound : (if (env (.tenant index)).fails then none
          else (w.advance (env (.tenant index))).getTenantById tenantId) with
      | none => exact ⟨hw₁, hu₁, by simp, hcache, by simp⟩
      | some tenant =>
          have hid : tenant.id = tenantId := by
            split at hfound
            · cases hfound
            · have hkey := List.find?_some hfound
              simp only [Bool.and_eq_true, beq_iff_eq] at hkey
              exact hkey.1
          refine ⟨hw₁.then_advance ⟨_, rfl⟩, hu₁.trans (undisturbed_advance _ _), by simp, ?_, ?_⟩
          · intro t loaded hloaded
            by_cases ht : t = tenantId
            · subst ht
              simp only [Function.update_self, Option.some.injEq] at hloaded
              rw [← hloaded]
              exact hid
            · simp only [Function.update_of_ne ht] at hloaded
              exact hcache t loaded hloaded
          · simpa using hid

theorem retryJob_spec (index : Nat) (job : DeliveryRetryJob) {loaded : Tenant × List Integration}
    (hloaded : loaded.1.id = job.tenantId) (w : World) :
    ∃ ds, Retried env job w (retryJob p env index job loaded w) ds ∧
      ∀ d ∈ ds, Delivers (fun c => c = env (.send index)) loaded.1
        (.retry job.historyId job.attempt) job.alert w d := by
  let sent := deliverChannel p (env (.send index)) (env (.revoke index)) loaded.1 loaded.2
    (.retry job.historyId job.attempt) job.channel job.alert w
  let waited := sent.2.advance (env (.updateStatus index))
  let logged := if (env (.updateStatus index)).fails then waited
    else waited.updateDeliveryStatus job.tenantId job.historyId sent.1.deliveryKey
      { success := sent.1.success, error := sent.1.error }
  obtain ⟨hw₁, hu₁, d, hd, houtcome, htime, htrace₁⟩ := deliverChannel_spec (C := DrainCall env)
    ⟨_, rfl⟩ ⟨_, rfl⟩ job.channel w (r := sent) rfl
  have hchannel : d.channel = job.channel := congrArg Prod.fst houtcome
  have hresult : d.result = sent.1 := congrArg Prod.snd houtcome
  have hwaited : Waits (DrainCall env) w waited := hw₁.then_advance ⟨_, rfl⟩
  have hwaited' : Undisturbed w waited := hu₁.trans (undisturbed_advance _ _)
  have hlogged : Waits (DrainCall env) w logged ∧ logged.coreHistory = w.coreHistory ∧
      logged.historyIds = w.historyIds ∧ logged.deliveryRetry = w.deliveryRetry ∧
      logged.throttle = w.throttle ∧ logged.resolver = w.resolver ∧
      logged.trace = w.trace ++ [.delivery d] ∧ logged.now = waited.now := by
    have hcore : waited.coreHistory = w.coreHistory := by
      rw [World.coreHistory, hwaited'.alertHistory]
      rfl
    have htrace : waited.trace = w.trace ++ [.delivery d] := by
      simp only [waited, World.advance_trace, htrace₁]
    simp only [logged]
    split
    · exact ⟨hwaited, hcore, hwaited'.historyIds, hwaited'.deliveryRetry, hwaited'.throttle,
        hwaited'.resolver, htrace, rfl⟩
    · exact ⟨hwaited.then_same rfl rfl rfl rfl,
        (World.updateDeliveryStatus_core _ _ _ _ _).trans hcore, hwaited'.historyIds,
        hwaited'.deliveryRetry, hwaited'.throttle, hwaited'.resolver, htrace, rfl⟩
  obtain ⟨hw₂, hcore, hids, hqueue, hthrottle, hresolver, htrace, hnow⟩ := hlogged
  have hlog : ∃ written : List Delivery, written.Sublist [d] ∧ logged.alertHistory =
      written.foldl (loggedHistory job.tenantId job.historyId) w.alertHistory ∧
      ((∀ i, (env (.updateStatus i)).fails = false) → written = [d]) := by
    cases hfails : (env (.updateStatus index)).fails with
    | true =>
        refine ⟨[], List.nil_sublist _, ?_, fun hwrites => ?_⟩
        · simp only [logged, hfails, if_true, hwaited'.alertHistory, List.foldl_nil]
        · rw [hwrites index] at hfails
          cases hfails
    | false =>
        refine ⟨[d], List.Sublist.refl _, ?_, fun _ => rfl⟩
        simp only [logged, hfails, Bool.false_eq_true, if_false, World.updateDeliveryStatus,
          hwaited'.alertHistory, List.foldl_cons, List.foldl_nil, loggedHistory, SendResult.logged,
          hresult]
  have hlater : d.time ≤ logged.now := by
    rw [hnow]
    exact Nat.le_trans htime (World.now_le_advance sent.2 _)
  have hdelivery : ∀ d' ∈ [d], (∃ tenant, tenant.id = job.tenantId ∧
      Delivers (DrainCall env) tenant (.retry job.historyId job.attempt) job.alert w d') ∧
      d'.channel = job.channel := by
    simp only [List.mem_singleton, forall_eq]
    exact ⟨⟨loaded.1, hloaded, hd.mono fun c hc => ⟨_, hc⟩⟩, hchannel⟩
  refine ⟨[d], ?_, by simpa using hd⟩
  by_cases hsuccess : sent.1.success = true
  · have hend : retryJob p env index job loaded w = logged := if_pos hsuccess
    rw [hend]
    exact ⟨hw₂, hcore, hids, hthrottle, hresolver, Nat.le_refl 1, hdelivery, htrace, hlog,
      (Enqueues.of_same hw₂.now_le hqueue).mono List.nil_subperm fun _ _ _ h => h⟩
  · have hend : retryJob p env index job loaded w = maybeScheduleRetry (env (.schedule index))
        job.tenantId job.historyId job.attempt job.channel job.alert sent.1 logged :=
      if_neg hsuccess
    obtain ⟨hw₃, honly, hjobs⟩ := maybeScheduleRetry_spec
      (show DrainCall env (env (.schedule index)) from ⟨_, rfl⟩) job.tenantId job.historyId job.attempt job.channel
      job.alert sent.1 logged rfl
    rw [hend]
    exact {
      waits := hw₂.trans hw₃
      coreHistory := by rw [← hcore, World.coreHistory, honly.alertHistory]; rfl
      historyIds := honly.historyIds.trans hids
      throttle := honly.throttle.trans hthrottle
      resolver := honly.resolver.trans hresolver
      single := Nat.le_refl 1
      deliveries := hdelivery
      trace := honly.trace.trans htrace
      log := by rw [honly.alertHistory]; exact hlog
      queue := by
        have hjob : d.retryJob job.tenantId job.historyId (job.attempt + 1) =
            { job with attempt := job.attempt + 1 } := by
          rw [Delivery.retryJob, hchannel, hd.alert]
        refine (hjobs.mono ?_ ?_).between hw₂.now_le hqueue (Nat.le_refl _) rfl
        · rw [List.map_singleton, hjob]
        · rintro t e ht ⟨hretryable, hattempt, he⟩
          refine ⟨d, List.mem_singleton_self d, Nat.le_trans hlater ht, hresult ▸ hretryable,
            hattempt, ?_⟩
          rw [he, hresult, hjob] }

/-- A popped job is taken up, or dropped because its tenant is gone. -/
theorem drainJob_spec (acc : World × TenantCache) (hcache : acc.2.Sound)
    (job : DeliveryRetryJob × Nat) :
    (drainJob p env acc job).2.Sound ∧ ∃ ds, Retried env job.1 acc.1 (drainJob p env acc job).1 ds := by
  obtain ⟨hw, hu, htrace, hsound, hloaded⟩ :=
    loadTenant_spec env job.2 job.1.tenantId acc.1 hcache rfl
  have hcore : (loadTenant env job.2 job.1.tenantId acc.1 acc.2).2.1.coreHistory =
      acc.1.coreHistory := by
    rw [World.coreHistory, hu.alertHistory]
    rfl
  unfold drainJob
  generalize loadTenant env job.2 job.1.tenantId acc.1 acc.2 = loaded at *
  obtain ⟨found, w, cache⟩ := loaded
  cases found with
  | none =>
      refine ⟨hsound, [], ?_⟩
      exact ⟨hw, hcore, hu.historyIds, hu.throttle, hu.resolver, by simp, by simp,
        by simpa using htrace, ⟨[], List.Sublist.refl _, hu.alertHistory, fun _ => rfl⟩,
        (Enqueues.of_same hw.now_le hu.deliveryRetry).mono List.nil_subperm
          fun _ _ _ h => h⟩
  | some loaded =>
      obtain ⟨ds, h, -⟩ := retryJob_spec p env job.2 job.1 (hloaded loaded rfl) w
      refine ⟨hsound, ds, ?_⟩
      exact {
        waits := hw.trans h.waits
        coreHistory := h.coreHistory.trans hcore
        historyIds := h.historyIds.trans hu.historyIds
        throttle := h.throttle.trans hu.throttle
        resolver := h.resolver.trans hu.resolver
        deliveries := fun d hd => by
          obtain ⟨⟨tenant, htenant, hd'⟩, hchannel⟩ := h.deliveries d hd
          exact ⟨⟨tenant, htenant, hd'.after hw⟩, hchannel⟩
        single := h.single
        trace := h.trace.trans (congrArg (· ++ ds.map Event.delivery) htrace)
        log := by rw [← hu.alertHistory]; exact h.log
        queue := h.queue.between hw.now_le hu.deliveryRetry (Nat.le_refl _) rfl }

/-! ### The induction rules -/

/-- The jobs a drain pass pops, and the world without them. -/
def popped (p : Platform) (env : DrainEnv) (w : World) : List DeliveryRetryJob × World :=
  (w.advance (env .pop)).popDueDeliveryRetries p.jobRank (toUnixF64 w.now) retryDrainBatch

/-- **The drain rule**, with the popped jobs that are still to be taken up. -/
theorem drainDeliveryRetries_pending {P : List DeliveryRetryJob → World → Prop} {w : World}
    (hwait : P [] (w.advance (env .pop)))
    (hpop : (env .pop).fails = false → P (popped p env w).1 (popped p env w).2)
    (hretry : ∀ v v' job rest ds, P (job :: rest) v → Retried env job v v' ds → P rest v') :
    P [] (drainDeliveryRetries p env w) := by
  -- By induction on the jobs that are left; the cache stays sound.
  have hjobs : ∀ (jobs : List (DeliveryRetryJob × Nat)) (acc : World × TenantCache),
      P (jobs.map Prod.fst) acc.1 → acc.2.Sound → P [] (jobs.foldl (drainJob p env) acc).1 := by
    intro jobs
    induction jobs with
    | nil => exact fun acc h _ => h
    | cons job rest ih =>
        intro acc h hsound
        obtain ⟨hsound', ds, hretried⟩ := drainJob_spec p env acc hsound job
        exact ih _ (hretry _ _ _ _ ds h hretried) hsound'
  unfold drainDeliveryRetries
  simp only
  split
  · exact hwait
  · rename_i hfails
    refine hjobs _ _ ?_ fun tenantId loaded h => by cases h
    rw [List.zipIdx_map_fst]
    exact hpop (by simpa using hfails)

/-- The drain rule for a property that does not look at the popped jobs. -/
theorem drainDeliveryRetries_induction {P : World → Prop} {w : World}
    (hwait : P (w.advance (env .pop)))
    (hpop : (env .pop).fails = false → P (popped p env w).2)
    (hretry : ∀ v v' job ds, job ∈ (popped p env w).1 → P v → Retried env job v v' ds → P v') :
    P (drainDeliveryRetries p env w) := by
  let Q : List DeliveryRetryJob → World → Prop := fun pending v =>
    P v ∧ ∀ job ∈ pending, job ∈ (popped p env w).1
  refine (drainDeliveryRetries_pending p env (P := Q) ⟨hwait, by simp⟩
    (fun hfails => ⟨hpop hfails, fun _ hjob => hjob⟩) ?_).1
  intro v v' job rest ds h hretried
  exact ⟨hretry v v' job ds (h.2 job List.mem_cons_self) h.1 hretried,
    fun j hj => h.2 j (List.mem_cons_of_mem job hj)⟩

theorem popped_waits (w : World) : Waits (DrainCall env) w (popped p env w).2 :=
  (Waits.advance ⟨_, rfl⟩ w).then_same rfl rfl rfl rfl

/-- Popping shortens the queue and touches nothing else. -/
theorem popped_deliveryRetry (w : World) :
    ∀ e ∈ (popped p env w).2.deliveryRetry, e ∈ w.deliveryRetry := by
  intro e he
  simpa using List.mem_of_mem_filter he

/-- What is popped was queued. -/
theorem mem_popped {w : World} {job : DeliveryRetryJob} (h : job ∈ (popped p env w).1) :
    ∃ e ∈ w.deliveryRetry, e.2 = job ∧ e.1.le (toUnixF64 w.now) = true := by
  obtain ⟨e, he, rfl⟩ := List.mem_map.1 h
  have hsorted := List.mem_of_mem_take he
  rw [List.mem_insertionSort] at hsorted
  obtain ⟨hmem, hdue⟩ := List.mem_filter.1 hsorted
  exact ⟨e, by simpa using hmem, rfl, hdue⟩

/-- What is popped leaves the queue. -/
theorem popped_subperm (w : World) :
    ((popped p env w).2.jobs ++ (popped p env w).1).Subperm w.jobs := by
  let due := (popped p env w).1
  let entries := ((w.deliveryRetry.filter fun e => e.1.le (toUnixF64 w.now)).insertionSort fun a b =>
    a.1.lt b.1 ∨ (a.1 = b.1 ∧ p.jobRank a.2 ≤ p.jobRank b.2)).take retryDrainBatch
  have hdue : due = entries.map Prod.snd := by
    simp only [due, entries, popped, World.popDueDeliveryRetries, World.dueJobs,
      World.advance_deliveryRetry]
  have hrest : (popped p env w).2.jobs =
      (w.deliveryRetry.filter fun e => !decide (e.2 ∈ due)).map Prod.snd := by
    simp only [World.jobs, due, popped, World.popDueDeliveryRetries, World.advance_deliveryRetry,
      decide_not]
  have hentries : entries.Subperm (w.deliveryRetry.filter fun e => decide (e.2 ∈ due)) := by
    have hqueued : entries.Subperm w.deliveryRetry :=
      ((List.take_sublist _ _).subperm.trans (List.perm_insertionSort _ _).subperm).trans
        List.filter_sublist.subperm
    have hall : entries.filter (fun e => decide (e.2 ∈ due)) = entries := by
      rw [List.filter_eq_self]
      intro e he
      rw [hdue]
      simpa using List.mem_map_of_mem (f := Prod.snd) he
    have hfiltered := hqueued.filter fun e => decide (e.2 ∈ due)
    rwa [hall] at hfiltered
  show ((popped p env w).2.jobs ++ due).Subperm w.jobs
  obtain ⟨l, hperm, hsub⟩ := ((List.subperm_append_left _).2 hentries).trans
    (List.perm_append_comm.trans
      (List.filter_append_perm (fun e => decide (e.2 ∈ due)) w.deliveryRetry)).subperm
  have hmapped := hperm.map Prod.snd
  rw [List.map_append, ← hdue, ← hrest] at hmapped
  exact ⟨l.map Prod.snd, hmapped, hsub.map Prod.snd⟩

/-- A popped job whose tenant was found, and the state it is sent again in. -/
structure Resend where
  job : DeliveryRetryJob
  index : Nat
  world : World

/-- What becomes of a popped job met in a state with this cache. -/
def resend? (v : (World × TenantCache) × DeliveryRetryJob × Nat) : Option Resend :=
  match loadTenant env v.2.2 v.2.1.tenantId v.1.1 v.1.2 with
  | (none, _) => none
  | (some _, w, _) => some ⟨v.2.1, v.2.2, w⟩

/-- What a drain pass that begins in `w` sends again. -/
def drainResends (w : World) : List Resend :=
  if (env .pop).fails then []
  else (Runs.visits (drainJob p env) ((popped p env w).2, fun _ => none)
    (popped p env w).1.zipIdx).filterMap (resend? env)

/-- A delivery of a job, made in the state it is sent again in. -/
structure ResentBy (r : Resend) (w : World) (d : Delivery) : Prop where
  waits : Waits (DrainCall env) w r.world
  delivers : ∃ tenant, Delivers (fun c => c = env (.send r.index)) tenant
    (.retry r.job.historyId r.job.attempt) r.job.alert r.world d

theorem drainJob_emits (acc : World × TenantCache) (hcache : acc.2.Sound)
    (job : DeliveryRetryJob × Nat) :
    Emits (fun e => ∃ r ∈ resend? env (acc, job), ∃ d, e = .delivery d ∧ ResentBy env r acc.1 d) acc.1
      (drainJob p env acc job).1 := by
  obtain ⟨hw, -, htrace, -, hloaded⟩ := loadTenant_spec env job.2 job.1.tenantId acc.1 hcache rfl
  unfold drainJob resend?
  generalize loadTenant env job.2 job.1.tenantId acc.1 acc.2 = loaded at *
  obtain ⟨found, w, cache⟩ := loaded
  cases found with
  | none => exact .of_trace_eq htrace
  | some loaded =>
      obtain ⟨ds, h, hsent⟩ := retryJob_spec p env job.2 job.1 (hloaded loaded rfl) w
      refine ⟨ds.map .delivery, by rw [h.trace, htrace], fun e he => ?_⟩
      obtain ⟨d, hd, rfl⟩ := List.mem_map.1 he
      exact ⟨_, rfl, d, rfl, hw, loaded.1, hsent d hd⟩

/-- **A drain pass sends what it sends again.** -/
theorem drainDeliveryRetries_emits_resends (w : World) :
    Emits (fun e => ∃ r ∈ drainResends p env w, ∃ d, e = .delivery d ∧ ResentBy env r w d) w
      (drainDeliveryRetries p env w) := by
  unfold drainDeliveryRetries drainResends
  simp only
  split
  · exact .of_trace_eq (World.advance_trace w _)
  · let jobs := (popped p env w).1.zipIdx
    let start : World × TenantCache := ((popped p env w).2, fun _ => none)
    let Q : World × TenantCache → Prop := fun acc => acc.2.Sound ∧ Waits (DrainCall env) w acc.1 ∧
      Emits (fun e => ∃ r ∈ (Runs.visits (drainJob p env) start jobs).filterMap (resend? env),
        ∃ d, e = .delivery d ∧ ResentBy env r w d) w acc.1
    have hend : Q (jobs.foldl (drainJob p env) start) := by
      refine Runs.foldl_prefix_invariant Q ?_ ?_
      · exact ⟨fun tenantId loaded h => (by cases h), popped_waits p env w,
          .of_trace_eq (World.advance_trace w _)⟩
      · intro before job after hsplit hacc
        obtain ⟨hsound, hwaits, hemits⟩ := hacc
        obtain ⟨hsound', ds, hretried⟩ := drainJob_spec p env _ hsound job
        refine ⟨hsound', hwaits.trans hretried.waits, hemits.trans ?_⟩
        obtain ⟨events, htrace, hevents⟩ := drainJob_emits p env _ hsound job
        refine ⟨events, htrace, fun e he => ?_⟩
        obtain ⟨r, hr, d, rfl, hresent⟩ := hevents e he
        refine ⟨r, List.mem_filterMap.2 ⟨_, ?_, hr⟩, d, rfl, hwaits.trans hresent.waits,
          hresent.delivers⟩
        rw [hsplit]
        exact Runs.mem_visits _ _ before job after
    exact hend.2.2

/-- A drain pass emits the deliveries of its retries. -/
theorem drainDeliveryRetries_emits {Q : Event → Prop} (w : World)
    (h : ∀ v v' job ds, job ∈ (popped p env w).1 → Retried env job v v' ds →
      ∀ d ∈ ds, Q (.delivery d)) : Emits Q w (drainDeliveryRetries p env w) := by
  refine drainDeliveryRetries_induction p env ?_ (fun _ => ?_) ?_
  · exact .of_trace_eq (World.advance_trace w _)
  · exact .of_trace_eq (World.advance_trace w _)
  · intro v v' job ds hjob hv hretried
    refine hv.trans ⟨_, hretried.trace, fun e he => ?_⟩
    obtain ⟨d, hd, rfl⟩ := List.mem_map.1 he
    exact h v v' job ds hjob hretried d hd

end Drain

end Feloxi.Alerting
