import Feloxi.Alerting.Failures
import Feloxi.Alerting.Pass

/-!
# Feloxi.Alerting.Recording

Recording a fire. `recordAlertFired` runs two statements, and the pass queues the
retries of a firing only when both went through: when the second one fails, the
incident is open and its failed deliveries are lost.

`Accounts` says of a part of a pass that every incident it opened has its transient
failures in the retry queue. It composes, so a pass is accounted for once every turn
is.
-/

namespace Feloxi.Alerting

section Rule

variable (p : Platform) (env : PassEnv) (tp : TenantPass) (rule : AlertRule)

/-! ### The two statements -/

/-- An error leaves history and rules as they were. -/
def AllOrNothing (firing : Nat) (alert : FiredAlert) (log : List (String × ChannelDeliveryStatus))
    (w : World) : Prop :=
  (recordAlertFired env tp rule firing alert log w).1 = none →
    (recordAlertFired env tp rule firing alert log w).2.alertHistory = w.alertHistory ∧
      (recordAlertFired env tp rule firing alert log w).2.alertRules = w.alertRules

/-- The row is written and the rule is not. -/
def RecordsHalf (w : World) : Prop :=
  (env.calls (.insertHistory rule.id)).fails = false ∧
    (env.calls (.insertHistory rule.id)).uuid ∉ w.historyIds ∧
    (env.calls (.touchRule rule.id)).fails = true

section Recorded

variable (firing : Nat) (alert : FiredAlert) (log : List (String × ChannelDeliveryStatus))
  (w : World)

/-- The row is refused, written alone, or written with the rule. -/
theorem recordAlertFired_cases :
    ((recordAlertFired env tp rule firing alert log w).1 = none ∧
        (recordAlertFired env tp rule firing alert log w).2.alertHistory = w.alertHistory ∧
        (recordAlertFired env tp rule firing alert log w).2.alertRules = w.alertRules ∧
        ¬ RecordsHalf env rule w) ∨
      (RecordsHalf env rule w ∧ (recordAlertFired env tp rule firing alert log w).1 = none ∧
        (recordAlertFired env tp rule firing alert log w).2.alertHistory.length =
          w.alertHistory.length + 1) ∨
      (¬ RecordsHalf env rule w ∧ (recordAlertFired env tp rule firing alert log w).1 =
        some (env.calls (.insertHistory rule.id)).uuid) := by
  by_cases hrefused : ((env.calls (.insertHistory rule.id)).fails ||
      (w.advance (env.calls (.insertHistory rule.id))).historyIds.contains
        (env.calls (.insertHistory rule.id)).uuid) = true
  · refine .inl ?_
    unfold recordAlertFired
    simp only [hrefused, if_true]
    refine ⟨trivial, World.advance_alertHistory w _, World.advance_alertRules w _, fun hhalf => ?_⟩
    simp [hhalf.1, hhalf.2.1] at hrefused
  · have hwritten : (env.calls (.insertHistory rule.id)).fails = false ∧
        (env.calls (.insertHistory rule.id)).uuid ∉ w.historyIds := by
      simpa using hrefused
    refine .inr ?_
    unfold recordAlertFired
    simp only [hrefused, Bool.false_eq_true, if_false]
    cases htouch : (env.calls (.touchRule rule.id)).fails with
    | true =>
        refine .inl ⟨⟨hwritten.1, hwritten.2, htouch⟩, rfl, ?_⟩
        simp [World.emit, World.insertHistory]
    | false =>
        refine .inr ⟨fun hhalf => ?_, rfl⟩
        rw [hhalf.2.2] at htouch
        cases htouch

/-- Recording is all or nothing unless the second statement fails alone. -/
theorem allOrNothing_iff_not_half :
    AllOrNothing env tp rule firing alert log w ↔ ¬ RecordsHalf env rule w := by
  rcases recordAlertFired_cases env tp rule firing alert log w with
    ⟨-, hhistory, hrules, hwhole⟩ | ⟨hhalf, hnone, hlonger⟩ | ⟨hwhole, hsome⟩
  · exact ⟨fun _ => hwhole, fun _ _ => ⟨hhistory, hrules⟩⟩
  · refine ⟨fun hall => ?_, fun hwhole => absurd hhalf hwhole⟩
    rw [(hall hnone).1] at hlonger
    exact absurd hlonger.symm (Nat.succ_ne_self _)
  · refine ⟨fun _ => hwhole, fun _ hnone => ?_⟩
    rw [hsome] at hnone
    cases hnone

end Recorded

end Rule

/-! ### What is owed to an incident -/

/-- A part of a step that has queued the transient failures of every incident it
opened; incidents and firings are its own. -/
structure Accounts (w w' : World) : Prop where
  trace : ∃ events, w'.trace = w.trace ++ events ∧
    (∀ t r row firing, .opened t r row firing ∈ events →
      w.trace.length ≤ firing ∧ firing < w'.trace.length) ∧
    (∀ d firing, .delivery d ∈ events → d.notice = .fire firing →
      w.trace.length ≤ firing ∧ firing < w'.trace.length) ∧
    ∀ t r row firing d, .opened t r row firing ∈ events → .delivery d ∈ events →
      d.notice = .fire firing → isRetryable d.result = true → d.retryJob t row 2 ∈ w'.jobs
  jobs : ∀ j ∈ w.jobs, j ∈ w'.jobs

namespace Accounts

variable {w₁ w₂ w₃ : World}

/-- A part that opens no incident and sends no fire notice. -/
theorem of_quiet {events : List Event} (htrace : w₂.trace = w₁.trace ++ events)
    (hopened : ∀ t r row firing, .opened t r row firing ∉ events)
    (hfire : ∀ d firing, .delivery d ∈ events → d.notice ≠ .fire firing)
    (hqueue : w₂.deliveryRetry = w₁.deliveryRetry) : Accounts w₁ w₂ where
  trace := ⟨events, htrace, fun t r row firing h => absurd h (hopened t r row firing),
    fun d firing h hd => absurd hd (hfire d firing h),
    fun t r row firing _ h => absurd h (hopened t r row firing)⟩
  jobs j hj := by rw [World.jobs, hqueue]; exact hj

theorem of_same (htrace : w₂.trace = w₁.trace) (hqueue : w₂.deliveryRetry = w₁.deliveryRetry) :
    Accounts w₁ w₂ :=
  .of_quiet (show w₂.trace = w₁.trace ++ [] by rw [htrace, List.append_nil]) (by simp) (by simp)
    hqueue

theorem refl (w : World) : Accounts w w := .of_same rfl rfl

theorem trans (h : Accounts w₁ w₂) (h' : Accounts w₂ w₃) : Accounts w₁ w₃ := by
  obtain ⟨first, hfirst, hopened, hfired, howed⟩ := h.trace
  obtain ⟨second, hsecond, hopened', hfired', howed'⟩ := h'.trace
  have hlen : w₁.trace.length ≤ w₂.trace.length := by
    rw [hfirst, List.length_append]
    exact Nat.le_add_right _ _
  have hlen' : w₂.trace.length ≤ w₃.trace.length := by
    rw [hsecond, List.length_append]
    exact Nat.le_add_right _ _
  refine ⟨⟨first ++ second, by rw [hsecond, hfirst, List.append_assoc], ?_, ?_, ?_⟩,
    fun j hj => h'.jobs j (h.jobs j hj)⟩
  · intro t r row firing hmem
    rcases List.mem_append.1 hmem with hmem | hmem
    · exact (hopened t r row firing hmem).imp_right fun hlt => Nat.lt_of_lt_of_le hlt hlen'
    · exact (hopened' t r row firing hmem).imp_left fun hle => Nat.le_trans hlen hle
  · intro d firing hmem hd
    rcases List.mem_append.1 hmem with hmem | hmem
    · exact (hfired d firing hmem hd).imp_right fun hlt => Nat.lt_of_lt_of_le hlt hlen'
    · exact (hfired' d firing hmem hd).imp_left fun hle => Nat.le_trans hlen hle
  · intro t r row firing d hrow hmem hd hretry
    -- An incident and its fire notices belong to one part: their numbers tell the parts apart.
    rcases List.mem_append.1 hrow with hrow | hrow
    · rcases List.mem_append.1 hmem with hmem | hmem
      · exact h'.jobs _ (howed t r row firing d hrow hmem hd hretry)
      · exact absurd (hopened t r row firing hrow).2 (Nat.not_lt.2 (hfired' d firing hmem hd).1)
    · rcases List.mem_append.1 hmem with hmem | hmem
      · exact absurd (hfired d firing hmem hd).2 (Nat.not_lt.2 (hopened' t r row firing hrow).1)
      · exact howed' t r row firing d hrow hmem hd hretry

theorem advance (w : World) (c : Call) : Accounts w (w.advance c) :=
  .of_same (World.advance_trace w c) (World.advance_deliveryRetry w c)

end Accounts

theorem SilentlyClosed.accounts {env : PassEnv} {tenantId ruleId : Uuid} {w w' : World}
    (h : SilentlyClosed env tenantId ruleId w w') : Accounts w w' :=
  .of_quiet h.trace (by simp) (by simp) h.deliveryRetry

/-! ### Queueing -/

/-- Scheduling keeps the queued jobs and adds at most one entry. -/
theorem maybeScheduleRetry_keeps (call : Call) (tenantId historyId : Uuid) (attempt : Nat)
    (channel : AlertChannel) (alert : FiredAlert) (result : SendResult) (w : World) :
    (∀ j ∈ w.jobs,
        j ∈ (maybeScheduleRetry call tenantId historyId attempt channel alert result w).jobs) ∧
      (maybeScheduleRetry call tenantId historyId attempt channel alert result
        w).deliveryRetry.length ≤ w.deliveryRetry.length + 1 := by
  rcases maybeScheduleRetry_queue call tenantId historyId attempt channel alert result w with
    hsame | ⟨-, -, hadded⟩
  · exact ⟨fun j hj => by rw [World.jobs, hsame]; exact hj, by rw [hsame]; exact Nat.le_succ _⟩
  · refine ⟨fun j hj => ?_, ?_⟩
    · obtain ⟨e, he, rfl⟩ := List.mem_map.1 hj
      rw [World.jobs, hadded, List.map_append, List.mem_append]
      by_cases hjob : e.2 = { tenantId, historyId, attempt := attempt + 1, channel, alert }
      · exact .inr (by rw [hjob]; exact List.mem_cons_self)
      · exact .inl (List.mem_map_of_mem (List.mem_filter.2 ⟨he, by simpa using hjob⟩))
    · rw [hadded, List.length_append, List.length_singleton]
      exact Nat.add_le_add_right (List.length_filter_le _ _) 1

section Rule

variable (p : Platform) (env : PassEnv) (tp : TenantPass) (rule : AlertRule)

/-- When the queue takes what comes, every transient failure of a firing joins it. -/
theorem mem_scheduleRetries (hcalls : ∀ i, (env.calls (.schedule rule.id i)).fails = false)
    (alert : FiredAlert) (historyId : Uuid) (failed : List (AlertChannel × SendResult)) (w : World)
    (hroom : w.deliveryRetry.length + failed.length ≤ World.maxDeliveryRetryLen) :
    (∀ j ∈ w.jobs, j ∈ (scheduleRetries env tp rule alert historyId failed w).jobs) ∧
      ∀ f ∈ failed, isRetryable f.2 = true →
        { tenantId := tp.tenant.id, historyId, attempt := 2, channel := f.1, alert } ∈
          (scheduleRetries env tp rule alert historyId failed w).jobs := by
  unfold scheduleRetries
  generalize 0 = index
  induction failed generalizing w index with
  | nil => exact ⟨fun j hj => hj, by simp⟩
  | cons f rest ih =>
      obtain ⟨hkept, hlength⟩ := maybeScheduleRetry_keeps (env.calls (.schedule rule.id index))
        tp.tenant.id historyId 1 f.1 alert f.2 w
      rw [List.length_cons] at hroom
      obtain ⟨hrest, hjobs⟩ := ih (maybeScheduleRetry (env.calls (.schedule rule.id index))
        tp.tenant.id historyId 1 f.1 alert f.2 w) (by omega) (index + 1)
      rw [List.zipIdx_cons, List.foldl_cons]
      refine ⟨fun j hj => hrest j (hkept j hj), fun g hg hretry => ?_⟩
      rcases List.mem_cons.1 hg with rfl | hg
      · have htakes : Takes (env.calls (.schedule rule.id index)) w :=
          ⟨hcalls index, by omega⟩
        refine hrest _ (List.mem_map_of_mem (f := Prod.snd)
          (mem_maybeScheduleRetry tp.tenant.id historyId g.1 alert hretry (by decide) htakes))
      · exact hjobs g hg hretry

/-- When the recording is whole and the queue takes what comes, the row of a firing is queued
all its transient failures. -/
theorem scheduledFor_recorded (firing : Nat) (alert : FiredAlert)
    (log : List (String × ChannelDeliveryStatus)) (failed : List (AlertChannel × SendResult))
    (w : World) (hwhole : ¬ RecordsHalf env rule w)
    (hcalls : ∀ i, (env.calls (.schedule rule.id i)).fails = false)
    (hroom : w.deliveryRetry.length + failed.length ≤ World.maxDeliveryRetryLen)
    {recorded : Option Uuid × World}
    (hr : recordAlertFired env tp rule firing alert log w = recorded) {queued : World}
    (hq : scheduledFor env tp rule alert recorded.1 failed recorded.2 = queued) :
    (∀ j ∈ w.jobs, j ∈ queued.jobs) ∧ ∃ row : Option AlertHistoryRow,
      queued.trace = w.trace ++ row.toList.map
        (fun h => .opened tp.tenant.id rule.id h.id firing) ∧
      ∀ h ∈ row, ∀ f ∈ failed, isRetryable f.2 = true →
        { tenantId := tp.tenant.id, historyId := h.id, attempt := 2, channel := f.1, alert } ∈
          queued.jobs := by
  obtain ⟨-, hqueue, -, -, row, -, -, hret, hhistory, -, htrace⟩ :=
    recordAlertFired_spec env tp rule firing alert log w hr
  have hjobs : recorded.2.jobs = w.jobs := by rw [World.jobs, World.jobs, hqueue]
  cases hid : recorded.1 with
  | none =>
      have hnorow : row = none := by
        rcases recordAlertFired_cases env tp rule firing alert log w with
          ⟨-, hsame, -, -⟩ | ⟨hhalf, -⟩ | ⟨-, hsome⟩
        · rw [hr, hhistory] at hsame
          simpa using hsame
        · exact absurd hhalf hwhole
        · rw [hr, hid] at hsome
          cases hsome
      rw [hid] at hq
      subst hq hnorow
      exact ⟨fun j hj => hjobs ▸ hj, none, htrace, by simp⟩
  | some historyId =>
      obtain ⟨h₀, hh₀, rfl⟩ := hret historyId (by rw [hid]; rfl)
      obtain ⟨hkept, hall⟩ := mem_scheduleRetries env tp rule hcalls alert h₀.id failed
        recorded.2 (by rw [hqueue]; exact hroom)
      rw [hid] at hq
      subst hq
      obtain ⟨-, honly, -⟩ := scheduleRetries_spec env tp rule alert h₀.id failed recorded.2 rfl
      refine ⟨fun j hj => hkept j (hjobs ▸ hj), row, honly.trace.trans htrace, ?_⟩
      intro h hh
      obtain rfl : h₀ = h := Option.some.inj (hh₀.symm.trans hh)
      exact hall

/-- A firing whose recording is whole is accounted for, when the queue takes what comes. -/
theorem raiseIncident_accounts (ctx : EvaluationContext) (w : World)
    (hwhole : ¬ RecordsHalf env rule w)
    (hcalls : ∀ i, (env.calls (.schedule rule.id i)).fails = false)
    (hroom : w.deliveryRetry.length + (tp.noticeChannels rule).length ≤ World.maxDeliveryRetryLen) :
    Accounts w (raiseIncident p env tp rule ctx w) := by
  let C := RuleCall env rule.id
  let alert := firedAlert env tp rule ctx w.now
  let delivered := deliverAll p (fun i => env.calls (.fire rule.id i))
    (fun i => env.calls (.fireRevoke rule.id i)) tp.tenant tp.integrations (.fire w.trace.length)
    alert (tp.noticeChannels rule) 0 w
  let recorded := recordAlertFired env tp rule w.trace.length alert (deliveryLog delivered.1)
    delivered.2
  let failed := delivered.1.filter fun r => !r.2.success
  let queued := scheduledFor env tp rule alert recorded.1 failed recorded.2
  let last := (queued.emit (.alertFired tp.tenant.id rule.id rule.name alert.severity
    alert.summary)).advance (env.calls (.recordFired rule.id))
  obtain ⟨-, hund, hfst, ds, hds, houtcomes, -, htrace₁⟩ := deliverAll_spec (C := C)
    (fun i => ⟨.fire rule.id i, rfl, rfl⟩) (fun i => ⟨.fireRevoke rule.id i, rfl, rfl⟩)
    (tp.noticeChannels rule) 0 w (r := delivered) rfl
  have hlength : failed.length ≤ (tp.noticeChannels rule).length := by
    rw [← hfst, List.length_map]
    exact List.length_filter_le _ _
  have hwhole₁ : ¬ RecordsHalf env rule delivered.2 := by
    unfold RecordsHalf
    rw [hund.historyIds]
    exact hwhole
  obtain ⟨hkept, row, htrace₂, howed⟩ := scheduledFor_recorded env tp rule w.trace.length alert
    (deliveryLog delivered.1) failed delivered.2 hwhole₁ hcalls
    (by rw [hund.deliveryRetry]; omega) rfl rfl
  have hjobs : last.jobs = queued.jobs := by
    simp only [last, World.jobs, World.advance_deliveryRetry, World.emit]
  have htrace : (raiseIncident p env tp rule ctx w).trace = w.trace ++ (ds.map .delivery ++
      (row.toList.map (fun h => .opened tp.tenant.id rule.id h.id w.trace.length) ++
        [.alertFired tp.tenant.id rule.id rule.name alert.severity alert.summary,
          .fireRecorded rule.id last.now rule.cooldownSecs])) := by
    show last.trace ++ [.fireRecorded rule.id last.now rule.cooldownSecs] = _
    simp only [last, World.advance_trace, World.emit]
    rw [htrace₂, htrace₁]
    simp only [List.append_assoc, List.singleton_append]
  have hlonger : w.trace.length < (raiseIncident p env tp rule ctx w).trace.length := by
    rw [htrace]
    simp only [List.length_append, List.length_cons]
    omega
  refine ⟨⟨_, htrace, ?_, ?_, ?_⟩, fun j hj => ?_⟩
  · intro t r id firing hmem
    simp only [List.mem_append, List.mem_map, reduceCtorEq, and_false, exists_false,
      Option.mem_toList, Event.opened.injEq, List.mem_cons, List.not_mem_nil, or_self, or_false,
      false_or] at hmem
    obtain ⟨-, -, -, -, -, rfl⟩ := hmem
    exact ⟨Nat.le_refl _, hlonger⟩
  · intro d firing hmem hd
    simp only [List.mem_append, List.mem_map, Event.delivery.injEq, exists_eq_right,
      Option.mem_toList, reduceCtorEq, and_false, exists_false, List.mem_cons, List.not_mem_nil,
      or_self, or_false] at hmem
    have hnotice := (hds d hmem).notice.symm.trans hd
    cases hnotice
    exact ⟨Nat.le_refl _, hlonger⟩
  · intro t r id firing d hopened hmem hd hretry
    simp only [List.mem_append, List.mem_map, reduceCtorEq, and_false, exists_false,
      Option.mem_toList, Event.opened.injEq, List.mem_cons, List.not_mem_nil, or_self, or_false,
      false_or, Event.delivery.injEq, exists_eq_right] at hopened hmem
    obtain ⟨h, hh, rfl, rfl, rfl, -⟩ := hopened
    have hfailed : (d.channel, d.result) ∈ failed := by
      refine List.mem_filter.2 ⟨?_, by simp [success_of_retryable hretry]⟩
      rw [← houtcomes]
      exact List.mem_map_of_mem (f := Delivery.outcome) hmem
    have hjob := howed h hh _ hfailed hretry
    show _ ∈ last.jobs
    rw [hjobs, Delivery.retryJob, (hds d hmem).alert]
    exact hjob
  · have hbefore : j ∈ delivered.2.jobs := by
      rw [World.jobs, hund.deliveryRetry]
      exact hj
    show j ∈ last.jobs
    rw [hjobs]
    exact hkept j hbefore

end Rule

/-! ### A pass -/

/-- A turn that raises an incident records it whole, and the queue takes its retries. -/
structure Turn.Records (env : PassEnv) (turn : Turn) : Prop where
  whole : ¬ RecordsHalf env turn.rule turn.world
  taken : ∀ i, (env.calls (.schedule turn.rule.id i)).fails = false
  room : turn.world.deliveryRetry.length + (turn.pass.noticeChannels turn.rule).length ≤
    World.maxDeliveryRetryLen

/-- Between two states no incident was opened without the retries it is owed. -/
def NothingLost (w w' : World) : Prop :=
  ∀ t r row firing d, .opened t r row firing ∈ w'.trace.drop w.trace.length →
    .delivery d ∈ w'.trace.drop w.trace.length → d.notice = .fire firing →
      isRetryable d.result = true → d.retryJob t row 2 ∈ w'.jobs

theorem Accounts.nothingLost {w w' : World} (h : Accounts w w') : NothingLost w w' := by
  obtain ⟨events, htrace, -, -, howed⟩ := h.trace
  have hevents : w'.trace.drop w.trace.length = events := by rw [htrace, List.drop_left]
  intro t r row firing d hopened hmem
  rw [hevents] at hopened hmem
  exact howed t r row firing d hopened hmem

section Pass

variable (p : Platform) (env : PassEnv)

/-- The turn that raises an incident. -/
theorem evaluateRule_of_raises {turn : Turn} (h : turn.raises p env = true) :
    (evaluateRule p env turn.pass (turn.world, turn.builder) turn.rule).1 =
      raiseIncident p env turn.pass turn.rule
        (ruleContext p env turn.pass (turn.world, turn.builder) turn.rule).1
        (fires env turn.pass turn.rule turn.world) := by
  simp only [Turn.raises, Bool.and_eq_true, Option.isNone_iff_eq_none, Bool.not_eq_true'] at h
  obtain ⟨⟨hfires, hopen⟩, hthrottled⟩ := h
  have hworld : (fires env turn.pass turn.rule turn.world).throttle.isThrottled
      (fires env turn.pass turn.rule turn.world).now turn.rule.id
      (cooldown turn.rule.cooldownSecs) = false := by
    rw [← hthrottled]
    exact congrArg (fun t : AlertThrottle => t.isThrottled _ _ _)
      (judged_throttle env turn.pass turn.rule true turn.world)
  have hfired : (fires env turn.pass turn.rule turn.world) =
      { judged env turn.pass turn.rule true turn.world with
        resolver := (judged env turn.pass turn.rule true turn.world).resolver.recordFiring
          turn.rule.id } := by
    rw [judged_resolver]
    rfl
  have hbody : (evaluateRule p env turn.pass (turn.world, turn.builder) turn.rule).1 =
      newIncident p env turn.pass turn.rule
        (ruleContext p env turn.pass (turn.world, turn.builder) turn.rule).1
        (judged env turn.pass turn.rule true turn.world) := by
    show dispatchRule p env turn.pass turn.rule
      (ruleContext p env turn.pass (turn.world, turn.builder) turn.rule).1 (turn.fires p env)
      (judged env turn.pass turn.rule (turn.fires p env) turn.world) = _
    generalize (ruleContext p env turn.pass (turn.world, turn.builder) turn.rule).1 = ctx
    rw [hfires]
    simp only [dispatchRule, hopen]
  rw [hbody, newIncident, ← hfired, if_neg (by rw [hworld]; decide)]

/-- Every turn that records whole is accounted for. -/
theorem evaluateRule_accounts (turn : Turn)
    (h : turn.raises p env = true → turn.Records env) :
    Accounts turn.world (evaluateRule p env turn.pass (turn.world, turn.builder) turn.rule).1 := by
  have hfires : Accounts turn.world (fires env turn.pass turn.rule turn.world) :=
    .of_quiet (fires_trace ..) (by simp) (by simp) (fires_deliveryRetry ..)
  have hcounts : Accounts turn.world (counts env turn.pass turn.rule turn.world) :=
    .of_quiet (counts_trace ..) (by simp) (by simp) (counts_deliveryRetry ..)
  by_cases hraises : turn.raises p env = true
  · obtain ⟨hwhole, htaken, hroom⟩ := h hraises
    rw [evaluateRule_of_raises p env hraises]
    refine hfires.trans (raiseIncident_accounts p env turn.pass turn.rule _ _ ?_ htaken ?_)
    · rw [RecordsHalf, fires_historyIds]
      exact hwhole
    · rw [fires_deliveryRetry]
      exact hroom
  · have hstep := evaluateRule_inv p env turn.pass turn.rule (turn.world, turn.builder)
    generalize (evaluateRule p env turn.pass (turn.world, turn.builder) turn.rule).1 = w' at *
    cases hstep with
    | stillFiring => exact hfires
    | throttled => exact hfires
    | waiting => exact hcounts
    | quiet =>
        exact .of_quiet (forgets_trace ..) (by simp) (by simp) (by simp [forgets, World.emit])
    | raised hfired hopen hthrottle =>
        refine absurd ?_ hraises
        simp only [Turn.raises, Bool.and_eq_true, Option.isNone_iff_eq_none, Bool.not_eq_true']
        exact ⟨⟨hfired, hopen⟩, hthrottle⟩
    | resolved _ _ _ hresolved =>
        refine hcounts.trans (.of_quiet hresolved.trace (by simp) ?_ hresolved.deliveryRetry)
        intro d firing hmem hd
        simp only [List.mem_cons, reduceCtorEq, List.mem_append, List.mem_map,
          Event.delivery.injEq, exists_eq_right, List.not_mem_nil, or_self, or_false,
          false_or] at hmem
        rw [(hresolved.deliveries d hmem).notice] at hd
        cases hd

/-- Loading a tenant opens nothing and sends nothing. -/
theorem loadTenantPass_accounts (w : World) (tenant : Tenant) :
    Accounts w (loadTenantPass env w tenant).2 := by
  have hread : ∀ v, Accounts v ((v.advance (env.calls (.listRules tenant.id))).advance
      (env.calls (.listOpen tenant.id))) := fun v =>
    (Accounts.advance v _).trans (.advance _ _)
  have hclosed : ∀ (gone : List Uuid) v, Accounts v (gone.foldl (silentClose env tenant.id) v) :=
    fun gone v => Runs.foldl_rel Accounts Accounts.refl Accounts.trans
      (fun v r _ => (silentClose_spec env tenant.id v r).accounts) v
  unfold loadTenantPass
  simp only
  split
  · exact hread w
  · exact ((hread w).trans (hclosed (goneRules _ _) _)).trans
      ((Accounts.advance _ (env.calls (.integrations tenant.id))).trans
        (.advance _ (env.calls (.silences tenant.id))))

theorem evaluateTenant_accounts (w : World) (tenant : Tenant)
    (h : ∀ turn ∈ tenantTurns p env w tenant, turn.raises p env = true → turn.Records env) :
    Accounts w (evaluateTenant p env w tenant) := by
  have hload := loadTenantPass_accounts env w tenant
  unfold evaluateTenant
  unfold tenantTurns at h
  generalize loadTenantPass env w tenant = loaded at *
  obtain ⟨found, v⟩ := loaded
  cases found with
  | none => exact hload
  | some tp =>
      refine hload.trans ?_
      refine Runs.foldl_prefix_invariant
        (fun acc : World × AlertContextBuilder => Accounts v acc.1) (.refl v) ?_
      intro before rule after hsplit hbefore
      refine hbefore.trans (evaluateRule_accounts p env ⟨tp, rule, _, _⟩ (h _ ?_))
      have hvisit := Runs.mem_visits (evaluateRule p env tp) (v, .new) before rule after
      rw [← hsplit] at hvisit
      exact List.mem_map_of_mem (f := fun v => Turn.mk tp v.2 v.1.1 v.1.2) hvisit

/-- Every pass whose turns record whole is accounted for. -/
theorem runAlertEvaluation_accounts (w : World)
    (h : ∀ turn ∈ passTurns p env w, turn.raises p env = true → turn.Records env) :
    Accounts w (runAlertEvaluation p env w) := by
  unfold runAlertEvaluation
  unfold passTurns at h
  simp only at h ⊢
  split
  · exact .advance w _
  · rename_i hlisted
    rw [if_neg hlisted] at h
    refine (Accounts.trans (.advance w (env.calls .listTenants)) ?_).trans
      (.trans (.advance _ (env.calls .cleanup)) (.of_same rfl rfl))
    refine Runs.foldl_prefix_invariant (Accounts (w.advance (env.calls .listTenants)))
      (.refl _) ?_
    intro before tenant after hsplit hbefore
    refine hbefore.trans (evaluateTenant_accounts p env _ tenant fun turn hturn => h turn ?_)
    have hvisit := Runs.mem_visits (evaluateTenant p env) (w.advance (env.calls .listTenants))
      before tenant after
    rw [← hsplit] at hvisit
    exact List.mem_flatMap.2 ⟨_, hvisit, hturn⟩

end Pass

/-- **Recording a fire.** It is all or nothing exactly when the second statement does
not fail alone; and a pass in which it never does, and whose retries the queue takes,
leaves no open incident without the retries it is owed. -/
theorem recordsWhole (p : Platform) (env : PassEnv) (w : World) :
    (∀ tp rule firing alert log, AllOrNothing env tp rule firing alert log w ↔
        ¬ RecordsHalf env rule w) ∧
      ((∀ turn ∈ passTurns p env w, turn.raises p env = true → turn.Records env) →
        NothingLost w (runAlertEvaluation p env w)) :=
  ⟨fun tp rule firing alert log => allOrNothing_iff_not_half env tp rule firing alert log w,
    fun h => (runAlertEvaluation_accounts p env w h).nothingLost⟩

/-- A rule fires, and its webhook is down. -/
def refusedFire : PassEnv := (samplePass troubledReads 100).refusing (.fire 7 0)

theorem recordsWhole_sample :
    NothingLost (sampleWorld (sampleRule [sampleHook] 300))
      (runAlertEvaluation samplePlatform refusedFire
        (sampleWorld (sampleRule [sampleHook] 300))) := by
  have hroom : (passTurns samplePlatform refusedFire
      (sampleWorld (sampleRule [sampleHook] 300))).all (fun turn =>
        decide (turn.world.deliveryRetry.length + (turn.pass.noticeChannels turn.rule).length ≤
          World.maxDeliveryRetryLen)) = true := by
    decide +kernel
  refine (recordsWhole samplePlatform refusedFire (sampleWorld (sampleRule [sampleHook] 300))).2
    fun turn hturn _ => ⟨fun hhalf => ?_, fun i => rfl,
      of_decide_eq_true (List.all_eq_true.1 hroom turn hturn)⟩
  have htouched : (refusedFire.calls (.touchRule turn.rule.id)).fails = false := rfl
  rw [hhalf.2.2] at htouched
  cases htouched

/-- The same pass, and the rule cannot be updated. -/
def halfRecorded : PassEnv := refusedFire.failing (.touchRule 7)

theorem not_nothingLost {w w' : World} (t r row : Uuid) (firing : Nat)
    (hopened : .opened t r row firing ∈ w'.trace.drop w.trace.length)
    (hfailed : ∃ d ∈ (w'.trace.drop w.trace.length).filterMap Event.delivery?,
      d.notice = .fire firing ∧ isRetryable d.result = true)
    (hjobs : w'.jobs = []) : ¬ NothingLost w w' := by
  intro h
  obtain ⟨d, hd, hnotice, hretry⟩ := hfailed
  have hjob := h t r row firing d hopened (mem_deliveries.1 hd) hnotice hretry
  rw [hjobs] at hjob
  cases hjob

/-- The row is written, the error is returned, and no retry is queued. -/
theorem not_recordsWhole_halfRecorded :
    ¬ AllOrNothing halfRecorded ⟨sampleTenant, [sampleRule [sampleHook] 300], [], [], []⟩
        (sampleRule [sampleHook] 300) 1 sampleAlert [] (sampleWorld (sampleRule [sampleHook] 300)) ∧
      ¬ NothingLost (sampleWorld (sampleRule [sampleHook] 300))
        (runAlertEvaluation samplePlatform halfRecorded
          (sampleWorld (sampleRule [sampleHook] 300))) := by
  refine ⟨fun hall => ?_, ?_⟩
  · have hsame := congrArg List.length (hall rfl).1
    cases hsame
  · exact not_nothingLost 1 7 100 1 (by decide +kernel) (by decide +kernel) (by decide +kernel)

end Feloxi.Alerting
