import Feloxi.Alerting.Waiting

/-!
# Feloxi.Alerting.Steps

What the evaluation of one rule can do to the world. `evaluateRule_inv` is the
inversion lemma of the loop body: it names six outcomes (`RuleStep`), one per
branch of the state machine, and says of each what becomes of the history, the
queue, the throttle, the streak and the trace. Every property of a pass is
derived from these outcomes; none unfolds the loop again.
-/

namespace Feloxi.Alerting

/-! ### Events -/

/-- Between two states only events of one kind happen. -/
def Emits (Q : Event → Prop) (w w' : World) : Prop :=
  ∃ events, w'.trace = w.trace ++ events ∧ ∀ e ∈ events, Q e

namespace Emits

variable {Q : Event → Prop} {w₁ w₂ w₃ : World}

theorem of_trace_eq (h : w₂.trace = w₁.trace) : Emits Q w₁ w₂ :=
  ⟨[], by rw [h, List.append_nil], by simp⟩

theorem refl (Q : Event → Prop) (w : World) : Emits Q w w := of_trace_eq rfl

theorem trans (h : Emits Q w₁ w₂) (h' : Emits Q w₂ w₃) : Emits Q w₁ w₃ := by
  obtain ⟨first, hfirst, hevents⟩ := h
  obtain ⟨second, hsecond, hevents'⟩ := h'
  refine ⟨first ++ second, by rw [hsecond, hfirst, List.append_assoc], fun e he => ?_⟩
  exact (List.mem_append.1 he).elim (hevents e) (hevents' e)

theorem mono {Q' : Event → Prop} (h : Emits Q w₁ w₂) (hQ : ∀ e, Q e → Q' e) : Emits Q' w₁ w₂ := by
  obtain ⟨events, htrace, hevents⟩ := h
  exact ⟨events, htrace, fun e he => hQ e (hevents e he)⟩

/-- The events after a state are those dropped to. -/
theorem drop (h : Emits Q w₁ w₂) : ∀ e ∈ w₂.trace.drop w₁.trace.length, Q e := by
  obtain ⟨events, htrace, hevents⟩ := h
  rw [htrace, List.drop_left]
  exact hevents

end Emits

/-! ### Deliveries -/

/-- What deliveries leave alone. -/
structure Undisturbed (w w' : World) : Prop where
  alertHistory : w'.alertHistory = w.alertHistory
  historyIds : w'.historyIds = w.historyIds
  deliveryRetry : w'.deliveryRetry = w.deliveryRetry
  throttle : w'.throttle = w.throttle
  resolver : w'.resolver = w.resolver

theorem Undisturbed.refl (w : World) : Undisturbed w w := ⟨rfl, rfl, rfl, rfl, rfl⟩

theorem Undisturbed.trans {w₁ w₂ w₃ : World} (h : Undisturbed w₁ w₂) (h' : Undisturbed w₂ w₃) :
    Undisturbed w₁ w₃ :=
  ⟨h'.alertHistory.trans h.alertHistory, h'.historyIds.trans h.historyIds,
    h'.deliveryRetry.trans h.deliveryRetry, h'.throttle.trans h.throttle,
    h'.resolver.trans h.resolver⟩

theorem undisturbed_advance (w : World) (c : Call) : Undisturbed w (w.advance c) :=
  ⟨by simp, by simp, by simp, by simp, by simp⟩

theorem undisturbed_emit (w : World) (e : Event) : Undisturbed w (w.emit e) :=
  ⟨rfl, rfl, rfl, rfl, rfl⟩

/-- A delivery of a notice, made after waiting for calls of kind `C`. -/
structure Delivers (C : Call → Prop) (tenant : Tenant) (notice : Notice) (alert : FiredAlert)
    (w : World) (d : Delivery) : Prop where
  notice : d.notice = notice
  source : d.source = .ofTenant tenant
  alert : d.alert = alert
  /-- A delivery that succeeded went somewhere. -/
  reached : d.success = true → d.endpoint.isSome
  key : d.result.deliveryKey = d.channel.logKey
  clock : ∃ w', Waits C w w' ∧ d.time = w'.now ∧ d.silences = w'.alertSilences

theorem Delivers.mono {C C' : Call → Prop} {tenant : Tenant} {notice : Notice} {alert : FiredAlert}
    {w : World} {d : Delivery} (hC : ∀ c, C c → C' c) (h : Delivers C tenant notice alert w d) :
    Delivers C' tenant notice alert w d := by
  obtain ⟨w₁, hw₁, hclock⟩ := h.clock
  exact ⟨h.notice, h.source, h.alert, h.reached, h.key, w₁, hw₁.mono hC, hclock⟩

theorem Delivers.after {C : Call → Prop} {tenant : Tenant} {notice : Notice} {alert : FiredAlert}
    {w w' : World} {d : Delivery} (hw : Waits C w w') (h : Delivers C tenant notice alert w' d) :
    Delivers C tenant notice alert w d := by
  obtain ⟨w₁, hw₁, hclock⟩ := h.clock
  exact ⟨h.notice, h.source, h.alert, h.reached, h.key, w₁, hw.trans hw₁, hclock⟩

section Delivery

variable {C : Call → Prop} {p : Platform} {tenant : Tenant} {integrations : List Integration}
  {notice : Notice} {alert : FiredAlert}

theorem markIntegrationRevoked_spec {call : Call} (hcall : C call) (tenantId id : Uuid) (w : World) :
    Waits C w (markIntegrationRevoked call tenantId id w) ∧
      Undisturbed w (markIntegrationRevoked call tenantId id w) ∧
      (markIntegrationRevoked call tenantId id w).trace = w.trace := by
  have hadvance := Waits.advance hcall w
  have hsame := undisturbed_advance w call
  unfold markIntegrationRevoked
  split
  · exact ⟨hadvance, hsame, World.advance_trace w call⟩
  · exact ⟨hadvance.then_same rfl rfl rfl rfl, hsame.trans ⟨rfl, rfl, rfl, rfl, rfl⟩,
      World.advance_trace w call⟩

/-- A send that succeeds had somewhere to go. -/
theorem sendToChannel_reached (p : Platform) (tenant : Tenant) (integrations : List Integration)
    (channel : AlertChannel) (reply : ProviderReply)
    (h : (sendToChannel p tenant integrations channel reply).result.success = true) :
    (sendToChannel p tenant integrations channel reply).endpoint.isSome := by
  have hconnected : ∀ id channelType result dead,
      (sendConnected p integrations id channelType result dead).result.success = true →
        (sendConnected p integrations id channelType result dead).endpoint.isSome := by
    intro id channelType result dead hsuccess
    unfold sendConnected at hsuccess ⊢
    cases hsecret : decryptIntegrationSecret p integrations id channelType with
    | ok secret => rfl
    | error e =>
        rw [hsecret] at hsuccess
        have hfailed := decryptIntegrationSecret_error p integrations id channelType hsecret
        simp [hfailed] at hsuccess
  cases channel with
  | slack | webhook | pagerDuty => rfl
  | email recipients _ =>
      simp only [sendToChannel, sendEmailAlert] at h ⊢
      by_cases hrecipients : recipients.isEmpty = true
      · simp [hrecipients, SendResult.err] at h
      · by_cases hhost : (tenantSmtpHost tenant).isEmpty = true
        · simp [hrecipients, hhost, SendResult.err] at h
        · simp [hrecipients, hhost]
  | slackConnection | discordConnection | pagerDutyConnection | webhookConnection =>
      exact hconnected _ _ _ _ h

/-- One delivery appends one delivery event. -/
theorem deliverChannel_spec {send revoke : Call} (hsend : C send) (hrevoke : C revoke)
    (channel : AlertChannel) (w : World) {r : SendResult × World}
    (hr : deliverChannel p send revoke tenant integrations notice channel alert w = r) :
    Waits C w r.2 ∧ Undisturbed w r.2 ∧
      ∃ d, Delivers (fun c => c = send) tenant notice alert w d ∧ d.outcome = (channel, r.1) ∧
        d.time ≤ r.2.now ∧ r.2.trace = w.trace ++ [.delivery d] := by
  subst hr
  have hadvance := Waits.advance hsend w
  have hsame := undisturbed_advance w send
  let sending := sendToChannel p tenant integrations channel send.reply
  let d := deliveryRecord sending tenant notice channel alert (w.advance send)
  have hd : Delivers (fun c => c = send) tenant notice alert w d :=
    ⟨rfl, rfl, rfl, sendToChannel_reached p tenant integrations channel send.reply,
      sendToChannel_deliveryKey p integrations tenant channel send.reply, w.advance send,
      .advance (C := fun c => c = send) rfl w, rfl, rfl⟩
  have hemit : Waits C w ((w.advance send).emit (.delivery d)) :=
    hadvance.trans (World.emit_waits C _ _)
  have hund : Undisturbed w ((w.advance send).emit (.delivery d)) :=
    hsame.trans (undisturbed_emit _ _)
  have htrace : ((w.advance send).emit (.delivery d)).trace = w.trace ++ [.delivery d] := by
    simp [World.emit]
  unfold deliverChannel
  cases hrevoked : sending.revoked with
  | none =>
      simp only [sending] at hrevoked
      simp only [hrevoked]
      exact ⟨hemit, hund, d, hd, rfl, Nat.le_refl _, htrace⟩
  | some id =>
      obtain ⟨hwaits, hund', htrace'⟩ := markIntegrationRevoked_spec hrevoke tenant.id id
        ((w.advance send).emit (.delivery d))
      simp only [sending] at hrevoked
      simp only [hrevoked]
      exact ⟨hemit.trans hwaits, hund.trans hund', d, hd, rfl, hwaits.now_le, htrace'.trans htrace⟩

/-- The calls made up to the last of `n` sends. -/
def SendCall (send revoke : Nat → Call) (n : Nat) (c : Call) : Prop :=
  (∃ i < n, c = send i) ∨ ∃ i, i + 1 < n ∧ c = revoke i

/-- A sequence of deliveries appends one event per channel, in order. -/
theorem deliverAll_spec {send revoke : Nat → Call} (hsend : ∀ i, C (send i))
    (hrevoke : ∀ i, C (revoke i)) (channels : List AlertChannel) (index : Nat) (w : World)
    {r : List (AlertChannel × SendResult) × World}
    (hr : deliverAll p send revoke tenant integrations notice alert channels index w = r) :
    Waits C w r.2 ∧ Undisturbed w r.2 ∧ r.1.map Prod.fst = channels ∧
      ∃ ds : List Delivery,
        (∀ d ∈ ds, Delivers (SendCall send revoke (index + channels.length)) tenant notice alert w d) ∧
        ds.map (·.outcome) = r.1 ∧ (∀ d ∈ ds, d.time ≤ r.2.now) ∧
        r.2.trace = w.trace ++ ds.map .delivery := by
  induction channels generalizing index w r with
  | nil =>
      subst hr
      exact ⟨.refl C w, .refl w, rfl, [], by simp [deliverAll]⟩
  | cons channel rest ih =>
      obtain ⟨hw₁, hu₁, d, hd, houtcome, htime, htrace₁⟩ :=
        deliverChannel_spec (p := p) (C := C) (hsend index) (hrevoke index) channel w rfl
      obtain ⟨hw₂, hu₂, hfst, ds, hds, houtcomes, htimes, htrace₂⟩ := ih (index + 1) _ rfl
      subst hr
      refine ⟨hw₁.trans hw₂, hu₁.trans hu₂, ?_, d :: ds, ?_, ?_, ?_, ?_⟩
      · simpa [deliverAll] using hfst
      · intro e he
        rw [List.length_cons]
        rcases List.mem_cons.1 he with rfl | he
        · exact hd.mono fun c hc => .inl ⟨index, by omega, hc⟩
        · -- Something is sent after the first channel, so its revocation comes before.
          have hrest : 0 < rest.length := by
            rw [← hfst, ← houtcomes, List.length_map, List.length_map]
            exact List.length_pos_of_mem he
          refine ((hds e he).mono ?_).after ?_
          · intro c hcall
            rcases hcall with ⟨i, hi, hc⟩ | ⟨i, hi, hc⟩
            · exact .inl ⟨i, by omega, hc⟩
            · exact .inr ⟨i, by omega, hc⟩
          · exact (deliverChannel_spec (p := p)
              (C := SendCall send revoke (index + (rest.length + 1)))
              (.inl ⟨index, by omega, rfl⟩) (.inr ⟨index, by omega, rfl⟩) channel w rfl).1
      · simp only [deliverAll, List.map_cons, houtcome, houtcomes]
      · intro e he
        rcases List.mem_cons.1 he with rfl | he
        · exact Nat.le_trans htime hw₂.now_le
        · exact htimes e he
      · simpa [deliverAll, htrace₁] using htrace₂

end Delivery

/-! ### Retries -/

/-- What scheduling retries leaves alone. -/
structure QueueOnly (w w' : World) : Prop where
  alertHistory : w'.alertHistory = w.alertHistory
  historyIds : w'.historyIds = w.historyIds
  throttle : w'.throttle = w.throttle
  resolver : w'.resolver = w.resolver
  trace : w'.trace = w.trace

theorem QueueOnly.refl (w : World) : QueueOnly w w := ⟨rfl, rfl, rfl, rfl, rfl⟩

theorem QueueOnly.trans {w₁ w₂ w₃ : World} (h : QueueOnly w₁ w₂) (h' : QueueOnly w₂ w₃) :
    QueueOnly w₁ w₃ :=
  ⟨h'.alertHistory.trans h.alertHistory, h'.historyIds.trans h.historyIds,
    h'.throttle.trans h.throttle, h'.resolver.trans h.resolver, h'.trace.trans h.trace⟩

/-- When a retry runs that is scheduled at a time. -/
def retryScore (t : Instant) (attempt : Nat) (result : SendResult) : F64 :=
  (toUnixF64 t).add (backoffSecs attempt result.retryAfter)

/-- Between two states the queue gets entries made as `new` says, each at its time, and
as jobs at most those listed. -/
structure Enqueues (new : Instant → F64 × DeliveryRetryJob → Prop) (jobs : List DeliveryRetryJob)
    (w w' : World) : Prop where
  now_le : w.now ≤ w'.now
  entries : ∀ e ∈ w'.deliveryRetry, e ∈ w.deliveryRetry ∨ ∃ t, w.now ≤ t ∧ t ≤ w'.now ∧ new t e
  jobs : w'.jobs.Subperm (w.jobs ++ jobs)

namespace Enqueues

variable {new : Instant → F64 × DeliveryRetryJob → Prop} {first second : List DeliveryRetryJob}
  {w₁ w₂ w₃ : World}

theorem of_same (hnow : w₁.now ≤ w₂.now) (hqueue : w₂.deliveryRetry = w₁.deliveryRetry) :
    Enqueues new [] w₁ w₂ where
  now_le := hnow
  entries e he := .inl (hqueue ▸ he)
  jobs := by rw [World.jobs, hqueue, List.append_nil]; exact .refl _

theorem trans (h : Enqueues new first w₁ w₂) (h' : Enqueues new second w₂ w₃) :
    Enqueues new (first ++ second) w₁ w₃ where
  now_le := Nat.le_trans h.now_le h'.now_le
  entries e he := by
    rcases h'.entries e he with he | ⟨t, hlow, hhigh, hnew⟩
    · rcases h.entries e he with he | ⟨t, hlow, hhigh, hnew⟩
      · exact .inl he
      · exact .inr ⟨t, hlow, Nat.le_trans hhigh h'.now_le, hnew⟩
    · exact .inr ⟨t, Nat.le_trans h.now_le hlow, hhigh, hnew⟩
  jobs := by
    rw [← List.append_assoc]
    exact h'.jobs.trans ((List.subperm_append_right second).2 h.jobs)

/-- Fewer entries as more jobs. -/
theorem mono {new' : Instant → F64 × DeliveryRetryJob → Prop} {more : List DeliveryRetryJob}
    (h : Enqueues new first w₁ w₂) (hjobs : first.Subperm more)
    (hnew : ∀ t e, w₁.now ≤ t → new t e → new' t e) : Enqueues new' more w₁ w₂ where
  now_le := h.now_le
  entries e he := (h.entries e he).imp_right fun ⟨t, hlow, hhigh, hmade⟩ =>
    ⟨t, hlow, hhigh, hnew t e hlow hmade⟩
  jobs := h.jobs.trans ((List.subperm_append_left _).2 hjobs)

/-- The calls that do not touch the queue, before and after. -/
theorem between {w₀ w₄ : World} (h : Enqueues new first w₁ w₂) (hbefore : w₀.now ≤ w₁.now)
    (hqueue : w₁.deliveryRetry = w₀.deliveryRetry) (hafter : w₂.now ≤ w₄.now)
    (hqueue' : w₄.deliveryRetry = w₂.deliveryRetry) : Enqueues new first w₀ w₄ := by
  have hall : Enqueues new (([] ++ first) ++ []) w₀ w₄ :=
    ((of_same hbefore hqueue).trans h).trans (of_same hafter hqueue')
  rw [List.append_nil, List.nil_append] at hall
  exact hall

theorem foldl {ι : Type*} {f : World → ι → World} {job : ι → DeliveryRetryJob} {items : List ι}
    (h : ∀ v, ∀ i ∈ items, Enqueues new [job i] v (f v i)) (w : World) :
    Enqueues new (items.map job) w (items.foldl f w) := by
  induction items generalizing w with
  | nil => exact .of_same (Nat.le_refl _) rfl
  | cons i rest ih =>
      exact (h w i List.mem_cons_self).trans
        (ih (fun v j hj => h v j (List.mem_cons_of_mem i hj)) (f w i))

end Enqueues

/-- A call schedules nothing, or puts the job of the next attempt at the end of the
queue with its score. -/
theorem maybeScheduleRetry_queue (call : Call) (tenantId historyId : Uuid) (attempt : Nat)
    (channel : AlertChannel) (alert : FiredAlert) (result : SendResult) (w : World) :
    let job := { tenantId, historyId, attempt := attempt + 1, channel, alert }
    (maybeScheduleRetry call tenantId historyId attempt channel alert result w).deliveryRetry =
        w.deliveryRetry ∨
      isRetryable result = true ∧ attempt < maxDeliveryAttempts ∧
        (maybeScheduleRetry call tenantId historyId attempt channel alert result w).deliveryRetry =
          w.deliveryRetry.filter (fun e => e.2 != job) ++ [(retryScore w.now attempt result, job)] := by
  unfold maybeScheduleRetry
  by_cases hgiven : (!isRetryable result || decide (attempt ≥ maxDeliveryAttempts)) = true
  · rw [if_pos hgiven]
    exact .inl rfl
  · rw [if_neg hgiven]
    simp only [Bool.or_eq_true, Bool.not_eq_true', decide_eq_true_eq, not_or, Bool.not_eq_false,
      Nat.not_le, ge_iff_le] at hgiven
    simp only
    split
    · exact .inl (World.advance_deliveryRetry w call)
    · unfold World.scheduleDeliveryRetry
      split
      · exact .inl (World.advance_deliveryRetry w call)
      · exact .inr ⟨hgiven.1, hgiven.2, by simp only [World.advance_deliveryRetry, retryScore]⟩

/-- Scheduling adds at most the job of the next attempt. -/
theorem maybeScheduleRetry_spec {C : Call → Prop} {call : Call} (hcall : C call)
    (tenantId historyId : Uuid) (attempt : Nat) (channel : AlertChannel) (alert : FiredAlert)
    (result : SendResult) (w : World) {w' : World}
    (hw' : maybeScheduleRetry call tenantId historyId attempt channel alert result w = w') :
    Waits C w w' ∧ QueueOnly w w' ∧
      Enqueues (fun t e => isRetryable result = true ∧ attempt < maxDeliveryAttempts ∧
          e = (retryScore t attempt result,
            { tenantId, historyId, attempt := attempt + 1, channel, alert }))
        (if attempt < maxDeliveryAttempts
          then [{ tenantId, historyId, attempt := attempt + 1, channel, alert }] else []) w w' := by
  have hqueue := maybeScheduleRetry_queue call tenantId historyId attempt channel alert result w
  rw [hw'] at hqueue
  have hadvance := Waits.advance hcall w
  have hadvanced : QueueOnly w (w.advance call) := ⟨by simp, by simp, by simp, by simp, by simp⟩
  have hboth : Waits C w w' ∧ QueueOnly w w' := by
    subst hw'
    unfold maybeScheduleRetry
    split
    · exact ⟨.refl C w, .refl w⟩
    · simp only
      split
      · exact ⟨hadvance, hadvanced⟩
      · unfold World.scheduleDeliveryRetry
        split
        · exact ⟨hadvance, hadvanced⟩
        · exact ⟨hadvance.trans (.of_same rfl rfl rfl rfl),
            hadvanced.trans ⟨rfl, rfl, rfl, rfl, rfl⟩⟩
  refine ⟨hboth.1, hboth.2, ?_⟩
  rcases hqueue with hsame | ⟨hretryable, hattempt, hnew⟩
  · exact (Enqueues.of_same hboth.1.now_le hsame).mono (List.nil_subperm) fun _ _ _ h => h
  · refine ⟨hboth.1.now_le, fun e he => ?_, ?_⟩
    · rw [hnew] at he
      rcases List.mem_append.1 he with hold | hlast
      · exact .inl (List.mem_of_mem_filter hold)
      · exact .inr ⟨w.now, Nat.le_refl _, hboth.1.now_le, hretryable, hattempt,
          List.mem_singleton.1 hlast⟩
    · rw [World.jobs, hnew, if_pos hattempt, List.map_append]
      exact (List.subperm_append_right _).2 (List.filter_sublist.map Prod.snd).subperm

/-! ### One rule -/

/-- The rule a call of the loop body is made for. -/
def Point.rule : Point → Option Uuid
  | .context r | .alertId r | .fire r _ | .fireRevoke r _ | .insertHistory r | .touchRule r => some r
  | .schedule r _ | .recordFired r | .resolve r | .notice r _ | .noticeRevoke r _ => some r
  | .listTenants | .listRules _ | .listOpen _ | .silentClose _ _ | .integrations _ => none
  | .silences _ | .cleanup => none

/-- A call made while evaluating a rule. -/
def RuleCall (env : PassEnv) (ruleId : Uuid) (c : Call) : Prop :=
  ∃ pt : Point, pt.rule = some ruleId ∧ c = env.calls pt

/-- A history row written for a firing of a rule. -/
structure NewRow (env : PassEnv) (tp : TenantPass) (rule : AlertRule) (alert : FiredAlert) (w : World)
    (h : AlertHistoryRow) : Prop where
  inserted : (env.calls (.insertHistory rule.id)).fails = false
  id : h.id ∉ w.historyIds
  tenantId : h.tenantId = tp.tenant.id
  ruleId : h.ruleId = rule.id
  resolvedAt : h.resolvedAt = none
  severity : h.severity = alert.severity
  details : h.details = alert.details

section Rule

variable (p : Platform) (env : PassEnv) (tp : TenantPass) (rule : AlertRule)

/-- Recording a firing appends at most one row, whatever it returns. -/
theorem recordAlertFired_spec (firing : Nat) (alert : FiredAlert)
    (log : List (String × ChannelDeliveryStatus)) (w : World) {r : Option Uuid × World}
    (hr : recordAlertFired env tp rule firing alert log w = r) :
    Waits (RuleCall env rule.id) w r.2 ∧ r.2.deliveryRetry = w.deliveryRetry ∧
      r.2.throttle = w.throttle ∧ r.2.resolver = w.resolver ∧
      ∃ row : Option AlertHistoryRow,
        (∀ h ∈ row, NewRow env tp rule alert w h ∧ h.channelsSent = log) ∧
        (row = none → (env.calls (.insertHistory rule.id)).fails = true ∨
          (env.calls (.insertHistory rule.id)).uuid ∈ w.historyIds) ∧
        (∀ id ∈ r.1, ∃ h ∈ row, h.id = id) ∧
        r.2.alertHistory = w.alertHistory ++ row.toList ∧
        r.2.historyIds = row.toList.map (·.id) ++ w.historyIds ∧
        r.2.trace = w.trace ++ row.toList.map fun h => .opened tp.tenant.id rule.id h.id firing := by
  subst hr
  have hinsert : RuleCall env rule.id (env.calls (.insertHistory rule.id)) := ⟨_, rfl, rfl⟩
  have htouch : RuleCall env rule.id (env.calls (.touchRule rule.id)) := ⟨_, rfl, rfl⟩
  have hadvance := Waits.advance hinsert w
  by_cases hrefused : (env.calls (.insertHistory rule.id)).fails = true ∨
      (env.calls (.insertHistory rule.id)).uuid ∈ w.historyIds
  · have hcond : ((env.calls (.insertHistory rule.id)).fails ||
        (w.advance (env.calls (.insertHistory rule.id))).historyIds.contains
          (env.calls (.insertHistory rule.id)).uuid) = true := by
      simpa using hrefused
    unfold recordAlertFired
    simp only [hcond, if_true]
    exact ⟨hadvance, by simp, by simp, by simp, none, by simp, fun _ => hrefused, by simp, by simp,
      by simp, by simp⟩
  · have hcond : ((env.calls (.insertHistory rule.id)).fails ||
        (w.advance (env.calls (.insertHistory rule.id))).historyIds.contains
          (env.calls (.insertHistory rule.id)).uuid) = false := by
      simpa using hrefused
    rw [not_or, Bool.not_eq_true] at hrefused
    let h : AlertHistoryRow := {
      id := (env.calls (.insertHistory rule.id)).uuid
      tenantId := tp.tenant.id
      ruleId := rule.id
      firedAt := (w.advance (env.calls (.insertHistory rule.id))).now
      resolvedAt := none
      severity := alert.severity
      summary := alert.summary
      details := alert.details
      channelsSent := log }
    have hrow : NewRow env tp rule alert w h ∧ h.channelsSent = log :=
      ⟨⟨hrefused.1, hrefused.2, rfl, rfl, rfl, rfl, rfl⟩, rfl⟩
    let w₀ := ((w.advance (env.calls (.insertHistory rule.id))).insertHistory h).emit
      (.opened tp.tenant.id rule.id h.id firing)
    let w₁ := w₀.advance (env.calls (.touchRule rule.id))
    have hw₀ : Waits (RuleCall env rule.id) w w₀ := hadvance.then_same rfl rfl rfl rfl
    have hw₁ : Waits (RuleCall env rule.id) w w₁ := hw₀.then_advance htouch
    unfold recordAlertFired
    simp only [hcond, Bool.false_eq_true, if_false]
    split
    · exact ⟨hw₁, by simp [World.emit, World.insertHistory],
        by simp [World.emit, World.insertHistory], by simp [World.emit, World.insertHistory],
        some h, by simpa using hrow, by simp, by simp, by simp [World.emit, World.insertHistory, h],
        by simp [World.emit, World.insertHistory, h], by simp [World.emit, World.insertHistory, h]⟩
    · refine ⟨hw₁.trans (World.touchRule_waits _ w₁ rule.id), ?_⟩
      exact ⟨by simp [World.emit, World.insertHistory, World.touchRule],
        by simp [World.emit, World.insertHistory, World.touchRule],
        by simp [World.emit, World.insertHistory, World.touchRule],
        some h, by simpa using hrow, by simp, by simp [h],
        by simp [World.emit, World.insertHistory, World.touchRule, h],
        by simp [World.emit, World.insertHistory, World.touchRule, h],
        by simp [World.emit, World.insertHistory, World.touchRule, h]⟩

/-- Queueing the retries of a firing adds a job of its history row for each failure. -/
theorem scheduleRetries_spec (alert : FiredAlert) (historyId : Uuid)
    (failed : List (AlertChannel × SendResult)) (w : World) {w' : World}
    (hw' : scheduleRetries env tp rule alert historyId failed w = w') :
    Waits (RuleCall env rule.id) w w' ∧ QueueOnly w w' ∧
      Enqueues (fun t e => ∃ f ∈ failed, isRetryable f.2 = true ∧ e = (retryScore t 1 f.2,
          { tenantId := tp.tenant.id, historyId, attempt := 2, channel := f.1, alert }))
        (failed.map fun f =>
          { tenantId := tp.tenant.id, historyId, attempt := 2, channel := f.1, alert }) w w' := by
  subst hw'
  let job : AlertChannel → DeliveryRetryJob := fun channel =>
    { tenantId := tp.tenant.id, historyId, attempt := 2, channel, alert }
  let schedule : World → (AlertChannel × SendResult) × Nat → World := fun v f =>
    maybeScheduleRetry (env.calls (.schedule rule.id f.2)) tp.tenant.id historyId 1 f.1.1 alert
      f.1.2 v
  have hstep : ∀ v f, Waits (RuleCall env rule.id) v (schedule v f) ∧ QueueOnly v (schedule v f) ∧
      Enqueues (fun t e => isRetryable f.1.2 = true ∧ 1 < maxDeliveryAttempts ∧
        e = (retryScore t 1 f.1.2, job f.1.1)) [job f.1.1] v (schedule v f) := fun v f =>
    maybeScheduleRetry_spec (C := RuleCall env rule.id) ⟨.schedule rule.id f.2, rfl, rfl⟩
      tp.tenant.id historyId 1 f.1.1 alert f.1.2 v rfl
  have hjobs : Enqueues (fun t e => ∃ f ∈ failed, isRetryable f.2 = true ∧
      e = (retryScore t 1 f.2, job f.1)) (failed.zipIdx.map fun f => job f.1.1) w
        (failed.zipIdx.foldl schedule w) := by
    refine Enqueues.foldl (fun v f hf => (hstep v f).2.2.mono (List.Subperm.refl _) ?_) w
    intro t e _ ⟨hretryable, _, hmade⟩
    have hmem := List.mem_map_of_mem (f := Prod.fst) hf
    rw [List.zipIdx_map_fst] at hmem
    exact ⟨f.1, hmem, hretryable, hmade⟩
  refine ⟨?_, ?_, ?_⟩
  · exact Runs.foldl_rel (Waits _) (Waits.refl _) Waits.trans (fun v f _ => (hstep v f).1) w
  · exact Runs.foldl_rel QueueOnly QueueOnly.refl QueueOnly.trans (fun v f _ => (hstep v f).2.1) w
  · have hlist : (failed.zipIdx.map fun f => job f.1.1) = failed.map fun f => job f.1 := by
      conv_rhs => rw [← List.zipIdx_map_fst 0 failed, List.map_map]
      rfl
    rw [← hlist]
    exact hjobs

/-- A call made up to the last send of a fire notice to `n` channels. -/
abbrev FireCall (env : PassEnv) (ruleId : Uuid) (n : Nat) : Call → Prop :=
  SendCall (fun i => env.calls (.fire ruleId i)) (fun i => env.calls (.fireRevoke ruleId i)) n

/-- A call made up to the last send of a resolved notice to `n` channels. -/
abbrev NoticeCall (env : PassEnv) (ruleId : Uuid) (n : Nat) (c : Call) : Prop :=
  c = env.calls (.resolve ruleId) ∨
    SendCall (fun i => env.calls (.notice ruleId i)) (fun i => env.calls (.noticeRevoke ruleId i)) n c

/-- The channels a notice of a rule goes to in a pass. -/
def TenantPass.noticeChannels (tp : TenantPass) (rule : AlertRule) : List AlertChannel :=
  if isSilenced tp.silences rule.id then [] else rule.acceptingChannels

variable {tp rule} in
/-- A notice that goes somewhere goes to all accepting channels. -/
theorem TenantPass.noticeChannels_of_ne_nil (h : tp.noticeChannels rule ≠ []) :
    isSilenced tp.silences rule.id = false ∧ tp.noticeChannels rule = rule.acceptingChannels := by
  unfold noticeChannels at h ⊢
  cases hsilenced : isSilenced tp.silences rule.id with
  | true => simp [hsilenced] at h
  | false => simp

/-- An incident raised: its deliveries, the row if one was written, and the
record of the firing. -/
structure Raised (w w' : World) (alert : FiredAlert) (ds : List Delivery)
    (row : Option AlertHistoryRow) : Prop where
  waits : Waits (RuleCall env rule.id) w w'
  raisedFor : ∃ ctx now, alert = firedAlert env tp rule ctx now
  deliveries : ∀ d ∈ ds, Delivers (FireCall env rule.id (tp.noticeChannels rule).length) tp.tenant
    (.fire w.trace.length) alert w d
  channels : ds.map (·.channel) = tp.noticeChannels rule
  written : ∀ h ∈ row, NewRow env tp rule alert w h
  log : ∀ h ∈ row, h.channelsSent = deliveryLog (ds.map (·.outcome))
  refused : row = none → (env.calls (.insertHistory rule.id)).fails = true ∨
    (env.calls (.insertHistory rule.id)).uuid ∈ w.historyIds
  alertHistory : w'.alertHistory = w.alertHistory ++ row.toList
  historyIds : w'.historyIds = row.toList.map (·.id) ++ w.historyIds
  queue : Enqueues (fun t e => ∃ h ∈ row, ∃ d ∈ ds, d.time ≤ t ∧ isRetryable d.result = true ∧
      e = (retryScore t 1 d.result, d.retryJob tp.tenant.id h.id 2))
    (row.toList.flatMap fun h => ds.map fun d => d.retryJob tp.tenant.id h.id 2) w w'
  throttle : w'.throttle = w.throttle.recordFired w'.now rule.id
  resolver : w'.resolver = w.resolver
  trace : w'.trace = w.trace ++ (ds.map .delivery ++
    (row.toList.map (fun h => .opened tp.tenant.id rule.id h.id w.trace.length) ++
      [.alertFired tp.tenant.id rule.id rule.name alert.severity alert.summary,
        .fireRecorded rule.id w'.now rule.cooldownSecs]))

variable {env tp rule} in
/-- The jobs a firing adds are of its row. -/
theorem Raised.deliveryRetry {w w' : World} {alert : FiredAlert} {ds : List Delivery}
    {row : Option AlertHistoryRow} (h : Raised env tp rule w w' alert ds row) :
    ∀ e ∈ w'.deliveryRetry, e ∈ w.deliveryRetry ∨ ∃ h ∈ row, e.2.historyId = h.id := by
  intro e he
  refine (h.queue.entries e he).imp_right fun ⟨_, _, _, new, hnew, d, _, _, _, hmade⟩ => ?_
  exact ⟨new, hnew, by rw [hmade]; rfl⟩

/-- The retries of a firing, if its row was written. -/
def scheduledFor (alert : FiredAlert) (historyId : Option Uuid)
    (failed : List (AlertChannel × SendResult)) (w : World) : World :=
  match historyId with
  | some historyId => scheduleRetries env tp rule alert historyId failed w
  | none => w

theorem raiseIncident_spec (ctx : EvaluationContext) (w : World) :
    ∃ alert ds row, Raised env tp rule w (raiseIncident p env tp rule ctx w) alert ds row := by
  let C := RuleCall env rule.id
  let alert := firedAlert env tp rule ctx w.now
  let delivered := deliverAll p (fun i => env.calls (.fire rule.id i))
    (fun i => env.calls (.fireRevoke rule.id i)) tp.tenant tp.integrations (.fire w.trace.length)
    alert (tp.noticeChannels rule) 0 w
  let recorded := recordAlertFired env tp rule w.trace.length alert (deliveryLog delivered.1)
    delivered.2
  let failed := delivered.1.filter fun r => !r.2.success
  let queued := scheduledFor env tp rule alert recorded.1 failed recorded.2
  let announced := queued.emit (.alertFired tp.tenant.id rule.id rule.name alert.severity
    alert.summary)
  let last := announced.advance (env.calls (.recordFired rule.id))
  obtain ⟨hw₁, hu₁, hfst, ds, hds, houtcomes, htimes, htrace₁⟩ := deliverAll_spec (C := C)
    (fun i => ⟨.fire rule.id i, rfl, rfl⟩) (fun i => ⟨.fireRevoke rule.id i, rfl, rfl⟩)
    (tp.noticeChannels rule) 0 w (r := delivered) rfl
  obtain ⟨hw₂, hqueue₂, hthrottle₂, hresolver₂, row, hrow, hrefused, hret, hhistory₂, hids₂,
    htrace₂⟩ := recordAlertFired_spec env tp rule w.trace.length alert
      (deliveryLog delivered.1) delivered.2 (r := recorded) rfl
  let made : Instant → F64 × DeliveryRetryJob → Prop := fun t e => ∃ h ∈ row, ∃ d ∈ ds,
    d.time ≤ t ∧ isRetryable d.result = true ∧
      e = (retryScore t 1 d.result, d.retryJob tp.tenant.id h.id 2)
  let jobs := row.toList.flatMap fun h => ds.map fun d => d.retryJob tp.tenant.id h.id 2
  have hqueued : Waits C recorded.2 queued ∧ QueueOnly recorded.2 queued ∧
      Enqueues made jobs recorded.2 queued := by
    cases hid : recorded.1 with
    | none =>
        simp only [queued, hid, scheduledFor]
        exact ⟨.refl C _, .refl _, (Enqueues.of_same (Nat.le_refl _) rfl).mono List.nil_subperm
          fun _ _ _ h => h⟩
    | some historyId =>
        simp only [queued, hid, scheduledFor]
        obtain ⟨hwaits, honly, hscheduled⟩ :=
          scheduleRetries_spec env tp rule alert historyId failed recorded.2 rfl
        obtain ⟨h, hh, rfl⟩ := hret historyId (by simp [hid])
        have halert : ∀ d ∈ ds, d.alert = alert := fun d hd => (hds d hd).alert
        refine ⟨hwaits, honly, hscheduled.mono ?_ ?_⟩
        · -- One job for each failure, so at most one for each delivery.
          have hall : ds.map (fun d => d.retryJob tp.tenant.id h.id 2) = delivered.1.map fun f =>
              { tenantId := tp.tenant.id, historyId := h.id, attempt := 2, channel := f.1, alert } := by
            rw [← houtcomes, List.map_map]
            refine List.map_congr_left fun d hd => ?_
            rw [Delivery.retryJob, halert d hd]
            rfl
          have hone : jobs = ds.map fun d => d.retryJob tp.tenant.id h.id 2 := by
            simp only [jobs, Option.mem_def.1 hh, Option.toList_some, List.flatMap_cons,
              List.flatMap_nil, List.append_nil]
          rw [hone, hall]
          exact (List.filter_sublist.map _).subperm
        · rintro t e ht ⟨f, hf, hretryable, he⟩
          have hmem : f ∈ ds.map (·.outcome) := by
            rw [houtcomes]
            exact List.mem_of_mem_filter hf
          obtain ⟨d, hd, rfl⟩ := List.mem_map.1 hmem
          have htime : d.time ≤ t := Nat.le_trans (htimes d hd) (Nat.le_trans hw₂.now_le ht)
          refine ⟨h, hh, d, hd, htime, hretryable, ?_⟩
          rw [he, Delivery.retryJob, halert d hd]
          rfl
  obtain ⟨hw₃, honly, hjobs⟩ := hqueued
  have hcall : C (env.calls (.recordFired rule.id)) := ⟨.recordFired rule.id, rfl, rfl⟩
  have hw₄ : Waits C w last :=
    (((hw₁.trans hw₂).trans hw₃).trans (World.emit_waits C _ _)).then_advance hcall
  refine ⟨alert, ds, row, ?_⟩
  exact {
    waits := hw₄.then_same rfl rfl rfl rfl
    raisedFor := ⟨ctx, w.now, rfl⟩
    deliveries := fun d hd => (Nat.zero_add (tp.noticeChannels rule).length ▸ hds d hd)
    channels := by
      rw [← hfst, ← houtcomes, List.map_map]
      rfl
    written := fun h hh =>
      { (hrow h hh).1 with id := by rw [← hu₁.historyIds]; exact (hrow h hh).1.id }
    log := fun h hh => by rw [houtcomes]; exact (hrow h hh).2
    refused := fun hnone => by rw [← hu₁.historyIds]; exact hrefused hnone
    alertHistory := by
      show last.alertHistory = _
      simp only [last, announced, World.advance_alertHistory, World.emit]
      rw [honly.alertHistory, hhistory₂, hu₁.alertHistory]
    historyIds := by
      show last.historyIds = _
      simp only [last, announced, World.advance_historyIds, World.emit]
      rw [honly.historyIds, hids₂, hu₁.historyIds]
    queue := by
      have hbefore : w.now ≤ recorded.2.now := (hw₁.trans hw₂).now_le
      refine hjobs.between hbefore (by rw [hqueue₂, hu₁.deliveryRetry]) ?_ ?_
      · show queued.now ≤ last.now
        exact World.now_le_advance announced _
      · show last.deliveryRetry = queued.deliveryRetry
        simp only [last, announced, World.advance_deliveryRetry, World.emit]
    throttle := by
      have hlast : last.throttle = w.throttle := by
        simp only [last, announced, World.advance_throttle, World.emit]
        rw [honly.throttle, hthrottle₂, hu₁.throttle]
      show last.throttle.recordFired last.now rule.id = _
      rw [hlast]
      rfl
    resolver := by
      show last.resolver = _
      simp only [last, announced, World.advance_resolver, World.emit]
      rw [honly.resolver, hresolver₂, hu₁.resolver]
    trace := by
      have hlast : last.trace = w.trace ++ ds.map .delivery ++
          row.toList.map (fun h => .opened tp.tenant.id rule.id h.id w.trace.length) ++
          [.alertFired tp.tenant.id rule.id rule.name alert.severity alert.summary] := by
        simp only [last, announced, World.advance_trace, World.emit]
        rw [honly.trace, htrace₂, htrace₁]
      show last.trace ++ [.fireRecorded rule.id last.now rule.cooldownSecs] = _
      rw [hlast]
      simp only [List.append_assoc, List.singleton_append]
      rfl }

/-- The rows of a rule with its open ones closed, unless the statement failed. -/
def closedHistory (failed : Bool) (t : Instant) (tenantId ruleId : Uuid)
    (history : List AlertHistoryRow) : List AlertHistoryRow :=
  if failed then history
  else history.map fun h => if h.isOpenFor tenantId ruleId then { h with resolvedAt := some t } else h

/-- An incident resolved: its rows closed if the statement succeeded, the streak
forgotten, and the notice sent. -/
structure Resolved (w w' : World) (alert : FiredAlert) (ds : List Delivery) : Prop where
  waits : Waits (RuleCall env rule.id) w w'
  noticeFor : ∃ since now, alert = resolvedNotice env tp rule since now
  deliveries : ∀ d ∈ ds, Delivers (NoticeCall env rule.id (tp.noticeChannels rule).length) tp.tenant
    (.resolved ((w.openRows tp.tenant.id rule.id).map (·.id))) alert w d
  channels : ds.map (·.channel) = tp.noticeChannels rule
  alertHistory : ∃ t, w.now ≤ t ∧ w'.alertHistory = closedHistory
    (env.calls (.resolve rule.id)).fails t tp.tenant.id rule.id w.alertHistory
  historyIds : w'.historyIds = w.historyIds
  deliveryRetry : w'.deliveryRetry = w.deliveryRetry
  throttle : w'.throttle = w.throttle
  resolver : w'.resolver = w.resolver.forget rule.id
  trace : w'.trace = w.trace ++ (.resolved tp.tenant.id rule.id
      (if (env.calls (.resolve rule.id)).fails then []
        else (w.openRows tp.tenant.id rule.id).map (·.id)) ::
    .forgot rule.id :: (ds.map .delivery ++
      [.alertResolved tp.tenant.id rule.id rule.name alert.summary]))

theorem resolveIncident_spec (since : Instant) (w : World) :
    ∃ alert ds, Resolved env tp rule w (resolveIncident p env tp rule since w) alert ds := by
  let C := RuleCall env rule.id
  let resolve := env.calls (.resolve rule.id)
  let waited := w.advance resolve
  let incident := (waited.openRows tp.tenant.id rule.id).map (·.id)
  let closed := if resolve.fails then waited else waited.resolveAlertsForRule tp.tenant.id rule.id
  let logged := closed.emit (.resolved tp.tenant.id rule.id (if resolve.fails then [] else incident))
  let forgotten := { logged with resolver := logged.resolver.forget rule.id }.emit (.forgot rule.id)
  let alert := resolvedNotice env tp rule since forgotten.now
  let delivered := deliverAll p (fun i => env.calls (.notice rule.id i))
    (fun i => env.calls (.noticeRevoke rule.id i)) tp.tenant tp.integrations (.resolved incident)
    alert (tp.noticeChannels rule) 0 forgotten
  obtain ⟨hdelivered, hund, hfst, ds, hds, houtcomes, -, htrace⟩ := deliverAll_spec (C := C)
    (fun i => ⟨.notice rule.id i, rfl, rfl⟩) (fun i => ⟨.noticeRevoke rule.id i, rfl, rfl⟩)
    (tp.noticeChannels rule) 0 forgotten (r := delivered) rfl
  have hincident : incident = (w.openRows tp.tenant.id rule.id).map (·.id) := by
    simp only [incident, waited, World.openRows, World.advance_alertHistory]
  have hclosed : ∀ {C : Call → Prop}, C resolve → Waits C w closed := by
    intro C hC
    have hwaited : Waits C w waited := .advance hC w
    simp only [closed]
    split
    · exact hwaited
    · exact hwaited.then_same rfl rfl rfl rfl
  have hforgotten : Waits C w forgotten :=
    (hclosed ⟨.resolve rule.id, rfl, rfl⟩).then_same rfl rfl rfl rfl
  have hsent : Waits (NoticeCall env rule.id (tp.noticeChannels rule).length) w forgotten :=
    (hclosed (.inl rfl)).then_same rfl rfl rfl rfl
  have hfields : closed.historyIds = w.historyIds ∧ closed.deliveryRetry = w.deliveryRetry ∧
      closed.throttle = w.throttle ∧ closed.resolver = w.resolver ∧ closed.trace = w.trace ∧
      closed.alertHistory = closedHistory resolve.fails waited.now tp.tenant.id rule.id
        w.alertHistory := by
    simp only [closed, waited, closedHistory]
    cases resolve.fails <;> simp [World.resolveAlertsForRule]
  obtain ⟨hids, hqueue, hthrottle, hresolver, htrace₀, hhistory⟩ := hfields
  refine ⟨alert, ds, ?_⟩
  exact {
    waits := (hforgotten.trans hdelivered).then_same rfl rfl rfl rfl
    noticeFor := ⟨since, forgotten.now, rfl⟩
    deliveries := fun d hd => by
      rw [Nat.zero_add] at hds
      rw [← hincident]
      exact ((hds d hd).mono fun c hc => .inr hc).after hsent
    channels := by
      rw [← hfst, ← houtcomes, List.map_map]
      rfl
    alertHistory := ⟨waited.now, World.now_le_advance w resolve, by
      show delivered.2.alertHistory = _
      rw [hund.alertHistory]
      exact hhistory⟩
    historyIds := hund.historyIds.trans hids
    deliveryRetry := hund.deliveryRetry.trans hqueue
    throttle := hund.throttle.trans hthrottle
    resolver := by
      show delivered.2.resolver = _
      rw [hund.resolver]
      show closed.resolver.forget rule.id = _
      rw [hresolver]
    trace := by
      show delivered.2.trace ++ [.alertResolved tp.tenant.id rule.id rule.name alert.summary] = _
      rw [htrace]
      show closed.trace ++ [.resolved tp.tenant.id rule.id (if resolve.fails then [] else incident)]
        ++ [.forgot rule.id] ++ ds.map .delivery ++ _ = _
      rw [htrace₀, hincident]
      simp only [List.append_assoc, List.cons_append, List.nil_append, resolve] }

/-- The world in which a rule has been evaluated, before the state machine acts. -/
def judged (fired : Bool) (w : World) : World :=
  (w.advance (env.calls (.context rule.id))).emit
    (.evaluated tp.tenant.id rule.id fired (tp.openSince rule.id))

section Judged

variable (fired : Bool) (w : World)

theorem judged_waits : Waits (RuleCall env rule.id) w (judged env tp rule fired w) :=
  (Waits.advance ⟨.context rule.id, rfl, rfl⟩ w).trans (World.emit_waits _ _ _)

theorem judged_undisturbed : Undisturbed w (judged env tp rule fired w) :=
  (undisturbed_advance w _).trans (undisturbed_emit _ _)

@[simp] theorem judged_alertHistory : (judged env tp rule fired w).alertHistory = w.alertHistory :=
  (judged_undisturbed env tp rule fired w).alertHistory

@[simp] theorem judged_historyIds : (judged env tp rule fired w).historyIds = w.historyIds :=
  (judged_undisturbed env tp rule fired w).historyIds

@[simp] theorem judged_deliveryRetry :
    (judged env tp rule fired w).deliveryRetry = w.deliveryRetry :=
  (judged_undisturbed env tp rule fired w).deliveryRetry

@[simp] theorem judged_throttle : (judged env tp rule fired w).throttle = w.throttle :=
  (judged_undisturbed env tp rule fired w).throttle

@[simp] theorem judged_resolver : (judged env tp rule fired w).resolver = w.resolver :=
  (judged_undisturbed env tp rule fired w).resolver

@[simp] theorem judged_trace : (judged env tp rule fired w).trace =
    w.trace ++ [.evaluated tp.tenant.id rule.id fired (tp.openSince rule.id)] := by
  simp [judged, World.emit]

end Judged

/-- The world in which a firing evaluation has broken the streak. -/
def fires (w : World) : World :=
  { judged env tp rule true w with resolver := w.resolver.recordFiring rule.id }

/-- The world in which a clear evaluation has been counted. -/
def counts (w : World) : World :=
  { judged env tp rule false w with resolver := (w.resolver.recordClear rule.id).2 }

/-- The world in which a quiet rule has been forgotten. -/
def forgets (w : World) : World :=
  { judged env tp rule false w with resolver := w.resolver.forget rule.id }.emit (.forgot rule.id)

section Fields

variable (w : World)

@[simp] theorem fires_alertHistory : (fires env tp rule w).alertHistory = w.alertHistory :=
  judged_alertHistory env tp rule true w

@[simp] theorem counts_alertHistory : (counts env tp rule w).alertHistory = w.alertHistory :=
  judged_alertHistory env tp rule false w

@[simp] theorem forgets_alertHistory : (forgets env tp rule w).alertHistory = w.alertHistory :=
  judged_alertHistory env tp rule false w

@[simp] theorem fires_historyIds : (fires env tp rule w).historyIds = w.historyIds :=
  judged_historyIds env tp rule true w

@[simp] theorem counts_historyIds : (counts env tp rule w).historyIds = w.historyIds :=
  judged_historyIds env tp rule false w

@[simp] theorem forgets_historyIds : (forgets env tp rule w).historyIds = w.historyIds :=
  judged_historyIds env tp rule false w

@[simp] theorem fires_deliveryRetry : (fires env tp rule w).deliveryRetry = w.deliveryRetry :=
  judged_deliveryRetry env tp rule true w

@[simp] theorem counts_deliveryRetry : (counts env tp rule w).deliveryRetry = w.deliveryRetry :=
  judged_deliveryRetry env tp rule false w

@[simp] theorem forgets_deliveryRetry : (forgets env tp rule w).deliveryRetry = w.deliveryRetry :=
  judged_deliveryRetry env tp rule false w

@[simp] theorem fires_trace : (fires env tp rule w).trace =
    w.trace ++ [.evaluated tp.tenant.id rule.id true (tp.openSince rule.id)] :=
  judged_trace env tp rule true w

@[simp] theorem counts_trace : (counts env tp rule w).trace =
    w.trace ++ [.evaluated tp.tenant.id rule.id false (tp.openSince rule.id)] :=
  judged_trace env tp rule false w

@[simp] theorem forgets_trace : (forgets env tp rule w).trace =
    w.trace ++ [.evaluated tp.tenant.id rule.id false (tp.openSince rule.id), .forgot rule.id] := by
  simp [forgets, World.emit]

end Fields

/-- The outcomes of one rule's evaluation; `fired` is the value of its condition. -/
inductive RuleStep (fired : Bool) (w : World) : World → Prop
  /-- Firing with an open incident. -/
  | stillFiring {since : Instant} : fired = true → tp.openSince rule.id = some since →
      RuleStep fired w (fires env tp rule w)
  /-- Firing with nothing open, inside the cooldown. -/
  | throttled : fired = true → tp.openSince rule.id = none →
      w.throttle.isThrottled (fires env tp rule w).now rule.id (cooldown rule.cooldownSecs) = true →
      RuleStep fired w (fires env tp rule w)
  /-- A new incident. -/
  | raised {w' : World} {alert : FiredAlert} {ds : List Delivery} {row : Option AlertHistoryRow} :
      fired = true → tp.openSince rule.id = none →
      w.throttle.isThrottled (fires env tp rule w).now rule.id (cooldown rule.cooldownSecs) = false →
      Raised env tp rule (fires env tp rule w) w' alert ds row → RuleStep fired w w'
  /-- Clear with an open incident, the streak not yet long enough. -/
  | waiting {since : Instant} : fired = false → tp.openSince rule.id = some since →
      w.resolver.nextStreak rule.id < clearStreakToResolve →
      RuleStep fired w (counts env tp rule w)
  /-- Clear with an open incident at the end of the streak. -/
  | resolved {since : Instant} {w' : World} {alert : FiredAlert} {ds : List Delivery} :
      fired = false → tp.openSince rule.id = some since →
      clearStreakToResolve ≤ w.resolver.nextStreak rule.id →
      Resolved env tp rule (counts env tp rule w) w' alert ds → RuleStep fired w w'
  /-- Clear with nothing open. -/
  | quiet : fired = false → tp.openSince rule.id = none →
      RuleStep fired w (forgets env tp rule w)

/-- **Inversion of the loop body.** -/
theorem evaluateRule_inv (acc : World × AlertContextBuilder) :
    RuleStep env tp rule (evaluateCondition rule.condition (ruleContext p env tp acc rule).1) acc.1
      (evaluateRule p env tp acc rule).1 := by
  obtain ⟨w, builder⟩ := acc
  let answer := ruleContext p env tp (w, builder) rule
  have hbody : (evaluateRule p env tp (w, builder) rule).1 =
      dispatchRule p env tp rule answer.1 (evaluateCondition rule.condition answer.1)
        (judged env tp rule (evaluateCondition rule.condition answer.1) w) := rfl
  rw [hbody]
  show RuleStep env tp rule (evaluateCondition rule.condition answer.1) w _
  cases hfired : evaluateCondition rule.condition answer.1 with
  | true => cases hopen : tp.openSince rule.id with
    | some since =>
        have heq : dispatchRule p env tp rule answer.1 true (judged env tp rule true w) =
            fires env tp rule w := by
          simp only [dispatchRule, hopen, stillFiring, judged_resolver, fires]
        rw [heq]
        exact .stillFiring rfl hopen
    | none =>
        have heq : dispatchRule p env tp rule answer.1 true (judged env tp rule true w) =
            newIncident p env tp rule answer.1 (judged env tp rule true w) := by
          simp only [dispatchRule, hopen]
        have hfires : { judged env tp rule true w with
            resolver := (judged env tp rule true w).resolver.recordFiring rule.id } =
              fires env tp rule w := by
          rw [judged_resolver]
          rfl
        rw [heq, newIncident, hfires]
        have hthrottle : (fires env tp rule w).throttle = w.throttle :=
          judged_throttle env tp rule true w
        cases hcool : w.throttle.isThrottled (fires env tp rule w).now rule.id
            (cooldown rule.cooldownSecs) with
        | true =>
            simp only [hthrottle, hcool, if_true]
            exact .throttled rfl hopen hcool
        | false =>
            simp only [hthrottle, hcool, Bool.false_eq_true, if_false]
            obtain ⟨alert, ds, row, h⟩ :=
              raiseIncident_spec p env tp rule answer.1 (fires env tp rule w)
            exact .raised rfl hopen hcool h
  | false => cases hopen : tp.openSince rule.id with
    | some since =>
        have heq : dispatchRule p env tp rule answer.1 false (judged env tp rule false w) =
            openClear p env tp rule since (judged env tp rule false w) := by
          simp only [dispatchRule, hopen]
        have hcounts : { judged env tp rule false w with
            resolver := ((judged env tp rule false w).resolver.recordClear rule.id).2 } =
              counts env tp rule w := by
          rw [judged_resolver]
          rfl
        rw [heq, openClear]
        simp only [ResolveTracker.recordClear, judged_resolver] at hcounts ⊢
        rw [hcounts]
        by_cases hstreak : clearStreakToResolve ≤ w.resolver.nextStreak rule.id
        · simp only [hstreak, decide_true, if_true]
          obtain ⟨alert, ds, h⟩ :=
            resolveIncident_spec p env tp rule since (counts env tp rule w)
          exact .resolved rfl hopen hstreak h
        · simp only [hstreak, decide_false, Bool.false_eq_true, if_false]
          exact .waiting rfl hopen (Nat.lt_of_not_le hstreak)
    | none =>
        have heq : dispatchRule p env tp rule answer.1 false (judged env tp rule false w) =
            forgets env tp rule w := by
          simp only [dispatchRule, hopen, quiet, judged_resolver, forgets]
        rw [heq]
        exact .quiet rfl hopen

end Rule

/-! ### What an outcome leaves alone -/

/-- The rule an event is about. -/
def Event.rule : Event → Uuid
  | .silentClose _ r _ | .forgot r | .evaluated _ r _ _ | .opened _ r _ _ | .resolved _ r _ => r
  | .fireRecorded r _ _ | .alertFired _ r _ _ _ | .alertResolved _ r _ _ => r
  | .delivery d => d.alert.ruleId

/-- Whether an event is a silent close, which no rule's turn contains. -/
def Event.isSilentClose : Event → Bool
  | .silentClose .. => true
  | _ => false

/-- Whether an event is an evaluation, with which a rule's turn begins. -/
def Event.isEvaluation : Event → Bool
  | .evaluated .. => true
  | _ => false

/-- A row of one rule is not open for another. -/
theorem isOpenFor_of_ne {tenantId ruleId t r : Uuid} (hne : ¬(t = tenantId ∧ r = ruleId))
    {h : AlertHistoryRow} (hrow : h.ofRule t r = true) : h.isOpenFor tenantId ruleId = false := by
  simp only [AlertHistoryRow.ofRule, Bool.and_eq_true, beq_iff_eq] at hrow
  obtain ⟨rfl, rfl⟩ := hrow
  by_contra hboth
  simp only [AlertHistoryRow.isOpenFor, Bool.not_eq_false, Bool.and_eq_true, beq_iff_eq] at hboth
  exact hne hboth.1

/-- Closing the open rows of one rule leaves the rows of the others. -/
theorem closedHistory_filter_of_ne {tenantId ruleId t r : Uuid} (hne : ¬(t = tenantId ∧ r = ruleId))
    (failed : Bool) (time : Instant) (history : List AlertHistoryRow) :
    (closedHistory failed time tenantId ruleId history).filter (·.ofRule t r) =
      history.filter (·.ofRule t r) := by
  cases failed with
  | true => rfl
  | false =>
      simp only [closedHistory, Bool.false_eq_true, if_false]
      induction history with
      | nil => rfl
      | cons h rest ih =>
          rw [List.map_cons]
          by_cases hrow : h.ofRule t r = true
          · simp only [isOpenFor_of_ne hne hrow, Bool.false_eq_true, if_false, List.filter_cons,
              hrow, if_true, ih]
          · have hstill : ¬ (if h.isOpenFor tenantId ruleId = true
                then { h with resolvedAt := some time } else h).ofRule t r = true := by
              split
              · exact hrow
              · exact hrow
            simp only [List.filter_cons, hrow, hstill, Bool.false_eq_true, if_false, ih]

section Frame

variable {env : PassEnv} {tp : TenantPass} {rule : AlertRule} {fired : Bool} {w w' : World}

theorem RuleStep.waits (h : RuleStep env tp rule fired w w') : Waits (RuleCall env rule.id) w w' := by
  have hfires : Waits (RuleCall env rule.id) w (fires env tp rule w) :=
    (judged_waits env tp rule true w).then_same rfl rfl rfl rfl
  have hcounts : Waits (RuleCall env rule.id) w (counts env tp rule w) :=
    (judged_waits env tp rule false w).then_same rfl rfl rfl rfl
  cases h with
  | stillFiring => exact hfires
  | throttled => exact hfires
  | raised _ _ _ h => exact hfires.trans h.waits
  | waiting => exact hcounts
  | resolved _ _ _ h => exact hcounts.trans h.waits
  | quiet => exact (judged_waits env tp rule false w).then_same rfl rfl rfl rfl

/-- Another rule's rows are untouched. -/
theorem RuleStep.rows_of_ne (h : RuleStep env tp rule fired w w') {t r : Uuid}
    (hne : ¬(t = tp.tenant.id ∧ r = rule.id)) : w'.rows t r = w.rows t r := by
  cases h with
  | stillFiring => simp only [World.rows, fires_alertHistory]
  | throttled => simp only [World.rows, fires_alertHistory]
  | raised _ _ _ h =>
      simp only [World.rows, h.alertHistory, fires_alertHistory, List.filter_append]
      rename_i row _ _ _
      cases hrow : row with
      | none => simp
      | some h₀ =>
          have hnew := h.written h₀ (by simp [hrow])
          have hother : h₀.ofRule t r = false := by
            simp only [AlertHistoryRow.ofRule, hnew.tenantId, hnew.ruleId,
              Bool.and_eq_false_iff, beq_eq_false_iff_ne]
            by_cases ht : tp.tenant.id = t
            · exact .inr fun hr => hne ⟨ht.symm, hr.symm⟩
            · exact .inl ht
          simp [hother]
  | waiting => simp only [World.rows, counts_alertHistory]
  | resolved _ _ _ h =>
      obtain ⟨time, -, hhistory⟩ := h.alertHistory
      simp only [World.rows, hhistory, closedHistory_filter_of_ne hne, counts_alertHistory]
  | quiet => simp only [World.rows, forgets_alertHistory]

/-- Another rule's open rows are untouched. -/
theorem RuleStep.openRows_of_ne (h : RuleStep env tp rule fired w w') {t r : Uuid}
    (hne : ¬(t = tp.tenant.id ∧ r = rule.id)) : w'.openRows t r = w.openRows t r := by
  rw [World.openRows_eq, World.openRows_eq, h.rows_of_ne hne]

/-- Another rule's streak is untouched. -/
theorem RuleStep.clearStreaks_of_ne (h : RuleStep env tp rule fired w w') {r : Uuid}
    (hne : r ≠ rule.id) : w'.resolver.clearStreaks r = w.resolver.clearStreaks r := by
  cases h with
  | stillFiring => simp [fires, hne]
  | throttled => simp [fires, hne]
  | raised _ _ _ h => simp [h.resolver, fires, hne]
  | waiting => simp [counts, hne]
  | resolved _ _ _ h => simp [h.resolver, counts, hne]
  | quiet => simp [forgets, World.emit, hne]

/-- Another rule's cooldown is untouched. -/
theorem RuleStep.lastFired_of_ne (h : RuleStep env tp rule fired w w') {r : Uuid}
    (hne : r ≠ rule.id) : w'.throttle.lastFired r = w.throttle.lastFired r := by
  cases h with
  | stillFiring => simp [fires]
  | throttled => simp [fires]
  | raised _ _ _ h => simp [h.throttle, fires, hne]
  | waiting => simp [counts]
  | resolved _ _ _ h => simp [h.throttle, counts]
  | quiet => simp [forgets, World.emit]

theorem Raised.event_rule {alert : FiredAlert} {ds : List Delivery} {row : Option AlertHistoryRow}
    (h : Raised env tp rule w w' alert ds row) {d : Delivery} (hd : d ∈ ds) :
    d.alert.ruleId = rule.id ∧ d.alert.tenantId = tp.tenant.id := by
  obtain ⟨ctx, now, halert⟩ := h.raisedFor
  rw [(h.deliveries d hd).alert, halert]
  exact ⟨rfl, rfl⟩

theorem Resolved.event_rule {alert : FiredAlert} {ds : List Delivery}
    (h : Resolved env tp rule w w' alert ds) {d : Delivery} (hd : d ∈ ds) :
    d.alert.ruleId = rule.id ∧ d.alert.tenantId = tp.tenant.id := by
  obtain ⟨since, now, halert⟩ := h.noticeFor
  rw [(h.deliveries d hd).alert, halert]
  exact ⟨rfl, rfl⟩

/-- The events of a turn that raises an incident. -/
theorem Raised.events {alert : FiredAlert} {ds : List Delivery} {row : Option AlertHistoryRow}
    (h : Raised env tp rule (fires env tp rule w) w' alert ds row) :
    ∃ events, w'.trace = w.trace ++ events ∧ (∀ d, .delivery d ∈ events ↔ d ∈ ds) ∧
      ∀ t r id firing, .opened t r id firing ∈ events ↔
        t = tp.tenant.id ∧ r = rule.id ∧ firing = (fires env tp rule w).trace.length ∧
          ∃ new ∈ row, new.id = id := by
  refine ⟨_, by rw [h.trace, fires_trace, List.append_assoc], by simp, ?_⟩
  intro t r id firing
  constructor
  · intro hmem
    simp only [List.mem_append, List.mem_map, List.mem_cons, List.not_mem_nil, or_false,
      reduceCtorEq, and_false, exists_false, false_or, Event.opened.injEq,
      Option.mem_toList] at hmem
    obtain ⟨new, hnew, rfl, rfl, rfl, rfl⟩ := hmem
    exact ⟨rfl, rfl, by rw [fires_trace], new, hnew, rfl⟩
  · rintro ⟨rfl, rfl, rfl, new, hnew, rfl⟩
    simp only [List.mem_append, List.mem_map, Option.mem_toList]
    exact .inr (.inr (.inl ⟨new, hnew, by rw [fires_trace]⟩))

/-- The events of a turn that resolves an incident. -/
theorem Resolved.events {alert : FiredAlert} {ds : List Delivery}
    (h : Resolved env tp rule (counts env tp rule w) w' alert ds) :
    ∃ events, w'.trace = w.trace ++ events ∧ (∀ d, .delivery d ∈ events ↔ d ∈ ds) ∧
      (∀ t r id firing, .opened t r id firing ∉ events) ∧ events.filterMap Event.delivery? = ds := by
  refine ⟨_, by rw [h.trace, counts_trace, List.append_assoc], by simp, by simp, ?_⟩
  have hdeliveries : (ds.map Event.delivery).filterMap Event.delivery? = ds := by
    rw [List.filterMap_map]
    exact List.filterMap_some
  simp only [List.singleton_append, List.filterMap_cons, List.filterMap_append, hdeliveries,
    Event.delivery?, List.filterMap_nil, List.append_nil]

/-- The trace grows by the evaluation of the rule and further events about it. -/
theorem RuleStep.trace (h : RuleStep env tp rule fired w w') :
    ∃ events, w'.trace = w.trace ++
        .evaluated tp.tenant.id rule.id fired (tp.openSince rule.id) :: events ∧
      ∀ e ∈ events, e.rule = rule.id ∧ e.isSilentClose = false ∧ e.isEvaluation = false := by
  cases h with
  | stillFiring hfired => exact ⟨[], by rw [hfired, fires_trace], by simp⟩
  | throttled hfired => exact ⟨[], by rw [hfired, fires_trace], by simp⟩
  | raised hfired _ _ h =>
      refine ⟨_, by rw [hfired, h.trace, fires_trace, List.append_assoc, List.singleton_append], ?_⟩
      intro e he
      simp only [List.mem_append, List.mem_map, List.mem_cons, List.not_mem_nil, or_false] at he
      rcases he with ⟨d, hd, rfl⟩ | ⟨h₀, -, rfl⟩ | rfl | rfl
      · exact ⟨(h.event_rule hd).1, rfl, rfl⟩
      · exact ⟨rfl, rfl, rfl⟩
      · exact ⟨rfl, rfl, rfl⟩
      · exact ⟨rfl, rfl, rfl⟩
  | waiting hfired => exact ⟨[], by rw [hfired, counts_trace], by simp⟩
  | resolved hfired _ _ h =>
      refine ⟨_, by rw [hfired, h.trace, counts_trace, List.append_assoc, List.singleton_append], ?_⟩
      intro e he
      simp only [List.mem_append, List.mem_map, List.mem_cons, List.not_mem_nil, or_false] at he
      rcases he with rfl | rfl | ⟨d, hd, rfl⟩ | rfl
      · exact ⟨rfl, rfl, rfl⟩
      · exact ⟨rfl, rfl, rfl⟩
      · exact ⟨(h.event_rule hd).1, rfl, rfl⟩
      · exact ⟨rfl, rfl, rfl⟩
  | quiet hfired =>
      refine ⟨[.forgot rule.id], by rw [hfired, forgets_trace], ?_⟩
      simp [Event.rule, Event.isSilentClose, Event.isEvaluation]

/-- All new events are about the rule. -/
theorem RuleStep.events (h : RuleStep env tp rule fired w w') :
    ∃ events, w'.trace = w.trace ++ events ∧
      ∀ e ∈ events, e.rule = rule.id ∧ e.isSilentClose = false := by
  obtain ⟨events, htrace, hevents⟩ := h.trace
  refine ⟨_, htrace, fun e he => ?_⟩
  rcases List.mem_cons.1 he with rfl | he
  · exact ⟨rfl, rfl⟩
  · exact ⟨(hevents e he).1, (hevents e he).2.1⟩

end Frame

end Feloxi.Alerting
