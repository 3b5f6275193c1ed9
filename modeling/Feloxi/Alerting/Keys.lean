import Feloxi.Alerting.Drain
import Feloxi.Alerting.Pass
import Feloxi.Alerting.System

/-!
# Feloxi.Alerting.Keys

What the tables guarantee in every reachable state: the primary and foreign keys
of the migrations, and that a silence does not start in the future. Every step of
the subsystem keeps it.
-/

namespace Feloxi.Alerting

/-! ### Silences do not start in the future -/

/-- No silence starts in the future. -/
def World.SilencesStarted (w : World) : Prop := ∀ s ∈ w.alertSilences, s.startsAt ≤ w.now

theorem World.SilencesStarted.applySilenceOp {w : World} (h : w.SilencesStarted) (op : SilenceOp) :
    (w.applySilenceOp op).SilencesStarted := by
  cases op with
  | create tenantId ruleId durationMinutes id =>
      simp only [World.applySilenceOp, World.createSilence]
      split
      · exact h
      · intro s hs
        rcases List.mem_append.1 hs with hs | hs
        · exact h s hs
        · obtain rfl := List.mem_singleton.1 hs
          exact Nat.le_refl _
  | expire tenantId id =>
      intro s hs
      obtain ⟨s₀, hs₀, rfl⟩ := List.mem_map.1 hs
      split <;> exact h s₀ hs₀

theorem World.SilencesStarted.later {w : World} (h : w.SilencesStarted) (n : Nat) :
    { w with now := w.now + n }.SilencesStarted :=
  fun s hs => Nat.le_trans (h s hs) (Nat.le_add_right _ _)

theorem World.SilencesStarted.advance {w : World} (h : w.SilencesStarted) (c : Call) :
    (w.advance c).SilencesStarted := by
  have hlanded : (c.landed.foldl
      (fun w l => { w with now := w.now + l.1 }.applySilenceOp l.2) w).SilencesStarted :=
    Runs.foldl_invariant World.SilencesStarted
      (fun v l _ hv => (hv.later l.1).applySilenceOp l.2) h
  exact hlanded.later c.delay

theorem World.SilencesStarted.of_waits {C : Call → Prop} {w w' : World} (h : w.SilencesStarted)
    (hw : Waits C w w') : w'.SilencesStarted := by
  obtain ⟨calls, -, hnow, hsilences⟩ := hw.clock
  have hcalls : (w.waitAll calls).SilencesStarted :=
    Runs.foldl_invariant World.SilencesStarted (fun v c _ hv => hv.advance c) h
  intro s hs
  rw [hsilences] at hs
  rw [hnow]
  exact hcalls s hs

/-! ### Every step keeps the keys -/

/-- What identifies a history row and never changes. -/
def AlertHistoryRow.key (h : AlertHistoryRow) : Uuid × Uuid × Uuid := (h.id, h.tenantId, h.ruleId)

/-- Rows with equal keys are of the same rule, under the same id. -/
theorem exists_key_eq {history history' : List AlertHistoryRow}
    (hkeys : history'.map (·.key) = history.map (·.key)) {h : AlertHistoryRow} (hh : h ∈ history') :
    ∃ h₀ ∈ history, h₀.id = h.id ∧ h₀.tenantId = h.tenantId ∧ h₀.ruleId = h.ruleId := by
  have hmem : h.key ∈ history.map (·.key) := by
    rw [← hkeys]
    exact List.mem_map_of_mem hh
  obtain ⟨h₀, hh₀, hkey⟩ := List.mem_map.1 hmem
  simp only [AlertHistoryRow.key, Prod.mk.injEq] at hkey
  exact ⟨h₀, hh₀, hkey⟩

theorem map_id_of_map_key {history history' : List AlertHistoryRow}
    (hkeys : history'.map (·.key) = history.map (·.key)) :
    history'.map (·.id) = history.map (·.id) := by
  have hfst := congrArg (List.map Prod.fst) hkeys
  simpa only [List.map_map, Function.comp_def, AlertHistoryRow.key] using hfst

theorem closedHistory_map_key (failed : Bool) (time : Instant) (tenantId ruleId : Uuid)
    (history : List AlertHistoryRow) :
    (closedHistory failed time tenantId ruleId history).map (·.key) = history.map (·.key) := by
  unfold closedHistory
  split
  · rfl
  · rw [List.map_map]
    refine List.map_congr_left fun h _ => ?_
    rw [Function.comp_apply]
    split <;> rfl

/-- A step that waits and keeps the history up to logs and resolutions. -/
theorem WellKeyed.of_waits {C : Call → Prop} {w w' : World} (h : WellKeyed w) (hw : Waits C w w')
    (hhistory : w'.alertHistory.map (·.key) = w.alertHistory.map (·.key))
    (hids : w'.historyIds = w.historyIds) : WellKeyed w' where
  tenants := by rw [hw.tenants]; exact h.tenants
  rules := by rw [hw.configs]; exact h.rules
  rows := by rw [map_id_of_map_key hhistory]; exact h.rows
  history r hr := by
    obtain ⟨r₀, hr₀, -, htenant, hrule⟩ := exists_key_eq hhistory hr
    rw [hw.configs, ← hrule, ← htenant]
    exact h.history r₀ hr₀
  historyIds r hr := by
    obtain ⟨r₀, hr₀, hid, -, -⟩ := exists_key_eq hhistory hr
    rw [hids, ← hid]
    exact h.historyIds r₀ hr₀
  silences := World.SilencesStarted.of_waits h.silences hw

/-- A turn inserts at most one row, with an id of its own. -/
theorem WellKeyed.raised {env : PassEnv} {start w w' : World} {tp : TenantPass} {rule : AlertRule}
    {alert : FiredAlert} {ds : List Delivery} {row : Option AlertHistoryRow} (h : WellKeyed w)
    (hat : AtRule env start tp rule w) (hwaits : Waits (RuleCall env rule.id) w w')
    (hraised : Raised env tp rule (fires env tp rule w) w' alert ds row) : WellKeyed w' := by
  have hhistory : w'.alertHistory = w.alertHistory ++ row.toList := by
    rw [hraised.alertHistory, fires_alertHistory]
  have hids : w'.historyIds = row.toList.map (·.id) ++ w.historyIds := by
    rw [hraised.historyIds, fires_historyIds]
  have hfresh : ∀ r ∈ row, r.id ∉ w.historyIds := by
    intro r hr
    rw [← fires_historyIds env tp rule w]
    exact (hraised.written r hr).id
  have hrow : ∀ r ∈ w'.alertHistory, r ∈ w.alertHistory ∨ r ∈ row := by
    intro r hr
    rw [hhistory] at hr
    simpa using hr
  exact {
    tenants := by rw [hwaits.tenants]; exact h.tenants
    rules := by rw [hwaits.configs]; exact h.rules
    rows := by
      rw [hhistory, List.map_append, List.nodup_append]
      refine ⟨h.rows, by cases row <;> simp, ?_⟩
      intro a ha b hb hab
      obtain ⟨r, hr, rfl⟩ := List.mem_map.1 ha
      obtain ⟨r', hr', rfl⟩ := List.mem_map.1 hb
      exact hfresh r' (by simpa using hr') (hab ▸ h.historyIds r hr)
    history := by
      intro r hr
      rw [hwaits.configs]
      rcases hrow r hr with hold | hnew
      · exact h.history r hold
      · have hwritten := hraised.written r hnew
        exact ⟨rule.config, hat.configured, hwritten.ruleId.symm,
          hat.ofTenant.trans hwritten.tenantId.symm⟩
    historyIds := by
      intro r hr
      rw [hids]
      rcases hrow r hr with hold | hnew
      · exact List.mem_append_right _ (h.historyIds r hold)
      · exact List.mem_append_left _ (List.mem_map_of_mem (by simpa using hnew))
    silences := World.SilencesStarted.of_waits h.silences hwaits }

theorem wellKeyed_passInvariant (p : Platform) (env : PassEnv) (start : World) :
    PassInvariant p env start WellKeyed where
  wait w pt h :=
    h.of_waits (Waits.advance (C := PassCall env) ⟨pt, rfl⟩ w) (by simp) (by simp)
  gone tenant _ w w' ruleId h _ hclosed := by
    obtain ⟨t, -, hhistory⟩ := hclosed.alertHistory
    refine h.of_waits hclosed.waits ?_ hclosed.historyIds
    rw [hhistory, closedHistory_map_key]
  rule turn _ w' h hat hstep := by
    have hwaits := hstep.waits
    cases hstep with
    | stillFiring => exact h.of_waits hwaits (by simp) (by simp)
    | throttled => exact h.of_waits hwaits (by simp) (by simp)
    | waiting => exact h.of_waits hwaits (by simp) (by simp)
    | quiet => exact h.of_waits hwaits (by simp) (by simp)
    | resolved _ _ _ hres =>
        obtain ⟨t, -, hhistory⟩ := hres.alertHistory
        refine h.of_waits hwaits ?_ (by simp [hres.historyIds])
        rw [hhistory, closedHistory_map_key, counts_alertHistory]
    | raised _ _ _ hraised => exact h.raised hat hwaits hraised
  cleanup w h := ⟨h.tenants, h.rules, h.rows, h.history, h.historyIds, h.silences⟩

section Steps

variable {p : Platform} {w : World}

theorem WellKeyed.evaluate (h : WellKeyed w) (env : PassEnv) :
    WellKeyed (runAlertEvaluation p env w) :=
  runAlertEvaluation_induction (wellKeyed_passInvariant p env w) h h

theorem WellKeyed.drain (h : WellKeyed w) (env : DrainEnv) :
    WellKeyed (drainDeliveryRetries p env w) := by
  refine drainDeliveryRetries_induction p env ?_ (fun _ => ?_) ?_
  · exact h.of_waits (Waits.advance (C := DrainCall env) ⟨_, rfl⟩ w)
      (by simp) (by simp)
  · refine h.of_waits (popped_waits p env w) ?_ ?_
    · simp [popped, World.popDueDeliveryRetries]
    · simp [popped, World.popDueDeliveryRetries]
  · intro v v' job ds _ hv hretried
    refine hv.of_waits hretried.waits ?_ hretried.historyIds
    have hcore := congrArg (List.map AlertHistoryRow.key) hretried.coreHistory
    rw [World.coreHistory, World.coreHistory, List.map_map, List.map_map] at hcore
    exact hcore

/-- A rule request that succeeds went through its validations. -/
theorem createRule_inv {tenantId id : Uuid} {req : CreateAlertRuleRequest} {w' : World}
    (h : createRule w tenantId id req = .ok w') :
    id ∉ w.alertRules.map (·.id) ∧ ∃ q : AlertRule, q.id = id ∧ q.tenantId = tenantId ∧
      w' = { w with alertRules := w.alertRules ++ [q] } := by
  unfold createRule at h
  cases hchannels : validateChannelIntegrations w tenantId req.channels with
  | error e => simp [hchannels, bind, Except.bind] at h
  | ok u => cases hseverities : validateSeverities req.severityOverride req.channels with
    | error e => simp [hchannels, hseverities, bind, Except.bind] at h
    | ok u' =>
        simp only [hchannels, hseverities, bind, Except.bind] at h
        split at h
        · cases h
        · rename_i hfresh
          refine ⟨fun hmem => hfresh ?_, _, rfl, rfl, (Except.ok.inj h).symm⟩
          obtain ⟨r, hr, rfl⟩ := List.mem_map.1 hmem
          exact List.any_eq_true.2 ⟨r, hr, by simp⟩

theorem updateRule_inv {tenantId id : Uuid} {req : UpdateAlertRuleRequest} {w' : World}
    (h : updateRule w tenantId id req = .ok w') :
    w' = { w with alertRules := w.alertRules.map fun r =>
      if r.id == id && r.tenantId == tenantId then r.applyUpdate req else r } := by
  unfold updateRule at h
  cases hchannels : validateChannelIntegrations w tenantId req.channels with
  | error e => simp [hchannels, bind, Except.bind] at h
  | ok u => cases hseverities : validateSeverities req.severityOverride req.channels with
    | error e => simp [hchannels, hseverities, bind, Except.bind] at h
    | ok u' =>
        simp only [hchannels, hseverities, bind, Except.bind] at h
        split at h
        · cases h
        · exact (Except.ok.inj h).symm

/-- A step that changes rules only. -/
theorem WellKeyed.of_rules (h : WellKeyed w) {rules : List AlertRule}
    (hnodup : (rules.map (·.id)).Nodup)
    (hkept : ∀ q ∈ w.alertRules, ∃ q' ∈ rules, q'.id = q.id ∧ q'.tenantId = q.tenantId) :
    WellKeyed { w with alertRules := rules } where
  tenants := h.tenants
  rules := by
    simpa [World.configs, List.map_map, Function.comp_def, AlertRule.config] using hnodup
  rows := h.rows
  history r hr := by
    obtain ⟨q, hq, hid, htenant⟩ := h.history r hr
    obtain ⟨q₀, hq₀, rfl⟩ := List.mem_map.1 hq
    obtain ⟨q', hq', hid', htenant'⟩ := hkept q₀ hq₀
    exact ⟨q'.config, List.mem_map_of_mem hq', hid'.trans hid, htenant'.trans htenant⟩
  historyIds := h.historyIds
  silences := h.silences

theorem WellKeyed.alertRules_nodup (h : WellKeyed w) : (w.alertRules.map (·.id)).Nodup := by
  simpa [World.configs, List.map_map, Function.comp_def, AlertRule.config] using h.rules

theorem WellKeyed.createRule (h : WellKeyed w) {tenantId id : Uuid} {req : CreateAlertRuleRequest}
    {w' : World} (hok : Alerting.createRule w tenantId id req = .ok w') : WellKeyed w' := by
  obtain ⟨hfresh, q, rfl, -, rfl⟩ := createRule_inv hok
  refine h.of_rules ?_ fun q₀ hq₀ => ⟨q₀, List.mem_append_left _ hq₀, rfl, rfl⟩
  rw [List.map_append, List.nodup_append]
  refine ⟨h.alertRules_nodup, by simp, ?_⟩
  rintro a ha b hb rfl
  rw [List.map_singleton, List.mem_singleton] at hb
  exact hfresh (hb ▸ ha)

theorem WellKeyed.updateRule (h : WellKeyed w) {tenantId id : Uuid} {req : UpdateAlertRuleRequest}
    {w' : World} (hok : Alerting.updateRule w tenantId id req = .ok w') : WellKeyed w' := by
  rw [updateRule_inv hok]
  refine h.of_rules ?_ fun q hq => ⟨_, List.mem_map_of_mem hq, ?_⟩
  · have hids : (w.alertRules.map fun r =>
        if r.id == id && r.tenantId == tenantId then r.applyUpdate req else r).map (·.id) =
          w.alertRules.map (·.id) := by
      rw [List.map_map]
      refine List.map_congr_left fun r _ => ?_
      rw [Function.comp_apply]
      split <;> rfl
    rw [hids]
    exact h.alertRules_nodup
  · split <;> exact ⟨rfl, rfl⟩

theorem WellKeyed.deleteRule (h : WellKeyed w) (tenantId id : Uuid) :
    WellKeyed (Alerting.deleteRule w tenantId id) := by
  unfold Alerting.deleteRule
  split
  · exact {
      tenants := h.tenants
      rules := by
        have hsub := (List.filter_sublist (l := w.alertRules)
          (p := fun r => !(r.id == id && r.tenantId == tenantId))).map AlertRule.config
        exact h.rules.sublist (hsub.map _)
      rows := h.rows.sublist (List.filter_sublist.map _)
      history := by
        intro r hr
        obtain ⟨hmem, hne⟩ := List.mem_filter.1 hr
        obtain ⟨q, hq, hid, htenant⟩ := h.history r hmem
        obtain ⟨q₀, hq₀, rfl⟩ := List.mem_map.1 hq
        refine ⟨q₀.config, List.mem_map_of_mem (List.mem_filter.2 ⟨hq₀, ?_⟩), hid, htenant⟩
        have hother : q₀.id ≠ id := by
          rw [show q₀.id = r.ruleId from hid]
          simpa using hne
        simp [hother]
      historyIds := fun r hr => h.historyIds r (List.mem_of_mem_filter hr)
      silences := fun s hs => h.silences s (List.mem_of_mem_filter hs) }
  · exact h

/-- **Every step keeps the keys.** -/
theorem WellKeyed.step (h : WellKeyed w) (s : Step) : WellKeyed (step p w s) := by
  cases s with
  | evaluate env => exact h.evaluate env
  | drain env => exact h.drain env
  | createRule tenantId id req =>
      simp only [Alerting.step]
      cases hok : Alerting.createRule w tenantId id req with
      | ok w' => exact h.createRule hok
      | error e => exact h
  | updateRule tenantId id req =>
      simp only [Alerting.step]
      cases hok : Alerting.updateRule w tenantId id req with
      | ok w' => exact h.updateRule hok
      | error e => exact h
  | deleteRule tenantId id => exact h.deleteRule tenantId id
  | silence op =>
      have hsilences : (w.applySilenceOp op).SilencesStarted :=
        World.SilencesStarted.applySilenceOp h.silences op
      obtain ⟨silences, hw⟩ := World.applySilenceOp_eq w op
      simp only [Alerting.step]
      rw [hw] at hsilences ⊢
      exact ⟨h.tenants, h.rules, h.rows, h.history, h.historyIds, hsilences⟩
  | wait n =>
      exact ⟨h.tenants, h.rules, h.rows, h.history, h.historyIds, World.SilencesStarted.later h.silences n⟩

theorem WellKeyed.run (h : WellKeyed w) (steps : List Step) : WellKeyed (run p w steps) :=
  Runs.run_invariant WellKeyed (fun _ s hv => hv.step s) h steps

/-- What requests and the passing of time leave alone. -/
structure Administrative (w w' : World) : Prop where
  now : w.now ≤ w'.now
  tenants : w'.tenants = w.tenants
  alertHistory : w'.alertHistory.Sublist w.alertHistory
  historyIds : w'.historyIds = w.historyIds
  deliveryRetry : w'.deliveryRetry = w.deliveryRetry
  throttle : w'.throttle = w.throttle
  resolver : w'.resolver = w.resolver
  trace : w'.trace = w.trace

theorem Administrative.refl (w : World) : Administrative w w :=
  ⟨Nat.le_refl _, rfl, .refl _, rfl, rfl, rfl, rfl, rfl⟩

/-- A step is a pass, a drain, or administrative. -/
theorem step_cases (p : Platform) (w : World) (s : Step) :
    (∃ env, s = .evaluate env) ∨ (∃ env, s = .drain env) ∨ Administrative w (Alerting.step p w s) := by
  cases s with
  | evaluate env => exact .inl ⟨env, rfl⟩
  | drain env => exact .inr (.inl ⟨env, rfl⟩)
  | createRule tenantId id req =>
      refine .inr (.inr ?_)
      simp only [Alerting.step]
      cases hok : Alerting.createRule w tenantId id req with
      | ok w' =>
          obtain ⟨-, q, -, -, rfl⟩ := createRule_inv hok
          exact ⟨Nat.le_refl _, rfl, .refl _, rfl, rfl, rfl, rfl, rfl⟩
      | error e => exact .refl w
  | updateRule tenantId id req =>
      refine .inr (.inr ?_)
      simp only [Alerting.step]
      cases hok : Alerting.updateRule w tenantId id req with
      | ok w' =>
          obtain rfl := updateRule_inv hok
          exact ⟨Nat.le_refl _, rfl, .refl _, rfl, rfl, rfl, rfl, rfl⟩
      | error e => exact .refl w
  | deleteRule tenantId id =>
      refine .inr (.inr ?_)
      simp only [Alerting.step, Alerting.deleteRule]
      split
      · exact ⟨Nat.le_refl _, rfl, List.filter_sublist, rfl, rfl, rfl, rfl, rfl⟩
      · exact .refl w
  | silence op =>
      refine .inr (.inr ?_)
      obtain ⟨silences, hw⟩ := World.applySilenceOp_eq w op
      simp only [Alerting.step, hw]
      exact ⟨Nat.le_refl _, rfl, .refl _, rfl, rfl, rfl, rfl, rfl⟩
  | wait n =>
      exact .inr (.inr ⟨Nat.le_add_right _ _, rfl, .refl _, rfl, rfl, rfl, rfl, rfl⟩)

end Steps

theorem wellKeyed_sampleWorld (rule : AlertRule) : WellKeyed (sampleWorld rule) where
  tenants := by simp [sampleWorld]
  rules := by simp [sampleWorld, World.configs]
  rows := by simp [sampleWorld]
  history := by simp [sampleWorld]
  historyIds := by simp [sampleWorld]
  silences := by simp [sampleWorld]

end Feloxi.Alerting
