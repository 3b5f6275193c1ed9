import Feloxi.Alerting.Keys

/-!
# Feloxi.Alerting.PagerDuty

PagerDuty as a mirror of the incidents. PagerDuty is the map its Events API makes
of the payloads it accepts (`PagerDuty.receive`). Every payload is a trigger, so
the map only ever opens keys (`pagerDuty_iff`): it mirrors the history of a rule
exactly as long as no incident of the rule is closed and no firing stays without
a row (`KeepsIncident`).
-/

namespace Feloxi.Alerting

/-! ### PagerDuty -/

/-- The keys PagerDuty holds open. -/
abbrev PagerDuty := String → Bool

/-- The Events API v2. -/
def PagerDuty.receive (m : PagerDuty) (event : Json) : PagerDuty :=
  match event.get "event_action", event.get "dedup_key" with
  | some (.str "trigger"), some (.str key) => Function.update m key true
  | some (.str "resolve"), some (.str key) => Function.update m key false
  | _, _ => m

def AlertChannel.isPagerDuty : AlertChannel → Bool
  | .pagerDuty _ _ | .pagerDutyConnection _ _ => true
  | _ => false

/-- The event of a delivery that PagerDuty accepted. -/
def Delivery.pagerDutyEvent (d : Delivery) : Option Json :=
  if d.channel.isPagerDuty && d.success then
    d.endpoint.map fun routingKey => buildPayload routingKey d.alert d.source
  else none

/-- PagerDuty after a trace. -/
def pagerDuty (trace : List Event) : PagerDuty :=
  ((trace.filterMap Event.delivery?).filterMap Delivery.pagerDutyEvent).foldl PagerDuty.receive
    fun _ => false

/-- The key of a rule's incidents. -/
def AlertRule.dedupKey (rule : AlertRule) : String :=
  "fp-" ++ rule.id.display ++ "-" ++ rule.tenantId.display

theorem receive_buildPayload (m : PagerDuty) (routingKey : String) (alert : FiredAlert)
    (tenant : AlertTenant) :
    m.receive (buildPayload routingKey alert tenant) = Function.update m (dedupKey alert) true := by
  simp [PagerDuty.receive]

/-- A delivery that triggers a key. -/
def Delivery.Triggers (d : Delivery) (key : String) : Prop :=
  d.pagerDutyEvent.isSome ∧ dedupKey d.alert = key

/-- The events PagerDuty accepts are triggers. -/
theorem Delivery.pagerDutyEvent_eq {d : Delivery} {event : Json} (h : d.pagerDutyEvent = some event) :
    ∃ routingKey, event = buildPayload routingKey d.alert d.source := by
  unfold pagerDutyEvent at h
  split at h
  · obtain ⟨routingKey, -, rfl⟩ := Option.map_eq_some_iff.1 h
    exact ⟨routingKey, rfl⟩
  · cases h

theorem receive_foldl_iff (ds : List Delivery) (key : String) :
    ((ds.filterMap Delivery.pagerDutyEvent).foldl PagerDuty.receive fun _ => false) key = true ↔
      ∃ d ∈ ds, d.Triggers key := by
  induction ds using List.reverseRecOn with
  | nil => simp
  | append_singleton ds d ih =>
      have hlast : (∃ d' ∈ ds ++ [d], d'.Triggers key) ↔
          (∃ d' ∈ ds, d'.Triggers key) ∨ d.Triggers key := by
        simp [or_and_right, exists_or]
      rw [hlast, List.filterMap_append, List.foldl_append]
      cases hevent : d.pagerDutyEvent with
      | none =>
          simp only [List.filterMap_cons, hevent, List.filterMap_nil, List.foldl_nil, ih,
            Delivery.Triggers, Option.isSome_none, Bool.false_eq_true, false_and, or_false]
      | some event =>
          obtain ⟨routingKey, rfl⟩ := Delivery.pagerDutyEvent_eq hevent
          simp only [List.filterMap_cons, hevent, List.filterMap_nil, List.foldl_cons,
            List.foldl_nil, receive_buildPayload]
          by_cases hkey : dedupKey d.alert = key
          · simp [hkey, Delivery.Triggers, hevent]
          · simp only [Function.update_of_ne (Ne.symm hkey), ih, Delivery.Triggers, hkey, and_false,
              or_false]

/-- A key is open exactly when it was triggered. -/
theorem pagerDuty_iff {trace : List Event} {key : String} :
    pagerDuty trace key = true ↔ ∃ d, .delivery d ∈ trace ∧ d.Triggers key := by
  simp only [pagerDuty, receive_foldl_iff, mem_deliveries]

/-- An accepted delivery to PagerDuty triggers the key of its rule. -/
theorem Delivery.triggers_of_success {d : Delivery} {rule : AlertRule}
    (hchannel : d.channel.isPagerDuty = true) (hsuccess : d.success = true)
    (hreached : d.success = true → d.endpoint.isSome) (hrule : d.alert.ruleId = rule.id)
    (htenant : d.alert.tenantId = rule.tenantId) : d.Triggers rule.dedupKey := by
  refine ⟨?_, by rw [dedupKey, hrule, htenant, AlertRule.dedupKey]⟩
  simp [Delivery.pagerDutyEvent, hchannel, hsuccess, hreached hsuccess]

/-- Alerts of other rules have other keys. -/
theorem Delivery.not_triggers_of_ne {d : Delivery} {rule : AlertRule}
    (hrule : d.alert.ruleId ≠ rule.id) : ¬ d.Triggers rule.dedupKey := by
  intro htriggers
  exact hrule (Uuid.display_pair_injective htriggers.2).1

/-! ### The mirror -/

/-- PagerDuty holds the key of a rule open exactly while the rule has an open row. -/
def Mirrors (rule : AlertRule) (w : World) : Prop :=
  pagerDuty w.trace rule.dedupKey = true ↔ w.openRows rule.tenantId rule.id ≠ []

instance (rule : AlertRule) (w : World) : Decidable (Mirrors rule w) :=
  inferInstanceAs (Decidable (_ ↔ _))

/-- Every delivery of a trace succeeded. -/
def AllDelivered (trace : List Event) : Prop := ∀ d, .delivery d ∈ trace → d.success = true

instance (trace : List Event) : Decidable (AllDelivered trace) :=
  decidable_of_iff (∀ d ∈ trace.filterMap Event.delivery?, d.success = true)
    (by simp only [mem_deliveries, AllDelivered])

theorem AllDelivered.earlier {first second : List Event} (h : AllDelivered second)
    (hearlier : first <+: second) : AllDelivered first :=
  fun d hd => h d (hearlier.subset hd)

/-- Passes and time, no requests: nothing lands while a pass waits. -/
def Step.IsPass : Step → Prop
  | .evaluate env => ∀ pt, (env.calls pt).landed = []
  | .wait _ => True
  | _ => False

/-- A step that closes no incident of a rule, and writes the row of a new one. -/
def KeepsIncident (p : Platform) (rule : AlertRule) (w : World) : Step → Prop
  | .evaluate env =>
    (∀ turn ∈ passTurns p env w, turn.rule.id = rule.id →
      (turn.resolves p env = true → (env.calls (.resolve rule.id)).fails = true) ∧
      (turn.raises p env = true → w.openRows rule.tenantId rule.id = [] →
        (env.calls (.insertHistory rule.id)).fails = false ∧
          (env.calls (.insertHistory rule.id)).uuid ∉ turn.world.historyIds)) ∧
    (∀ tenant ∈ passTenants env w, tenant.id = rule.tenantId →
      w.openRows rule.tenantId rule.id ≠ [] → (env.calls (.listOpen tenant.id)).fails = false →
        (env.calls (.listRules tenant.id)).fails = true ∨ rule.isEnabled = false →
          (env.calls (.silentClose tenant.id rule.id)).fails = true)
  | _ => True

section Mirror

variable {rule : AlertRule} {w w' : World}

/-- Nothing is said about the rule, and its open rows stay. -/
theorem Mirrors.of_emits (h : Mirrors rule w)
    (hrows : w'.openRows rule.tenantId rule.id = w.openRows rule.tenantId rule.id)
    (hemits : Emits (fun e => ∀ d, e = .delivery d → d.alert.ruleId ≠ rule.id) w w') :
    Mirrors rule w' := by
  obtain ⟨events, htrace, hevents⟩ := hemits
  unfold Mirrors at h ⊢
  rw [hrows, ← h, pagerDuty_iff, pagerDuty_iff, htrace]
  constructor
  · rintro ⟨d, hd, htriggers⟩
    rcases List.mem_append.1 hd with hd | hd
    · exact ⟨d, hd, htriggers⟩
    · exact absurd htriggers (Delivery.not_triggers_of_ne (hevents _ hd d rfl))
  · rintro ⟨d, hd, htriggers⟩
    exact ⟨d, List.mem_append_left _ hd, htriggers⟩

/-- An incident that stays open keeps its key open. -/
theorem Mirrors.stays (h : Mirrors rule w) (hopen : w.openRows rule.tenantId rule.id ≠ [])
    (htrace : w.trace <+: w'.trace) (hopen' : w'.openRows rule.tenantId rule.id ≠ []) :
    Mirrors rule w' := by
  refine ⟨fun _ => hopen', fun _ => ?_⟩
  obtain ⟨d, hd, htriggers⟩ := pagerDuty_iff.1 (h.2 hopen)
  exact pagerDuty_iff.2 ⟨d, htrace.subset hd, htriggers⟩

end Mirror

/-! ### One turn -/

/-- Waiting for calls nothing lands in leaves the silences alone. -/
theorem Waits.alertSilences {C : Call → Prop} {w w' : World} (hw : Waits C w w')
    (hC : ∀ c, C c → c.landed = []) : w'.alertSilences = w.alertSilences := by
  obtain ⟨calls, hcalls, -, hsilences⟩ := hw.clock
  rw [hsilences]
  refine Runs.foldl_frame World.alertSilences (fun v c hc => ?_) w
  simp only [World.advance, hC c (hcalls c hc), List.foldl_nil]

/-- Without silences every accepting channel is notified. -/
theorem AtRule.noticeChannels {env : PassEnv} {start : World} {tp : TenantPass} {rule : AlertRule}
    {w : World} (h : AtRule env start tp rule w) (hsilences : w.alertSilences = [])
    (hlanded : ∀ pt, (env.calls pt).landed = []) :
    tp.noticeChannels rule = rule.acceptingChannels := by
  obtain ⟨loaded, hloaded, hwaits⟩ := h.silences
  have hnone : loaded.alertSilences = [] := by
    rw [← hwaits.alertSilences (fun c hc => ?_), hsilences]
    obtain ⟨q, -, -, pt, -, rfl⟩ := hc
    exact hlanded pt
  have hsilent : tp.silences = [] := by
    rw [hloaded, loadSilences, World.listActiveSilences, hnone]
    split <;> rfl
  rw [TenantPass.noticeChannels, hsilent]
  rfl

section Turn

variable {p : Platform} {env : PassEnv} {start : World} {turn : Turn} {w' : World}

/-- A turn of the rule keeps the mirror if it closes nothing and writes its row. -/
theorem Mirrors.rule (h : Mirrors turn.rule turn.world)
    (hat : AtRule env start turn.pass turn.rule turn.world)
    (hstep : RuleStep env turn.pass turn.rule (turn.fires p env) turn.world w')
    (hchannel : ∃ c ∈ turn.pass.noticeChannels turn.rule, c.isPagerDuty = true)
    (hdelivered : AllDelivered w'.trace)
    (hkept : turn.resolves p env = true → (env.calls (.resolve turn.rule.id)).fails = true)
    (hwritten : turn.raises p env = true → turn.world.openRows turn.rule.tenantId turn.rule.id = [] →
      (env.calls (.insertHistory turn.rule.id)).fails = false ∧
        (env.calls (.insertHistory turn.rule.id)).uuid ∉ turn.world.historyIds) :
    Mirrors turn.rule w' := by
  have hsilent : ∀ {events : List Event}, w'.trace = turn.world.trace ++ events →
      w'.alertHistory = turn.world.alertHistory → (∀ e ∈ events, ∀ d, e ≠ .delivery d) →
      Mirrors turn.rule w' := by
    intro events htrace hhistory hevents
    refine h.of_emits (by simp only [World.openRows, hhistory]) ⟨events, htrace, ?_⟩
    exact fun e he d hd => absurd hd (hevents e he d)
  have hearlier := hstep.follows.trace
  cases hstep with
  | stillFiring => exact hsilent (fires_trace ..) (fires_alertHistory ..) (by simp)
  | throttled => exact hsilent (fires_trace ..) (fires_alertHistory ..) (by simp)
  | waiting => exact hsilent (counts_trace ..) (counts_alertHistory ..) (by simp)
  | quiet => exact hsilent (forgets_trace ..) (forgets_alertHistory ..) (by simp)
  | @raised _ alert ds row hfired hnone hcool hraised =>
      have hraises : turn.raises p env = true := by
        have hcool' : turn.throttled env = false := hcool
        simp [Turn.raises, hfired, hnone, hcool']
      have hhistory : w'.alertHistory = turn.world.alertHistory ++ row.toList := by
        rw [hraised.alertHistory, fires_alertHistory]
      have hrows : w'.openRows turn.rule.tenantId turn.rule.id =
          turn.world.openRows turn.rule.tenantId turn.rule.id ++
            row.toList.filter (·.isOpenFor turn.rule.tenantId turn.rule.id) := by
        rw [World.openRows, hhistory, List.filter_append]
        rfl
      by_cases hopen : turn.world.openRows turn.rule.tenantId turn.rule.id = []
      · obtain ⟨hinsert, hfresh⟩ := hwritten hraises hopen
        obtain ⟨new, rfl⟩ : ∃ new, row = some new := by
          refine Option.ne_none_iff_exists'.1 fun hrow => ?_
          rcases hraised.refused hrow with hfails | hused
          · rw [hinsert] at hfails
            cases hfails
          · rw [fires_historyIds] at hused
            exact hfresh hused
        have hnew := hraised.written new rfl
        refine ⟨fun _ => ?_, fun _ => ?_⟩
        · rw [hrows]
          simp [AlertHistoryRow.isOpenFor, hnew.tenantId, hnew.ruleId, hnew.resolvedAt, hat.ofTenant]
        · -- PagerDuty got the fire notice.
          obtain ⟨c, hc, hpager⟩ := hchannel
          rw [← hraised.channels] at hc
          obtain ⟨d, hd, rfl⟩ := List.mem_map.1 hc
          obtain ⟨ctx, now, rfl⟩ := hraised.raisedFor
          obtain ⟨events, htrace, hdelivery, -⟩ := hraised.events
          have hmem : .delivery d ∈ w'.trace := by
            rw [htrace]
            exact List.mem_append_right _ ((hdelivery d).2 hd)
          have hdelivers := hraised.deliveries d hd
          refine pagerDuty_iff.2 ⟨d, hmem, Delivery.triggers_of_success hpager (hdelivered d hmem)
            hdelivers.reached (by rw [hdelivers.alert]; rfl) ?_⟩
          rw [hdelivers.alert, hat.ofTenant]
          rfl
      · refine h.stays hopen hearlier ?_
        rw [hrows]
        exact fun hnil => hopen (List.append_eq_nil_iff.1 hnil).1
  | @resolved since _ alert ds hfired hopen hstreak hres =>
      have hresolves : turn.resolves p env = true := by
        simp [Turn.resolves, hfired, hopen, hstreak]
      obtain ⟨time, -, hhistory⟩ := hres.alertHistory
      have hrows : w'.openRows turn.rule.tenantId turn.rule.id =
          turn.world.openRows turn.rule.tenantId turn.rule.id := by
        rw [hkept hresolves, counts_alertHistory] at hhistory
        simp only [World.openRows, hhistory, closedHistory, if_true]
      have hstill : turn.world.openRows turn.rule.tenantId turn.rule.id ≠ [] := by
        rw [hat.ofTenant]
        exact hat.openRows_ne_nil hopen
      exact h.stays hstill hearlier (hrows ▸ hstill)

end Turn

/-! ### One pass -/

/-- The invariant of a run without requests. -/
structure Mirrored (rule : AlertRule) (w : World) : Prop where
  keys : WellKeyed w
  configured : rule ∈ w.configs
  silences : w.alertSilences = []
  mirrors : AllDelivered w.trace → Mirrors rule w

theorem mirrored_passInvariant {p : Platform} {env : PassEnv} {start : World} {rule : AlertRule}
    (hchannel : ∃ c ∈ rule.acceptingChannels, c.isPagerDuty = true)
    (hlanded : ∀ pt, (env.calls pt).landed = []) (hkeeps : KeepsIncident p rule start (.evaluate env)) :
    PassInvariant p env start (Mirrored rule) where
  wait w pt h := {
    keys := (wellKeyed_passInvariant p env start).wait w pt h.keys
    configured := (Follows.advance w _).configs ▸ h.configured
    silences := by
      have hw : Waits (fun c => c = env.calls pt) w (w.advance (env.calls pt)) :=
        .advance (C := fun c => c = env.calls pt) rfl w
      rw [hw.alertSilences fun c hc => hc ▸ hlanded pt]
      exact h.silences
    mirrors := fun hdelivered => by
      rw [World.advance_trace] at hdelivered
      exact (h.mirrors hdelivered).of_emits (by simp only [World.openRows, World.advance_alertHistory])
        (.of_trace_eq (World.advance_trace w _)) }
  gone tenant htenant w w' r h hat hclosed := {
    keys := (wellKeyed_passInvariant p env start).gone tenant htenant w w' r h.keys hat hclosed
    configured := hclosed.waits.configs ▸ h.configured
    silences := by
      rw [hclosed.waits.alertSilences fun c hc => hc ▸ hlanded _]
      exact h.silences
    mirrors := fun hdelivered => by
      have hmirrors := h.mirrors (hdelivered.earlier hclosed.follows.trace)
      refine hmirrors.of_emits ?_ ⟨_, hclosed.trace, by simp⟩
      by_cases hmine : rule.tenantId = tenant.id ∧ rule.id = r
      · -- The statement fails, so the rows stay.
        obtain ⟨htenantId, rfl⟩ := hmine
        have hopen : start.openRows rule.tenantId rule.id ≠ [] := by
          rw [htenantId, ← hat.untouched]
          exact hat.opened
        have hfails := hkeeps.2 tenant htenant htenantId.symm hopen hat.listed
          (hat.gone.imp_right fun hall => hall rule h.configured rfl htenantId)
        obtain ⟨time, -, hhistory⟩ := hclosed.alertHistory
        simp only [World.openRows, hhistory, closedHistory, hfails, if_true]
      · exact hclosed.openRows_of_ne hmine }
  rule turn hturn w' h hat hstep := {
    keys := (wellKeyed_passInvariant p env start).rule turn hturn w' h.keys hat hstep
    configured := hstep.waits.configs ▸ h.configured
    silences := by
      rw [hstep.waits.alertSilences fun c hc => ?_]
      · exact h.silences
      · obtain ⟨pt, -, rfl⟩ := hc
        exact hlanded pt
    mirrors := fun hdelivered => by
      have hmirrors := h.mirrors (hdelivered.earlier hstep.follows.trace)
      by_cases hmine : rule.id = turn.rule.id
      · obtain rfl := hat.eq_of_id h.keys h.configured hmine
        have hall := hat.noticeChannels h.silences hlanded
        obtain ⟨hresolve, hwritten⟩ := hkeeps.1 turn hturn hmine.symm
        refine Mirrors.rule hmirrors hat hstep (hall ▸ hchannel) hdelivered hresolve ?_
        intro hraises hopen
        refine hwritten hraises ?_
        rw [hat.ofTenant, hat.untouched, ← hat.ofTenant] at hopen
        exact hopen
      · refine hmirrors.of_emits (hstep.openRows_of_ne fun hsame => hmine hsame.2) ?_
        obtain ⟨events, htrace, hevents⟩ := hstep.spares hmine
        refine ⟨events, htrace, fun e he d hd => ?_⟩
        rw [hd] at he
        exact hevents _ he }
  cleanup w h := {
    keys := (wellKeyed_passInvariant p env start).cleanup w h.keys
    configured := h.configured
    silences := h.silences
    mirrors := h.mirrors }

/-- **PagerDuty mirrors incidents** in every run whose passes close no incident of
the rule and write the row of every one they announce. -/
theorem pagerDuty_mirrors (p : Platform) (rule : AlertRule) (w : World) (steps : List Step)
    (hkeys : WellKeyed w) (hstart : w.trace = [])
    (hclosed : w.openRows rule.tenantId rule.id = []) (hsilences : w.alertSilences = [])
    (hrule : rule ∈ w.configs)
    (hchannel : ∃ c ∈ rule.channels, c.isPagerDuty = true ∧ c.minSeverity = none)
    (hpasses : ∀ s ∈ steps, s.IsPass)
    (hdelivered : AllDelivered (run p w steps).trace)
    (hkeeps : Runs.AllSteps (step p) (KeepsIncident p rule) w steps) :
    Mirrors rule (run p w steps) := by
  have hnothing : Mirrored rule w := {
    keys := hkeys
    configured := hrule
    silences := hsilences
    mirrors := fun _ => by
      unfold Mirrors
      rw [hclosed, hstart]
      simp [pagerDuty] }
  have haccepts : ∃ c ∈ rule.acceptingChannels, c.isPagerDuty = true := by
    obtain ⟨c, hc, hpager, hfloor⟩ := hchannel
    exact ⟨c, List.mem_filter.2 ⟨hc, by rw [hfloor]; rfl⟩, hpager⟩
  have hall : Runs.AllSteps (step p) (fun v s => s.IsPass ∧ KeepsIncident p rule v s) w steps :=
    hkeeps.and_mem hpasses
  have hrun : Mirrored rule (run p w steps) := by
    refine hall.invariant (Mirrored rule) (fun v s hv hs => ?_) hnothing
    obtain ⟨hpass, hkept⟩ := hs
    cases s with
    | evaluate env =>
        exact runAlertEvaluation_induction (mirrored_passInvariant haccepts hpass hkept) hv.keys hv
    | wait n => exact ⟨hv.keys.step (.wait n), hv.configured, hv.silences, hv.mirrors⟩
    | drain | createRule | updateRule | deleteRule | silence => exact hpass.elim
  exact hrun.mirrors hdelivered

theorem keepsIncident_evaluate {p : Platform} {rule : AlertRule} {w : World} {env : PassEnv}
    (hturns : ∀ turn ∈ passTurns p env w, turn.rule.id = rule.id →
      (turn.resolves p env = true → (env.calls (.resolve rule.id)).fails = true) ∧
      (turn.raises p env = true → w.openRows rule.tenantId rule.id = [] →
        (env.calls (.insertHistory rule.id)).fails = false ∧
          (env.calls (.insertHistory rule.id)).uuid ∉ turn.world.historyIds))
    (hgone : (env.calls (.listRules rule.tenantId)).fails = false ∧ rule.isEnabled = true) :
    KeepsIncident p rule w (.evaluate env) := by
  refine ⟨hturns, fun tenant _ htenant _ _ hmissing => ?_⟩
  rw [htenant, hgone.1, hgone.2] at hmissing
  simp at hmissing

def samplePager : AlertChannel := .pagerDuty "R02ABC" none

/-- A rule fires, keeps firing, and evaluates clear once. -/
def hovering : List Step :=
  [.evaluate (samplePass troubledReads 100), .evaluate (samplePass troubledReads 101),
    .evaluate (samplePass calmReads 102)]

theorem pagerDuty_mirrors_sample : Mirrors (sampleRule [samplePager] 300)
    (run samplePlatform (sampleWorld (sampleRule [samplePager] 300)) hovering) :=
  pagerDuty_mirrors samplePlatform (sampleRule [samplePager] 300)
    (sampleWorld (sampleRule [samplePager] 300)) hovering (wellKeyed_sampleWorld _) rfl rfl rfl
    (by simp [sampleWorld, World.configs, AlertRule.config, sampleRule])
    ⟨samplePager, by simp [sampleRule], rfl, rfl⟩
    (by simp [hovering, Step.IsPass, samplePass, sampleCall])
    (by decide +kernel)
    ⟨keepsIncident_evaluate (by decide +kernel) ⟨rfl, rfl⟩,
      keepsIncident_evaluate (by decide +kernel) ⟨rfl, rfl⟩,
      keepsIncident_evaluate (by decide +kernel) ⟨rfl, rfl⟩, trivial⟩

/-- A rule fires and clears, and everything is delivered. -/
def firesAndClears : List Step :=
  [.evaluate (samplePass troubledReads 100), .evaluate (samplePass calmReads 101),
    .evaluate (samplePass calmReads 102)]

/-- The incident is resolved, and PagerDuty holds it open. -/
theorem not_mirrors_firesAndClears :
    let w := run samplePlatform (sampleWorld (sampleRule [samplePager] 300)) firesAndClears
    AllDelivered w.trace ∧ ¬ Mirrors (sampleRule [samplePager] 300) w := by
  decide +kernel

end Feloxi.Alerting
