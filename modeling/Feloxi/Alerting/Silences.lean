import Feloxi.Alerting.Keys

/-!
# Feloxi.Alerting.Silences

Whether silences hold notifications. A silence that is not active can only become
so by being created, since none starts in the future (`World.Audible`). A pass
looks at the silences it loaded, a drain at none: so a notification leaves while
an active silence covers its rule exactly where the loaded list misses one or a
retry is due (`Heeds`).
-/

namespace Feloxi.Alerting

/-- Whether an active silence of the tenant covers the rule. -/
def World.isCovered (w : World) (tenantId ruleId : Uuid) : Bool :=
  isSilenced (w.listActiveSilences tenantId) ruleId

/-- Whether an active silence covered the rule when the delivery was made. -/
def Delivery.muted (d : Delivery) : Bool :=
  isSilenced (d.silences.filter fun s => s.tenantId == d.alert.tenantId && s.activeAt d.time)
    d.alert.ruleId

/-- No notification was sent while an active silence covered its rule. -/
def SilencesHold (trace : List Event) : Prop :=
  ∀ d ∈ trace.filterMap Event.delivery?, d.endpoint.isSome → d.muted = false

instance (trace : List Event) : Decidable (SilencesHold trace) :=
  inferInstanceAs (Decidable (∀ d ∈ trace.filterMap Event.delivery?, _))

/-! ### Silences and time -/

/-- Whether an operation of the API silences the rule. -/
def SilenceOp.silences (op : SilenceOp) (tenantId ruleId : Uuid) : Bool :=
  match op with
  | .create t r _ _ => t == tenantId && (r == none || r == some ruleId)
  | .expire _ _ => false

/-- Whether the rule is silenced while a call is waited for. -/
def Call.silences (c : Call) (tenantId ruleId : Uuid) : Bool :=
  c.landed.any fun l => l.2.silences tenantId ruleId

theorem World.isCovered_eq_false_iff {w : World} {t r : Uuid} :
    w.isCovered t r = false ↔ ∀ s ∈ w.alertSilences, s.tenantId = t →
      (s.ruleId = none ∨ s.ruleId = some r) → s.activeAt w.now = false := by
  rw [isCovered, isSilenced, List.any_eq_false]
  simp only [listActiveSilences, List.mem_filter, Bool.and_eq_true, Bool.or_eq_true, beq_iff_eq,
    Bool.eq_false_iff, ne_eq]
  constructor
  · intro h s hs ht hr hactive
    exact h s ⟨hs, ht, hactive⟩ hr
  · intro h s hs hr
    exact h s hs.1 hs.2.1 hr hs.2.2

/-- No active silence covers the rule, and none can become active by itself. -/
structure World.Audible (w : World) (tenantId ruleId : Uuid) : Prop where
  started : w.SilencesStarted
  uncovered : w.isCovered tenantId ruleId = false

namespace World.Audible

variable {w : World} {t r : Uuid}

theorem later (h : w.Audible t r) (n : Nat) : { w with now := w.now + n }.Audible t r := by
  refine ⟨h.started.later n, isCovered_eq_false_iff.2 fun s hs ht hr => ?_⟩
  have hstarts := h.started s hs
  have hover := isCovered_eq_false_iff.1 h.uncovered s hs ht hr
  simp only [AlertSilence.activeAt, hstarts, decide_true, Bool.true_and, decide_eq_false_iff_not,
    Nat.not_lt] at hover
  have hover' : s.endsAt ≤ w.now + n := Nat.le_trans hover (Nat.le_add_right _ _)
  simp [AlertSilence.activeAt, Nat.not_lt.2 hover']

theorem applySilenceOp (h : w.Audible t r) {op : SilenceOp} (hop : op.silences t r = false) :
    (w.applySilenceOp op).Audible t r := by
  refine ⟨h.started.applySilenceOp op, ?_⟩
  have hold := isCovered_eq_false_iff.1 h.uncovered
  rw [isCovered_eq_false_iff]
  cases op with
  | create tenantId ruleId durationMinutes id =>
      simp only [World.applySilenceOp, createSilence]
      split
      · exact hold
      · intro s hs ht hr
        rcases List.mem_append.1 hs with hs | hs
        · exact hold s hs ht hr
        · obtain rfl := List.mem_singleton.1 hs
          simp only at ht hr
          rw [SilenceOp.silences, ht] at hop
          rcases hr with rfl | rfl <;> simp at hop
  | expire tenantId id =>
      intro s hs ht hr
      obtain ⟨s₀, hs₀, rfl⟩ := List.mem_map.1 hs
      by_cases hended : (s₀.id == id && s₀.tenantId == tenantId && decide (w.now < s₀.endsAt)) = true
      · -- Ended now, so no longer active.
        rw [if_pos hended]
        simp [AlertSilence.activeAt, World.applySilenceOp, expireSilence]
      · rw [if_neg hended] at ht hr ⊢
        exact hold s₀ hs₀ ht hr

theorem advance (h : w.Audible t r) {c : Call} (hc : c.silences t r = false) :
    (w.advance c).Audible t r := by
  rw [Call.silences, List.any_eq_false] at hc
  have hlanded : (c.landed.foldl
      (fun w l => { w with now := w.now + l.1 }.applySilenceOp l.2) w).Audible t r :=
    Runs.foldl_invariant (fun v => World.Audible v t r) (fun v l hl hv =>
      (hv.later l.1).applySilenceOp (Bool.eq_false_of_not_eq_true (hc l hl))) h
  exact hlanded.later c.delay

theorem of_waits {C : Call → Prop} {w' : World} (h : w.Audible t r) (hw : Waits C w w')
    (hC : ∀ c, C c → c.silences t r = false) : w'.Audible t r := by
  obtain ⟨calls, hcalls, hnow, hsilences⟩ := hw.clock
  have hall : (w.waitAll calls).Audible t r :=
    Runs.foldl_invariant (fun v => World.Audible v t r)
      (fun v c hc hv => hv.advance (hC c (hcalls c hc))) h
  refine ⟨h.started.of_waits hw, isCovered_eq_false_iff.2 ?_⟩
  rw [hnow, hsilences]
  exact isCovered_eq_false_iff.1 hall.uncovered

end World.Audible

/-- A delivery made from a state in which its rule is audible. -/
theorem Delivers.not_muted {C : Call → Prop} {tenant : Tenant} {notice : Notice} {alert : FiredAlert}
    {w : World} {d : Delivery} (h : Delivers C tenant notice alert w d)
    (haudible : w.Audible alert.tenantId alert.ruleId)
    (hC : ∀ c, C c → c.silences alert.tenantId alert.ruleId = false) : d.muted = false := by
  obtain ⟨w', hw, htime, hsilences⟩ := h.clock
  rw [Delivery.muted, h.alert, htime, hsilences]
  exact (haudible.of_waits hw hC).uncovered

/-! ### When silences are heeded -/

/-- The world in which the turn is decided. -/
def Turn.decision (env : PassEnv) (turn : Turn) : World :=
  turn.world.advance (env.calls (.context turn.rule.id))

/-- A call between the decision of the turn and the last send of its notice. -/
def Turn.SendCall (p : Platform) (env : PassEnv) (turn : Turn) : Call → Prop :=
  if turn.fires p env then FireCall env turn.rule.id turn.rule.acceptingChannels.length
  else NoticeCall env turn.rule.id turn.rule.acceptingChannels.length

/-- A turn that notifies although its silences are read as not covering the rule:
no active silence covers it, and none is created before the last send. -/
def Turn.Heeds (p : Platform) (env : PassEnv) (turn : Turn) : Prop :=
  (turn.raises p env || turn.resolves p env) = true → turn.rule.acceptingChannels ≠ [] →
    isSilenced turn.pass.silences turn.rule.id = false →
      (turn.decision env).isCovered turn.rule.tenantId turn.rule.id = false ∧
        ∀ c, turn.SendCall p env c → c.silences turn.rule.tenantId turn.rule.id = false

/-- A retry that is due: no active silence covers its rule, and none is created
before the send. -/
def Resend.Heeds (env : DrainEnv) (r : Resend) : Prop :=
  r.world.isCovered r.job.alert.tenantId r.job.alert.ruleId = false ∧
    (env (.send r.index)).silences r.job.alert.tenantId r.job.alert.ruleId = false

/-- The steps that heed the silences. -/
def Heeds (p : Platform) (w : World) : Step → Prop
  | .evaluate env => ∀ turn ∈ passTurns p env w, turn.Heeds p env
  | .drain env => ∀ r ∈ drainResends p env w, r.Heeds env
  | _ => True

/-! ### Every heeding step keeps the silences -/

/-- Not a notification of a silenced rule. -/
def Event.isHeard (e : Event) : Prop := ∀ d, e = .delivery d → d.muted = false

theorem SilencesHold.of_emits {w w' : World} (h : SilencesHold w.trace)
    (hemits : Emits Event.isHeard w w') : SilencesHold w'.trace := by
  obtain ⟨events, htrace, hevents⟩ := hemits
  intro d hd hsent
  rw [htrace, List.filterMap_append] at hd
  rcases List.mem_append.1 hd with hold | hnew
  · exact h d hold hsent
  · obtain ⟨e, he, hdelivery⟩ := List.mem_filterMap.1 hnew
    refine hevents e he d ?_
    cases e with
    | delivery d' => rw [Option.some.inj hdelivery]
    | _ => cases hdelivery

section Turn

variable {p : Platform} {env : PassEnv} {turn : Turn}

/-- The notice of a turn that heeds the silences is heard on every channel. -/
theorem Turn.Heeds.not_muted (hheeds : turn.Heeds p env)
    (hnotifies : (turn.raises p env || turn.resolves p env) = true)
    (hstarted : turn.world.SilencesStarted) (htenant : turn.rule.tenantId = turn.pass.tenant.id)
    {v : World} (hnow : v.now = (turn.decision env).now)
    (hsilences : v.alertSilences = (turn.decision env).alertSilences) {notice : Notice}
    {alert : FiredAlert} (halert : alert.tenantId = turn.pass.tenant.id ∧ alert.ruleId = turn.rule.id)
    {C : Call → Prop} (hC : turn.pass.noticeChannels turn.rule = turn.rule.acceptingChannels →
      ∀ c, C c → turn.SendCall p env c) {ds : List Delivery}
    (hchannels : ds.map (·.channel) = turn.pass.noticeChannels turn.rule)
    (hds : ∀ d ∈ ds, Delivers C turn.pass.tenant notice alert v d) :
    ∀ d ∈ ds, d.muted = false := by
  intro d hd
  have hsomewhere : turn.pass.noticeChannels turn.rule ≠ [] := by
    rw [← hchannels]
    exact List.ne_nil_of_mem (List.mem_map_of_mem hd)
  obtain ⟨hunread, hall⟩ := TenantPass.noticeChannels_of_ne_nil hsomewhere
  obtain ⟨huncovered, hcalls⟩ := hheeds hnotifies (hall ▸ hsomewhere) hunread
  rw [htenant] at huncovered hcalls
  have hdecided : (turn.decision env).SilencesStarted := hstarted.advance _
  have haudible : v.Audible turn.pass.tenant.id turn.rule.id := by
    refine ⟨?_, World.isCovered_eq_false_iff.2 ?_⟩
    · intro s hs
      rw [hnow]
      exact hdecided s (hsilences ▸ hs)
    · rw [hnow, hsilences]
      exact World.isCovered_eq_false_iff.1 huncovered
  refine (hds d hd).not_muted ?_ ?_
  · rw [halert.1, halert.2]
    exact haudible
  · rw [halert.1, halert.2]
    exact fun c hc => hcalls c (hC hall c hc)

/-- What a turn that heeds the silences sends is heard. -/
theorem RuleStep.heard {v' : World}
    (hstep : RuleStep env turn.pass turn.rule (turn.fires p env) turn.world v')
    (hstarted : turn.world.SilencesStarted) (htenant : turn.rule.tenantId = turn.pass.tenant.id)
    (hheeds : turn.Heeds p env) : Emits Event.isHeard turn.world v' := by
  cases hstep with
  | stillFiring => exact ⟨_, fires_trace .., by simp [Event.isHeard]⟩
  | throttled => exact ⟨_, fires_trace .., by simp [Event.isHeard]⟩
  | waiting => exact ⟨_, counts_trace .., by simp [Event.isHeard]⟩
  | quiet => exact ⟨_, forgets_trace .., by simp [Event.isHeard]⟩
  | @raised _ alert ds _ hfired hnone hcool hraised =>
      obtain ⟨events, htrace, hdelivery, -⟩ := hraised.events
      have hnotifies : (turn.raises p env || turn.resolves p env) = true := by
        have hcool' : turn.throttled env = false := hcool
        simp [Turn.raises, hfired, hnone, hcool']
      obtain ⟨ctx, now, rfl⟩ := hraised.raisedFor
      refine ⟨events, htrace, fun e he d hd => ?_⟩
      refine hheeds.not_muted (v := fires env turn.pass turn.rule turn.world) hnotifies hstarted
        htenant rfl rfl ⟨rfl, rfl⟩ ?_ hraised.channels hraised.deliveries d
        ((hdelivery d).1 (hd ▸ he))
      intro hall c hc
      rw [Turn.SendCall, if_pos hfired, ← hall]
      exact hc
  | @resolved since _ alert ds hfired hopen hstreak hres =>
      obtain ⟨events, htrace, hdelivery, -⟩ := hres.events
      have hnotifies : (turn.raises p env || turn.resolves p env) = true := by
        simp [Turn.resolves, hfired, hopen, hstreak]
      obtain ⟨since', now, rfl⟩ := hres.noticeFor
      refine ⟨events, htrace, fun e he d hd => ?_⟩
      refine hheeds.not_muted (v := counts env turn.pass turn.rule turn.world) hnotifies hstarted
        htenant rfl rfl ⟨rfl, rfl⟩ ?_ hres.channels hres.deliveries d ((hdelivery d).1 (hd ▸ he))
      intro hall c hc
      rw [Turn.SendCall, if_neg (by simp [hfired]), ← hall]
      exact hc

end Turn

theorem silencesHold_passInvariant (p : Platform) (env : PassEnv) (start : World)
    (hheeds : ∀ turn ∈ passTurns p env start, turn.Heeds p env) :
    PassInvariant p env start fun w => WellKeyed w ∧ SilencesHold w.trace where
  wait w pt h := ⟨(wellKeyed_passInvariant p env start).wait w pt h.1,
    h.2.of_emits (.of_trace_eq (World.advance_trace w _))⟩
  gone tenant htenant w w' r h hat hclosed :=
    ⟨(wellKeyed_passInvariant p env start).gone tenant htenant w w' r h.1 hat hclosed,
      h.2.of_emits ⟨_, hclosed.trace, by simp [Event.isHeard]⟩⟩
  rule turn hturn w' h hat hstep :=
    ⟨(wellKeyed_passInvariant p env start).rule turn hturn w' h.1 hat hstep,
      h.2.of_emits (hstep.heard h.1.silences hat.ofTenant (hheeds turn hturn))⟩
  cleanup w h := ⟨(wellKeyed_passInvariant p env start).cleanup w h.1,
    h.2.of_emits (.of_trace_eq rfl)⟩

/-- What a drain that heeds the silences sends is heard. -/
theorem drainDeliveryRetries_heard {p : Platform} {env : DrainEnv} {w : World}
    (hstarted : w.SilencesStarted) (hheeds : ∀ r ∈ drainResends p env w, r.Heeds env) :
    Emits Event.isHeard w (drainDeliveryRetries p env w) := by
  obtain ⟨events, htrace, hevents⟩ := drainDeliveryRetries_emits_resends p env w
  refine ⟨events, htrace, fun e he d hd => ?_⟩
  obtain ⟨r, hr, d', rfl, hwaits, tenant, hdelivers⟩ := hevents e he
  obtain rfl := Event.delivery.inj hd
  obtain ⟨huncovered, hsend⟩ := hheeds r hr
  exact hdelivers.not_muted ⟨hstarted.of_waits hwaits, huncovered⟩ fun c hc => hc ▸ hsend

theorem SilencesHold.step {p : Platform} {w : World} (hkeys : WellKeyed w)
    (h : SilencesHold w.trace) {s : Step} (hheeds : Heeds p w s) :
    SilencesHold (step p w s).trace := by
  rcases step_cases p w s with ⟨env, rfl⟩ | ⟨env, rfl⟩ | hadmin
  · exact (runAlertEvaluation_induction (silencesHold_passInvariant p env w hheeds) hkeys
      ⟨hkeys, h⟩).2
  · exact h.of_emits (drainDeliveryRetries_heard hkeys.silences hheeds)
  · exact h.of_emits (.of_trace_eq hadmin.trace)

/-- **Silences hold notifications** in every run whose steps heed them. -/
theorem silencesHold_of_heeds (p : Platform) (w : World) (steps : List Step) (hkeys : WellKeyed w)
    (hstart : w.trace = []) (hheeds : Runs.AllSteps (step p) (Heeds p) w steps) :
    SilencesHold (run p w steps).trace := by
  have hnothing : SilencesHold w.trace := by
    rw [hstart]
    exact fun d hd => absurd hd List.not_mem_nil
  have hrun : WellKeyed (run p w steps) ∧ SilencesHold (run p w steps).trace :=
    hheeds.invariant (fun v => WellKeyed v ∧ SilencesHold v.trace)
      (fun v s hv hs => ⟨hv.1.step s, hv.2.step hv.1 hs⟩) ⟨hkeys, hnothing⟩
  exact hrun.2

/-! ### Sample runs -/

theorem Turn.SendCall.exists_point {p : Platform} {env : PassEnv} {turn : Turn} {c : Call}
    (h : turn.SendCall p env c) : ∃ pt, c = env.calls pt := by
  unfold Turn.SendCall at h
  split at h
  · rcases h with ⟨i, -, hc⟩ | ⟨i, -, hc⟩
    · exact ⟨_, hc⟩
    · exact ⟨_, hc⟩
  · rcases h with hc | ⟨i, -, hc⟩ | ⟨i, -, hc⟩
    · exact ⟨_, hc⟩
    · exact ⟨_, hc⟩
    · exact ⟨_, hc⟩

/-- In a pass during which no silence is created, only those before it count. -/
theorem heeds_samplePass {p : Platform} {w : World} {reads : StoreReads} {id : Uuid}
    (h : ∀ turn ∈ passTurns p (samplePass reads id) w,
      (turn.raises p (samplePass reads id) || turn.resolves p (samplePass reads id)) = true →
        isSilenced turn.pass.silences turn.rule.id = false →
          (turn.decision (samplePass reads id)).isCovered turn.rule.tenantId turn.rule.id = false) :
    Heeds p w (.evaluate (samplePass reads id)) := by
  intro turn hturn hnotifies _ hunread
  refine ⟨h turn hturn hnotifies hunread, fun c hc => ?_⟩
  obtain ⟨pt, rfl⟩ := hc.exists_point
  rfl

/-- A rule fires, is silenced, and clears. -/
def mutedResolve : List Step :=
  [.evaluate (samplePass troubledReads 100), .silence (.create 1 none 60 5),
    .evaluate (samplePass calmReads 101), .evaluate (samplePass calmReads 102)]

theorem silencesHold_of_heeds_sample : SilencesHold
    (run samplePlatform (sampleWorld (sampleRule [sampleHook] 300)) mutedResolve).trace :=
  silencesHold_of_heeds samplePlatform (sampleWorld (sampleRule [sampleHook] 300)) mutedResolve
    (wellKeyed_sampleWorld _) rfl
    ⟨heeds_samplePass (by decide +kernel), trivial, heeds_samplePass (by decide +kernel),
      heeds_samplePass (by decide +kernel), trivial⟩

/-- The fire notice fails, the rule is silenced, the retry is due. -/
def mutedRetry : List Step :=
  [.evaluate ((samplePass troubledReads 100).refusing (.fire 7 0)),
    .silence (.create 1 none 60 5), .wait (fromSecs 60), .drain fun _ => sampleCall 200]

/-- The rule is silenced, and the pass cannot read the silences. -/
def unreadSilences : List Step :=
  [.silence (.create 1 none 60 5),
    .evaluate ((samplePass troubledReads 100).failing (.silences 1))]

/-- Both send while the silence is active. -/
theorem not_silencesHold_mutedRetry :
    ¬ SilencesHold
        (run samplePlatform (sampleWorld (sampleRule [sampleHook] 300)) mutedRetry).trace ∧
      ¬ SilencesHold
        (run samplePlatform (sampleWorld (sampleRule [sampleHook] 300)) unreadSilences).trace := by
  decide +kernel

end Feloxi.Alerting
