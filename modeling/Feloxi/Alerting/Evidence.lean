import Feloxi.Alerting.FailClosed
import Feloxi.Alerting.Resolve

/-!
# Feloxi.Alerting.Evidence

What the resolution of an incident rests on: two passes that evaluated the rule
with its condition false on what the builder held (`Turn.Clear`), and between them
no pass that got to the rule (`Misses`). A read that failed is held as its fallback
(`Answered`), so it counts like any other.
-/

namespace Feloxi.Alerting

open AlertContextBuilder

/-! ### What a builder holds -/

namespace AlertContextBuilder

/-- A held value is the store's answer, or the fallback of a read that failed. -/
def Answered (reads : StoreReads) (b : AlertContextBuilder) : Prop :=
  ∀ (read : StoreRead) (v : read.Value), b.memo read = some v →
    (read ∈ b.failedReads ∧ v = read.fallback) ∨ Issued reads read (.ok v)

theorem answered_new (reads : StoreReads) : Answered reads new := by
  intro read v h
  cases h

/-- A builder that keeps one more value holds answers if that value is one. -/
theorem Answered.keep {reads : StoreReads} {b : AlertContextBuilder} (h : Answered reads b)
    {read : StoreRead} {w : read.Value} {failedReads : List StoreRead}
    (hfailed : ∀ other ∈ b.failedReads, other ∈ failedReads)
    (hw : (read ∈ failedReads ∧ w = read.fallback) ∨ Issued reads read (.ok w)) :
    Answered reads { memo := Function.update b.memo read (some w), failedReads } := by
  intro other v hv
  by_cases hother : other = read
  · subst hother
    simp only [Function.update_self, Option.some.injEq] at hv
    exact hv ▸ hw
  · simp only [Function.update_of_ne hother] at hv
    exact (h other v hv).imp_left fun hfallback => ⟨hfailed other hfallback.1, hfallback.2⟩

theorem Answered.readSlot {reads : StoreReads} {b : AlertContextBuilder} (h : Answered reads b)
    {read : StoreRead} {answer : Except String read.Value} (hissued : Issued reads read answer) :
    Answered reads (readSlot read answer b).2 := by
  cases hslot : b.memo read with
  | some w =>
      simp only [AlertContextBuilder.readSlot, hslot]
      exact h
  | none => cases answer with
    | ok w =>
        simp only [AlertContextBuilder.readSlot, hslot]
        exact h.keep (fun _ hfailed => hfailed) (.inr hissued)
    | error e =>
        simp only [AlertContextBuilder.readSlot, hslot]
        exact h.keep (fun _ hfailed => List.mem_cons_of_mem _ hfailed)
          (.inl ⟨List.mem_cons_self, rfl⟩)

theorem Answered.contextFor {reads : StoreReads} {b : AlertContextBuilder} (h : Answered reads b)
    (sqrt : F64 → F64) (now : F64) (condition : AlertCondition) :
    Answered reads (contextFor sqrt reads now condition b).2 :=
  contextFor_steps (fun _ _ _ hissued hb => hb.readSlot hissued) now condition h

end AlertContextBuilder

/-! ### A pass only adds to the trace -/

section Follows

variable (p : Platform) (env : PassEnv)

/-- Evaluating a rule appends its evaluation first. -/
theorem evaluateRule_trace (tp : TenantPass) (acc : World × AlertContextBuilder) (rule : AlertRule) :
    acc.1.trace ++ [.evaluated tp.tenant.id rule.id
      (evaluateCondition rule.condition (ruleContext p env tp acc rule).1) (tp.openSince rule.id)] <+:
        (evaluateRule p env tp acc rule).1.trace := by
  obtain ⟨events, htrace, -⟩ := (evaluateRule_inv p env tp rule acc).trace
  exact ⟨events, by rw [htrace, List.append_assoc]; rfl⟩

theorem evaluateRules_follows (tp : TenantPass) (rules : List AlertRule)
    (acc : World × AlertContextBuilder) :
    Follows acc.1 (rules.foldl (evaluateRule p env tp) acc).1 :=
  Runs.foldl_rel (fun a b : World × AlertContextBuilder => Follows a.1 b.1) (fun a => .refl a.1)
    (fun hab hbc => hab.trans hbc) (fun a q _ => (evaluateRule_inv p env tp q a).follows) acc

theorem loadTenantPass_follows (w : World) (tenant : Tenant) :
    Follows w (loadTenantPass env w tenant).2 := by
  have hread := (Follows.advance w (env.calls (.listRules tenant.id))).trans
    (.advance _ (env.calls (.listOpen tenant.id)))
  unfold loadTenantPass
  simp only
  split
  · exact hread
  · refine ((hread.trans ?_).trans (.advance _ _)).trans (.advance _ _)
    exact Runs.foldl_rel Follows Follows.refl Follows.trans
      (fun v r _ => (silentClose_spec env tenant.id v r).follows) _

theorem evaluateTenant_follows (w : World) (tenant : Tenant) :
    Follows w (evaluateTenant p env w tenant) := by
  have hload := loadTenantPass_follows env w tenant
  unfold evaluateTenant
  split
  · rename_i v hpass
    rw [hpass] at hload
    exact hload
  · rename_i tp v hpass
    rw [hpass] at hload
    exact hload.trans (evaluateRules_follows p env tp tp.rules (v, .new))

theorem evaluateTenants_follows (tenants : List Tenant) (w : World) :
    Follows w (tenants.foldl (evaluateTenant p env) w) :=
  Runs.foldl_rel Follows Follows.refl Follows.trans
    (fun v tenant _ => evaluateTenant_follows p env v tenant) w

end Follows

/-! ### The turns of a pass -/

section Turns

variable {p : Platform} {env : PassEnv} {w : World}

theorem evaluateRule_answered {tp : TenantPass} {acc : World × AlertContextBuilder}
    (h : Answered (env.stores tp.tenant.id) acc.2) (rule : AlertRule) :
    Answered (env.stores tp.tenant.id) (evaluateRule p env tp acc rule).2 :=
  h.contextFor p.sqrt _ rule.condition

/-- A turn of a pass is one of a tenant the pass takes. -/
theorem mem_passTurns {turn : Turn} (h : turn ∈ passTurns p env w) :
    (env.calls .listTenants).fails = false ∧ ∃ before tenant after,
      (w.advance (env.calls .listTenants)).listTenants tenantLimit = before ++ tenant :: after ∧
        turn ∈ tenantTurns p env
          (before.foldl (evaluateTenant p env) (w.advance (env.calls .listTenants))) tenant := by
  unfold passTurns at h
  simp only at h
  split at h
  · cases h
  · rename_i hlisted
    obtain ⟨v, hv, hturn⟩ := List.mem_flatMap.1 h
    obtain ⟨before, after, hitems, hstate⟩ := Runs.visits_split hv
    exact ⟨by simpa using hlisted, before, v.2, after, hitems, hstate ▸ hturn⟩

theorem mem_tenantTurns {tenant : Tenant} {turn : Turn} (h : turn ∈ tenantTurns p env w tenant) :
    ∃ w', loadTenantPass env w tenant = (some turn.pass, w') ∧ ∃ before after,
      turn.pass.rules = before ++ turn.rule :: after ∧
        (turn.world, turn.builder) = before.foldl (evaluateRule p env turn.pass) (w', .new) := by
  unfold tenantTurns at h
  split at h
  · cases h
  · rename_i tp w' hload
    obtain ⟨v, hv, rfl⟩ := List.mem_map.1 h
    obtain ⟨before, after, hitems, hstate⟩ := Runs.visits_split hv
    exact ⟨w', hload, before, after, hitems, hstate⟩

/-- The builder of a turn holds answers and fallbacks. -/
theorem answered_of_mem_passTurns {turn : Turn} (h : turn ∈ passTurns p env w) :
    Answered (env.stores turn.pass.tenant.id) turn.builder := by
  obtain ⟨-, before, tenant, after, -, hturn⟩ := mem_passTurns h
  obtain ⟨w', -, rules, rest, -, hstate⟩ := mem_tenantTurns hturn
  have hbuilder : turn.builder = (rules.foldl (evaluateRule p env turn.pass) (w', .new)).2 :=
    congrArg Prod.snd hstate
  rw [hbuilder]
  exact Runs.foldl_invariant
    (fun acc : World × AlertContextBuilder => Answered (env.stores turn.pass.tenant.id) acc.2)
    (fun _ rule _ hacc => evaluateRule_answered hacc rule) (answered_new _)

/-- The evaluation of a turn. -/
def Turn.evaluation (p : Platform) (env : PassEnv) (turn : Turn) : Event :=
  .evaluated turn.pass.tenant.id turn.rule.id (turn.fires p env)
    (turn.pass.openSince turn.rule.id)

/-- A turn comes after the beginning of its pass, and its evaluation is in the trace
at the end. -/
theorem passTurns_trace {turn : Turn} (h : turn ∈ passTurns p env w) :
    w.trace <+: turn.world.trace ∧
      turn.world.trace ++ [turn.evaluation p env] <+: (runAlertEvaluation p env w).trace := by
  obtain ⟨hlisted, before, tenant, after, htenants, hturn⟩ := mem_passTurns h
  obtain ⟨w', hload, rules, rest, hrules, hstate⟩ := mem_tenantTurns hturn
  have hbefore := evaluateTenants_follows p env before
    (w.advance (env.calls .listTenants))
  have hloaded := loadTenantPass_follows env
    (before.foldl (evaluateTenant p env) (w.advance (env.calls .listTenants))) tenant
  rw [hload] at hloaded
  have hworld : turn.world = (rules.foldl (evaluateRule p env turn.pass) (w', .new)).1 :=
    congrArg Prod.fst hstate
  constructor
  · rw [hworld]
    exact ((((Follows.advance w _).trans hbefore).trans hloaded).trans
      (evaluateRules_follows p env turn.pass rules (w', .new))).trace
  · have hthis := evaluateRule_trace p env turn.pass (turn.world, turn.builder)
      turn.rule
    have hrest := (evaluateRules_follows p env turn.pass rest
      (evaluateRule p env turn.pass (turn.world, turn.builder) turn.rule)).trace
    have htenant : evaluateTenant p env
        (before.foldl (evaluateTenant p env) (w.advance (env.calls .listTenants))) tenant =
          (rest.foldl (evaluateRule p env turn.pass)
            (evaluateRule p env turn.pass (turn.world, turn.builder) turn.rule)).1 := by
      rw [evaluateTenant, hload]
      simp only
      rw [hrules, List.foldl_append, ← hstate, List.foldl_cons]
    have hlater := (evaluateTenants_follows p env after
      (evaluateTenant p env
        (before.foldl (evaluateTenant p env) (w.advance (env.calls .listTenants))) tenant)).trace
    have hend : (runAlertEvaluation p env w).trace =
        (after.foldl (evaluateTenant p env) (evaluateTenant p env
          (before.foldl (evaluateTenant p env) (w.advance (env.calls .listTenants))) tenant)).trace := by
      unfold runAlertEvaluation
      simp only [hlisted, Bool.false_eq_true, if_false, World.advance_trace]
      rw [htenants, List.foldl_append, List.foldl_cons]
    rw [hend]
    rw [htenant] at hlater
    exact (hthis.trans hrest).trans (htenant ▸ hlater)

/-- A pass that does not get to a rule: its tenant is not listed, its rules cannot be
read, or it is not enabled. -/
def Misses (env : PassEnv) (w : World) (r : Uuid) : Prop :=
  ∀ tenant ∈ passTenants env w, ∀ q ∈ w.configs, q.id = r → q.tenantId = tenant.id →
    (env.calls (.listRules tenant.id)).fails = true ∨ q.isEnabled = false

/-- A pass evaluates every rule it gets to. -/
theorem exists_turn_of_not_misses {r : Uuid} (h : ¬ Misses env w r) :
    ∃ turn ∈ passTurns p env w, turn.rule.id = r := by
  simp only [Misses, not_forall, not_or] at h
  obtain ⟨tenant, htenant, q, hq, rfl, hof, hlisted, henabled⟩ := h
  rw [Bool.not_eq_true] at hlisted
  rw [Bool.not_eq_false] at henabled
  have hlisting : ¬ (env.calls .listTenants).fails = true := by
    intro hfails
    rw [passTenants, if_pos hfails] at htenant
    cases htenant
  rw [passTenants, if_neg hlisting] at htenant
  obtain ⟨before, after, htenants⟩ := List.append_of_mem htenant
  let v := before.foldl (evaluateTenant p env) (w.advance (env.calls .listTenants))
  have hfollows : Follows w v := (Follows.advance w _).trans (evaluateTenants_follows p env before _)
  obtain ⟨q₀, hq₀, hconfig⟩ := List.mem_map.1 (hfollows.configs ▸ hq : q ∈ v.configs)
  -- The rule is among those the tenant's turn loads.
  have hloaded : q₀ ∈ loadRules env tenant.id (v.advance (env.calls (.listRules tenant.id))) := by
    rw [loadRules, hlisted]
    refine List.mem_filter.2 ⟨by rw [World.advance_alertRules]; exact hq₀, ?_⟩
    rw [← hconfig] at hof henabled
    have hof' : q₀.tenantId = tenant.id := hof
    have henabled' : q₀.isEnabled = true := henabled
    simp [hof', henabled']
  obtain ⟨tp, w', hload, hrules⟩ : ∃ tp w', loadTenantPass env v tenant = (some tp, w') ∧
      q₀ ∈ tp.rules := by
    unfold loadTenantPass
    simp only
    rw [if_neg]
    · exact ⟨_, _, rfl, hloaded⟩
    · intro hempty
      rw [Bool.and_eq_true, List.isEmpty_iff] at hempty
      rw [hempty.1] at hloaded
      cases hloaded
  obtain ⟨rules, rest, hsplit⟩ := List.append_of_mem hrules
  let acc := rules.foldl (evaluateRule p env tp) (w', .new)
  refine ⟨⟨tp, q₀, acc.1, acc.2⟩, ?_, by rw [← hconfig]; rfl⟩
  unfold passTurns
  simp only
  rw [if_neg hlisting]
  refine List.mem_flatMap.2 ⟨(v, tenant), ?_, ?_⟩
  · rw [htenants]
    exact Runs.mem_visits _ _ before tenant after
  · simp only [tenantTurns, hload]
    refine List.mem_map.2 ⟨(acc, q₀), ?_, rfl⟩
    rw [hsplit]
    exact Runs.mem_visits _ _ rules q₀ rest

end Turns

/-! ### Clear turns -/

/-- The builder of a turn when its condition is evaluated. -/
def Turn.served (p : Platform) (env : PassEnv) (turn : Turn) : AlertContextBuilder :=
  (ruleContext p env turn.pass (turn.world, turn.builder) turn.rule).2

/-- A turn with an open incident whose condition was false on answers of the stores
and on fallbacks of failed reads. -/
structure Turn.Clear (p : Platform) (env : PassEnv) (turn : Turn) : Prop where
  opened : (turn.pass.openSince turn.rule.id).isSome
  clear : turn.fires p env = false
  answered : Answered (env.stores turn.pass.tenant.id) (turn.served p env)

/-- The announcements that an incident of a rule is over. -/
def Event.Resolves (r : Uuid) : Event → Prop
  | .resolved _ r' _ => r' = r
  | .alertResolved _ r' _ _ => r' = r
  | .delivery d => d.alert.ruleId = r ∧ ∃ incident, d.notice = .resolved incident
  | _ => False

theorem Event.Resolves.rule {r : Uuid} {e : Event} (h : e.Resolves r) : e.rule = r := by
  cases e with
  | resolved t r' ids => exact h
  | alertResolved t r' name summary => exact h
  | delivery d => exact h.1
  | _ => cases h

theorem Event.not_resolves_of_rule_ne {r : Uuid} {e : Event} (h : e.rule ≠ r) : ¬ e.Resolves r :=
  fun hresolves => h hresolves.rule

section ClearTurns

variable {p : Platform} {env : PassEnv} {w w' : World} {ids : List Uuid} {r : Uuid}

theorem clear_of_mem_passTurns {turn : Turn} (h : turn ∈ passTurns p env w)
    (hopened : (turn.pass.openSince turn.rule.id).isSome) (hclear : turn.fires p env = false) :
    turn.Clear p env :=
  ⟨hopened, hclear, (answered_of_mem_passTurns h).contextFor p.sqrt _ turn.rule.condition⟩

/-- Only an evaluation at the end of a clear streak announces that an incident is
over. -/
theorem RuleStep.resolves {tp : TenantPass} {rule : AlertRule} {fired : Bool}
    (h : RuleStep env tp rule fired w w') :
    Emits (fun e => e.Resolves r → fired = false ∧ (tp.openSince rule.id).isSome ∧
      clearStreakToResolve ≤ w.resolver.nextStreak rule.id) w w' := by
  obtain ⟨events, htrace, hevents⟩ := h.trace
  cases h with
  | stillFiring => exact ⟨_, fires_trace env tp rule w, by simp [Event.Resolves]⟩
  | throttled => exact ⟨_, fires_trace env tp rule w, by simp [Event.Resolves]⟩
  | waiting => exact ⟨_, counts_trace env tp rule w, by simp [Event.Resolves]⟩
  | quiet => exact ⟨_, forgets_trace env tp rule w, by simp [Event.Resolves]⟩
  | resolved hfired hsince hstreak =>
      exact ⟨_, htrace, fun e he hresolves => ⟨hfired, by rw [hsince]; rfl, hstreak⟩⟩
  | raised _ _ _ hraised =>
      refine ⟨_, by rw [hraised.trace, fires_trace, List.append_assoc], fun e he hresolves => ?_⟩
      exfalso
      simp only [List.mem_append, List.mem_map, List.mem_cons, List.not_mem_nil, or_false] at he
      rcases he with rfl | ⟨d, hd, rfl⟩ | ⟨h₀, -, rfl⟩ | rfl | rfl
      · exact hresolves
      · -- The notice of a firing is not a resolved notice.
        obtain ⟨-, incident, hnotice⟩ := hresolves
        rw [(hraised.deliveries d hd).notice] at hnotice
        cases hnotice
      · exact hresolves
      · exact hresolves
      · exact hresolves

/-- A pass says nothing about rules that are not configured. -/
theorem runAlertEvaluation_configured (p : Platform) (env : PassEnv) (hkeys : WellKeyed w) :
    Emits (fun e => ∃ q ∈ w.configs, q.id = e.rule) w (runAlertEvaluation p env w) := by
  refine runAlertEvaluation_emits hkeys ?_ ?_
  · intro tenant _ v v' r hat hclosed
    obtain ⟨row, hrow⟩ := List.exists_mem_of_ne_nil _ (hat.untouched ▸ hat.opened)
    obtain ⟨hmem, hopen⟩ := List.mem_filter.1 hrow
    simp only [AlertHistoryRow.isOpenFor, Bool.and_eq_true, beq_iff_eq] at hopen
    obtain ⟨q, hq, hid, -⟩ := hkeys.history row hmem
    refine ⟨_, hclosed.trace, fun e he => ⟨q, hq, ?_⟩⟩
    simp only [List.mem_cons, List.not_mem_nil, or_false] at he
    rcases he with rfl | rfl
    · exact hid.trans hopen.1.2
    · exact hid.trans hopen.1.2
  · intro turn _ v' hat hstep
    obtain ⟨events, htrace, hevents⟩ := hstep.events
    refine ⟨events, htrace, fun e he => ⟨turn.rule.config, ?_, (hevents e he).1.symm⟩⟩
    rw [← hat.follows.configs]
    exact hat.configured

/-- A streak survives what says nothing about its rule. -/
theorem streak_of_spares (h : Tracked w) (h' : Tracked w') (hspares : Spares r w w') :
    w'.resolver.clearStreaks r = w.resolver.clearStreaks r := by
  obtain ⟨events, htrace, hevents⟩ := hspares
  rw [h' r, h r, htrace, clearStreak_append_of_none]
  intro e he
  exact Event.signal_of_rule_ne (hevents e he)

/-- A pass that says nothing about a rule does not get to it. -/
theorem misses_of_spares (hspares : Spares r w (runAlertEvaluation p env w)) : Misses env w r := by
  by_contra hmisses
  obtain ⟨turn, hturn, hid⟩ := exists_turn_of_not_misses (p := p) hmisses
  obtain ⟨⟨first, hfirst⟩, last, hlast⟩ := passTurns_trace hturn
  refine hspares.drop (turn.evaluation p env) ?_ hid
  rw [← hlast, ← hfirst, List.append_assoc, List.append_assoc, List.drop_left]
  simp

/-- A pass that says something about a rule closes its incident or evaluates it. -/
theorem rulePass_of_not_spares (hkeys : WellKeyed w)
    (hspares : ¬ Spares r w (runAlertEvaluation p env w)) :
    ∃ q ∈ w.configs, q.id = r ∧ RulePass p env w q (runAlertEvaluation p env w) := by
  obtain ⟨events, htrace, hevents⟩ := runAlertEvaluation_configured p env hkeys
  obtain ⟨e, he, hrule⟩ : ∃ e ∈ events, e.rule = r := by
    by_contra hnone
    exact hspares ⟨events, htrace, fun e he hrule => hnone ⟨e, he, hrule⟩⟩
  obtain ⟨q, hq, hid⟩ := hevents e he
  exact ⟨q, hq, hid.trans hrule, runAlertEvaluation_focus hkeys hq⟩

/-- A rule that has a clear streak after a pass had it before and was missed, or was
evaluated clear. -/
theorem streak_after_pass (hkeys : WellKeyed w) (hinv : StreakInvariant ids w)
    (hstreak : ((runAlertEvaluation p env w).resolver.clearStreaks r).isSome) :
    Misses env w r ∧ (w.resolver.clearStreaks r).isSome ∨
      ∃ turn ∈ passTurns p env w, turn.rule.id = r ∧ turn.Clear p env := by
  have hinv' : StreakInvariant ids (runAlertEvaluation p env w) :=
    runAlertEvaluation_induction (streakInvariant_passInvariant ids p env w) hkeys hinv
  by_cases hspares : Spares r w (runAlertEvaluation p env w)
  · refine .inl ⟨misses_of_spares hspares, ?_⟩
    rwa [← streak_of_spares hinv.tracked hinv'.tracked hspares]
  · obtain ⟨q, -, rfl, hpass⟩ := rulePass_of_not_spares hkeys hspares
    cases hpass with
    | aside h => exact absurd h.spares hspares
    | closed _ _ _ _ hclosed hafter =>
        rw [hafter.streak, hclosed.resolver, ResolveTracker.forget_self] at hstreak
        cases hstreak
    | @turned turn w₂ _ hturn hq _ _ hstep hafter =>
        have hid : turn.rule.id = q.id := by rw [← hq]; rfl
        refine .inr ⟨turn, hturn, hid, ?_⟩
        rw [hafter.streak, ← hid] at hstreak
        -- Every outcome but a counted clear evaluation leaves no streak.
        cases hstep with
        | waiting hfired hsince =>
            exact clear_of_mem_passTurns hturn (by rw [hsince]; rfl) hfired
        | stillFiring =>
            rw [fires, ResolveTracker.recordFiring_self] at hstreak
            cases hstreak
        | throttled =>
            rw [fires, ResolveTracker.recordFiring_self] at hstreak
            cases hstreak
        | raised _ _ _ hraised =>
            rw [hraised.resolver, fires, ResolveTracker.recordFiring_self] at hstreak
            cases hstreak
        | resolved _ _ _ hresolved =>
            rw [hresolved.resolver, ResolveTracker.forget_self] at hstreak
            cases hstreak
        | quiet =>
            rw [forgets, World.emit, ResolveTracker.forget_self] at hstreak
            cases hstreak

/-- A pass that resolves evaluates the rule clear and began with a streak. -/
theorem resolves_in_pass (hkeys : WellKeyed w) (hinv : StreakInvariant ids w) {e : Event}
    (he : e ∈ (runAlertEvaluation p env w).trace.drop w.trace.length) (hresolves : e.Resolves r) :
    (w.resolver.clearStreaks r).isSome ∧
      ∃ turn ∈ passTurns p env w, turn.rule.id = r ∧ turn.Clear p env := by
  have hspares : ¬ Spares r w (runAlertEvaluation p env w) :=
    fun hspares => hspares.drop e he hresolves.rule
  obtain ⟨q, -, rfl, hpass⟩ := rulePass_of_not_spares hkeys hspares
  cases hpass with
  | aside h => exact absurd h.spares hspares
  | @closed tenant w₁ w₂ _ _ _ hbefore _ hclosed hafter =>
      exfalso
      have hemits : Emits (fun e => ¬ e.Resolves q.id) w (runAlertEvaluation p env w) := by
        have hsilent : Emits (fun e => ¬ e.Resolves q.id) w₁ w₂ :=
          ⟨_, hclosed.trace, by simp [Event.Resolves]⟩
        exact ((hbefore.spares.mono fun _ he => Event.not_resolves_of_rule_ne he).trans hsilent).trans
          (hafter.spares.mono fun _ he => Event.not_resolves_of_rule_ne he)
      exact hemits.drop e he hresolves
  | @turned turn w₂ _ hturn hq hbefore _ hstep hafter =>
      have hid : turn.rule.id = q.id := by rw [← hq]; rfl
      have hemits : Emits (fun e => e.Resolves q.id → turn.fires p env = false ∧
          (turn.pass.openSince turn.rule.id).isSome ∧
            clearStreakToResolve ≤ turn.world.resolver.nextStreak turn.rule.id) w
          (runAlertEvaluation p env w) :=
        ((hbefore.spares.mono fun _ he hres =>
          absurd hres (Event.not_resolves_of_rule_ne he)).trans hstep.resolves).trans
          (hafter.spares.mono fun _ he hres => absurd hres (Event.not_resolves_of_rule_ne he))
      obtain ⟨hfired, hopened, hthreshold⟩ := hemits.drop e he hresolves
      refine ⟨?_, turn, hturn, hid, clear_of_mem_passTurns hturn hopened hfired⟩
      rw [← hinv.two_le_nextStreak_iff, ResolveTracker.nextStreak, ← hbefore.streak, ← hid]
      exact hthreshold

/-- An open row stays open through a turn that does not announce its end. -/
theorem RuleStep.openRows_kept {tp : TenantPass} {rule : AlertRule} {fired : Bool}
    (hstep : RuleStep env tp rule fired w w') {t : Uuid} {h : AlertHistoryRow}
    (hh : h ∈ w.openRows t r) (hr : rule.id = r) :
    h ∈ w'.openRows t r ∨ ∃ ids', .resolved tp.tenant.id r ids' ∈ w'.trace.drop w.trace.length := by
  subst hr
  cases hstep with
  | stillFiring => exact .inl (by rwa [World.openRows, fires_alertHistory])
  | throttled => exact .inl (by rwa [World.openRows, fires_alertHistory])
  | waiting => exact .inl (by rwa [World.openRows, counts_alertHistory])
  | quiet => exact .inl (by rwa [World.openRows, forgets_alertHistory])
  | raised _ _ _ hraised =>
      refine .inl ?_
      rw [World.openRows, hraised.alertHistory, fires_alertHistory, List.filter_append]
      exact List.mem_append_left _ hh
  | resolved _ _ _ hresolved =>
      refine .inr ⟨if (env.calls (.resolve rule.id)).fails then []
        else ((counts env tp rule w).openRows tp.tenant.id rule.id).map (·.id), ?_⟩
      rw [hresolved.trace, counts_trace, List.append_assoc, List.drop_left]
      exact List.mem_append_right _ List.mem_cons_self

/-- A pass that reads the rules of a tenant announces the end of an incident of an
enabled rule when it closes its row. -/
theorem exists_resolves_of_resolvedIn (hkeys : WellKeyed w) {rule : AlertRule}
    (hrule : rule ∈ w.alertRules) (henabled : rule.isEnabled = true)
    (hread : (env.calls (.listRules rule.tenantId)).fails = false) {h : AlertHistoryRow}
    (hh : h ∈ w.openRows rule.tenantId rule.id)
    (hresolved : ResolvedIn h (runAlertEvaluation p env w)) :
    ∃ e ∈ (runAlertEvaluation p env w).trace.drop w.trace.length, e.Resolves rule.id := by
  have hkeys' : WellKeyed (runAlertEvaluation p env w) := hkeys.evaluate env
  have hconfig : rule.config ∈ w.configs := List.mem_map_of_mem hrule
  have hnot : h ∉ (runAlertEvaluation p env w).openRows rule.tenantId rule.id :=
    fun hopen => not_resolvedIn_of_mem hkeys' hopen hresolved
  have hfocus : RulePass p env w rule.config (runAlertEvaluation p env w) :=
    runAlertEvaluation_focus hkeys hconfig
  cases hfocus with
  | aside haside =>
      have hsame : Aside rule.tenantId rule.id w (runAlertEvaluation p env w) := haside
      rw [hsame.openRows] at hnot
      exact absurd hh hnot
  | closed _ htid _ hat =>
      -- The rule was read, and it is enabled.
      exfalso
      rcases hat.gone with hfails | hgone
      · rw [htid] at hfails
        exact absurd (hfails.symm.trans hread) (by decide)
      · have hdisabled := hgone rule.config (by rw [hat.follows.configs]; exact hconfig) rfl htid.symm
        exact absurd (hdisabled.symm.trans henabled) (by decide)
  | @turned turn w₂ _ _ hq h₁ _ hstep h₂ =>
      have hid : turn.rule.config.id = rule.config.id := by rw [hq]
      have hbefore : Aside rule.tenantId rule.id w turn.world := h₁
      have hafter : Aside rule.tenantId rule.id w₂ (runAlertEvaluation p env w) := h₂
      rw [← hbefore.openRows] at hh
      rw [hafter.openRows] at hnot
      rcases hstep.openRows_kept hh hid with hkept | ⟨ids', hevent⟩
      · exact absurd hkept hnot
      · refine ⟨.resolved turn.pass.tenant.id rule.id ids', ?_, rfl⟩
        obtain ⟨first, hfirst, -⟩ := hbefore.spares
        obtain ⟨middle, hmiddle, -⟩ := hstep.trace
        obtain ⟨last, hlast, -⟩ := hafter.spares
        rw [hmiddle, List.drop_left] at hevent
        rw [hlast, hmiddle, hfirst, List.append_assoc, List.append_assoc, List.drop_left]
        exact List.mem_append_right _ (List.mem_append_left _ hevent)

end ClearTurns

/-! ### Runs -/

/-- The step `n` of a run is a pass that evaluates a rule clear. -/
def ClearPass (p : Platform) (w : World) (steps : List Step) (r : Uuid) (n : Nat) : Prop :=
  ∃ env turn, steps[n]? = some (.evaluate env) ∧
    turn ∈ passTurns p env (run p w (steps.take n)) ∧ turn.rule.id = r ∧ turn.Clear p env

/-- The passes from step `n` to step `m` do not get to a rule. -/
def MissedFrom (p : Platform) (w : World) (steps : List Step) (r : Uuid) (n m : Nat) : Prop :=
  ∀ k env, n ≤ k → k < m → steps[k]? = some (.evaluate env) →
    Misses env (run p w (steps.take k)) r

/-- Two clear passes in a row. -/
structure TwoClears (p : Platform) (w : World) (steps : List Step) (r : Uuid) (n₁ n₂ : Nat) : Prop where
  order : n₁ < n₂
  first : ClearPass p w steps r n₁
  second : ClearPass p w steps r n₂
  between : MissedFrom p w steps r (n₁ + 1) n₂

/-- The events of step `n` of a run. -/
def stepEvents (p : Platform) (w : World) (steps : List Step) (n : Nat) : List Event :=
  (run p w (steps.take (n + 1))).trace.drop (run p w (steps.take n)).trace.length

section Runs

variable {p : Platform} {w : World} {steps : List Step} {r : Uuid}

theorem run_take_succ {n : Nat} {s : Step} (hs : steps[n]? = some s) :
    run p w (steps.take (n + 1)) = step p (run p w (steps.take n)) s := by
  rw [List.take_add_one, hs, run, Runs.run_append]
  rfl

/-- A step that is not a pass keeps the streaks and announces no end. -/
theorem step_resolves_nothing {v : World} {s : Step} (hs : ∀ env, s ≠ .evaluate env) :
    (step p v s).resolver = v.resolver ∧ Emits (fun e => ¬ e.Resolves r) v (step p v s) := by
  rcases step_cases p v s with ⟨env, rfl⟩ | ⟨env, rfl⟩ | hadmin
  · exact absurd rfl (hs env)
  · refine ⟨?_, drainDeliveryRetries_emits p env v ?_⟩
    · exact drainDeliveryRetries_induction p env (P := fun v' => v'.resolver = v.resolver)
        (World.advance_resolver v _) (fun _ => World.advance_resolver v _)
        fun _ _ _ _ _ hv hretried => hretried.resolver.trans hv
    · intro _ _ job ds _ hretried d hd hresolves
      -- A drain sends retried fire notices only.
      obtain ⟨⟨tenant, -, hdelivers⟩, -⟩ := hretried.deliveries d hd
      obtain ⟨-, incident, hnotice⟩ := hresolves
      rw [hdelivers.notice] at hnotice
      cases hnotice
  · exact ⟨hadmin.resolver, .of_trace_eq hadmin.trace⟩

/-- A clear streak was left by a clear pass, and no pass since got to the rule. -/
theorem exists_clearPass_of_streak (hkeys : WellKeyed w) (htrace : w.trace = [])
    (hresolver : w.resolver = .new) {n : Nat} (hn : n ≤ steps.length)
    (hstreak : ((run p w (steps.take n)).resolver.clearStreaks r).isSome) :
    ∃ n₁ < n, ClearPass p w steps r n₁ ∧ MissedFrom p w steps r (n₁ + 1) n := by
  induction n with
  | zero =>
      rw [List.take_zero, run, Runs.run_nil, hresolver] at hstreak
      cases hstreak
  | succ n ih =>
      obtain ⟨hkeysN, hinv⟩ := streakInvariant_run p hkeys htrace hresolver (steps.take n)
      obtain ⟨s, hs⟩ : ∃ s, steps[n]? = some s := ⟨steps[n], List.getElem?_eq_getElem hn⟩
      rw [run_take_succ hs] at hstreak
      have hearlier : (∀ env, s = .evaluate env → Misses env (run p w (steps.take n)) r) →
          ((run p w (steps.take n)).resolver.clearStreaks r).isSome →
            ∃ n₁ < n + 1, ClearPass p w steps r n₁ ∧ MissedFrom p w steps r (n₁ + 1) (n + 1) := by
        intro hmissed hbefore
        obtain ⟨n₁, hlt, hclear, hbetween⟩ := ih (by omega) hbefore
        refine ⟨n₁, by omega, hclear, fun k env hk₁ hk₂ hk => ?_⟩
        rcases Nat.lt_succ_iff_lt_or_eq.1 hk₂ with hk₂ | rfl
        · exact hbetween k env hk₁ hk₂ hk
        · exact hmissed env (Option.some.inj (hs.symm.trans hk))
      by_cases hpass : ∃ env, s = .evaluate env
      · obtain ⟨env, rfl⟩ := hpass
        rcases streak_after_pass hkeysN hinv hstreak with ⟨hmisses, hbefore⟩ | ⟨turn, hturn, hid, hclear⟩
        · refine hearlier (fun env' henv => ?_) hbefore
          cases henv
          exact hmisses
        · exact ⟨n, by omega, ⟨env, turn, hs, hturn, hid, hclear⟩, fun k _ hk₁ hk₂ => by omega⟩
      · rw [not_exists] at hpass
        rw [(step_resolves_nothing (r := r) hpass).1] at hstreak
        exact hearlier (fun env henv => absurd henv (hpass env)) hstreak

end Runs

/-- **Resolving takes two clear passes.** In every process, a step that announces the
end of an incident is a pass that evaluates the rule clear, as did the last pass
before it that got to the rule; and so is a step that closes the open row of an
enabled rule, if it could read the rules of the tenant. -/
theorem resolved_after_two_clears (p : Platform) (w : World) (steps : List Step)
    (hkeys : WellKeyed w) (htrace : w.trace = []) (hresolver : w.resolver = .new) (n₂ : Nat) :
    (∀ r, ∀ e ∈ stepEvents p w steps n₂, e.Resolves r → ∃ n₁, TwoClears p w steps r n₁ n₂) ∧
    ∀ env, steps[n₂]? = some (.evaluate env) →
      ∀ rule ∈ (run p w (steps.take n₂)).alertRules, rule.isEnabled = true →
        (env.calls (.listRules rule.tenantId)).fails = false →
        ∀ h ∈ (run p w (steps.take n₂)).openRows rule.tenantId rule.id,
          ResolvedIn h (run p w (steps.take (n₂ + 1))) →
            ∃ n₁, TwoClears p w steps rule.id n₁ n₂ := by
  obtain ⟨hkeysN, hinv⟩ := streakInvariant_run p hkeys htrace hresolver (steps.take n₂)
  have hannounced : ∀ r, ∀ e ∈ stepEvents p w steps n₂, e.Resolves r →
      ∃ n₁, TwoClears p w steps r n₁ n₂ := by
    intro r e he hresolves
    cases hs : steps[n₂]? with
    | none =>
        -- Past the end of the run nothing happens.
        have hlong := List.getElem?_eq_none_iff.1 hs
        simp only [stepEvents, List.take_of_length_le hlong,
          List.take_of_length_le (Nat.le_succ_of_le hlong), List.drop_length] at he
        cases he
    | some s =>
        have hn : n₂ < steps.length := (List.getElem?_eq_some_iff.1 hs).1
        rw [stepEvents, run_take_succ hs] at he
        by_cases hpass : ∃ env, s = .evaluate env
        · obtain ⟨env, rfl⟩ := hpass
          obtain ⟨hstreak, turn, hturn, hid, hclear⟩ := resolves_in_pass hkeysN hinv he hresolves
          obtain ⟨n₁, hlt, hfirst, hbetween⟩ :=
            exists_clearPass_of_streak hkeys htrace hresolver (by omega) hstreak
          exact ⟨n₁, hlt, hfirst, ⟨env, turn, hs, hturn, hid, hclear⟩, hbetween⟩
        · rw [not_exists] at hpass
          exact absurd hresolves ((step_resolves_nothing hpass).2.drop e he)
  refine ⟨hannounced, fun env hs rule hrule henabled hread h hh hresolved => ?_⟩
  rw [run_take_succ hs] at hresolved
  obtain ⟨e, he, hresolves⟩ :=
    exists_resolves_of_resolvedIn hkeysN hrule henabled hread hh hresolved
  refine hannounced rule.id e ?_ hresolves
  rw [stepEvents, run_take_succ hs]
  exact he

/-- An incident that opens and is clear twice. -/
def clearTwiceRun : List Step := clearOnce ++ [.evaluate (samplePass calmReads 102)]

theorem resolved_after_two_clears_sample :
    ∃ n₁, TwoClears samplePlatform (sampleWorld (sampleRule [] 300)) clearTwiceRun 7 n₁ 2 := by
  have hevent : Event.resolved 1 7 [100] ∈
      stepEvents samplePlatform (sampleWorld (sampleRule [] 300)) clearTwiceRun 2 := by
    decide +kernel
  exact (resolved_after_two_clears samplePlatform (sampleWorld (sampleRule [] 300)) clearTwiceRun
    (wellKeyed_sampleWorld _) rfl rfl 2).1 7 _ hevent rfl

/-- A clear pass in which no read of the rule's metric failed. -/
def EvidentPass (p : Platform) (w : World) (steps : List Step) (r : Uuid) (n : Nat) : Prop :=
  ∃ env turn, steps[n]? = some (.evaluate env) ∧
    turn ∈ passTurns p env (run p w (steps.take n)) ∧ turn.rule.id = r ∧ turn.Clear p env ∧
      ∀ read ∈ dependsOn turn.rule.condition, read ∉ (turn.served p env).failedReads

/-- Stores of a tenant whose overview cannot be read. -/
def blindReads : StoreReads :=
  { calmReads with overview := fun _ _ _ => .error "clickhouse: timeout" }

/-- An incident that opens and is then not seen twice. -/
def blindRun : List Step :=
  [.evaluate (samplePass troubledReads 100), .evaluate (samplePass blindReads 101),
    .evaluate (samplePass blindReads 102)]

/-- Two passes that read nothing resolve the incident and send the notice. -/
theorem resolved_without_evidence :
    ¬ ∀ (p : Platform) (w : World) (steps : List Step), WellKeyed w → w.trace = [] →
      w.resolver = .new → ∀ n₂ r, ∀ e ∈ stepEvents p w steps n₂, e.Resolves r →
        ∃ n₁ < n₂, EvidentPass p w steps r n₁ ∧ EvidentPass p w steps r n₂ := by
  intro hevidence
  let w := sampleWorld (sampleRule [sampleHook] 300)
  have hnotice : ∃ d ∈ (stepEvents samplePlatform w blindRun 2).filterMap Event.delivery?,
      d.alert.ruleId = 7 ∧ d.notice = .resolved [100] ∧ d.success = true := by
    decide +kernel
  obtain ⟨d, hd, hrule, hresolved, -⟩ := hnotice
  obtain ⟨n₁, -, -, env, turn, hs, hturn, -, -, hread⟩ :=
    hevidence samplePlatform w blindRun (wellKeyed_sampleWorld _) rfl rfl 2 7 (.delivery d)
      (mem_deliveries.1 hd) ⟨hrule, _, hresolved⟩
  have henv : env = samplePass blindReads 102 := by
    cases hs
    rfl
  subst henv
  have hblind : ∀ turn ∈ passTurns samplePlatform (samplePass blindReads 102)
      (run samplePlatform w (blindRun.take 2)),
      ∃ read ∈ dependsOn turn.rule.condition,
        read ∈ (turn.served samplePlatform (samplePass blindReads 102)).failedReads := by
    decide +kernel
  obtain ⟨read, hneeded, hfailed⟩ := hblind turn hturn
  exact hread read hneeded hfailed

end Feloxi.Alerting
