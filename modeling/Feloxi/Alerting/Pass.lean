import Feloxi.Alerting.Steps

/-!
# Feloxi.Alerting.Pass

The induction rule of an evaluation pass (`runAlertEvaluation_induction`): a
property holds after a pass if it holds before and every wait, every silent close
and every outcome of a rule preserves it.

What makes the rule usable is what it hands to those three cases. The pass reads
the open incidents of a tenant once and then works through the rules; since a
rule's evaluation leaves the rows of every other rule alone and ids are distinct,
what was read about a rule is still true when its turn comes (`AtRule`).
-/

namespace Feloxi.Alerting

/-! ### Reading the open incidents -/

/-- A rule has a start time exactly when it has an open row. -/
theorem World.firstFiredAt_eq_none_iff {w : World} {t r : Uuid} :
    w.firstFiredAt t r = none ↔ w.openRows t r = [] := by
  rw [World.firstFiredAt, List.min?_eq_none_iff, List.map_eq_nil_iff]

/-- Looking up a key in a list of tagged results. -/
theorem find?_filterMap_tag {α β : Type*} [DecidableEq α] (f : α → Option β) (keys : List α) (k : α) :
    ((keys.filterMap fun x => (f x).map (Prod.mk x)).find? fun e => e.1 == k).map Prod.snd =
      if k ∈ keys then f k else none := by
  induction keys with
  | nil => rfl
  | cons x rest ih =>
      cases hf : f x with
      | none =>
          rw [List.filterMap_cons_none (by rw [hf]; rfl), ih]
          by_cases hx : k = x
          · simp [hx, hf]
          · simp [hx]
      | some y =>
          rw [List.filterMap_cons_some (by rw [hf]; rfl)]
          by_cases hx : k = x
          · simp [hx, hf]
          · rw [List.find?_cons_of_neg (by simpa using Ne.symm hx), ih]
            simp [hx]

/-- The loaded map answers with the start of a rule's incident. -/
theorem World.find?_listOpenAlerts (w : World) (t r : Uuid) :
    ((w.listOpenAlerts t).find? fun o => o.1 == r).map Prod.snd = w.firstFiredAt t r := by
  unfold World.listOpenAlerts
  rw [find?_filterMap_tag]
  split
  · rfl
  · rename_i hmem
    symm
    rw [World.firstFiredAt_eq_none_iff, World.openRows, List.filter_eq_nil_iff]
    intro h hh hopen
    simp only [AlertHistoryRow.isOpenFor, Bool.and_eq_true, beq_iff_eq] at hopen
    apply hmem
    rw [List.mem_dedup, List.mem_map]
    exact ⟨h, List.mem_filter.2 ⟨hh, by simp [hopen.1.1, hopen.2]⟩, hopen.1.2⟩

/-- The rules of the loaded map have open rows. -/
theorem World.openRows_ne_nil_of_mem {w : World} {t r : Uuid}
    (h : r ∈ (w.listOpenAlerts t).map Prod.fst) : w.openRows t r ≠ [] := by
  simp only [World.listOpenAlerts, List.mem_map, List.mem_filterMap, Option.map_eq_some_iff] at h
  obtain ⟨-, ⟨r', -, since, hsince, rfl⟩, rfl⟩ := h
  intro hnil
  rw [World.firstFiredAt_eq_none_iff.2 hnil] at hsince
  cases hsince

theorem World.listOpenAlerts_nodup (w : World) (t : Uuid) :
    ((w.listOpenAlerts t).map Prod.fst).Nodup := by
  have htag : ∀ keys : List Uuid, keys.Nodup →
      ((keys.filterMap fun r => (w.firstFiredAt t r).map (Prod.mk r)).map Prod.fst).Nodup := by
    intro keys hnodup
    refine List.Nodup.sublist ?_ hnodup
    induction keys with
    | nil => simp
    | cons r rest ih =>
        have hrest := ih (List.nodup_cons.1 hnodup).2
        cases hf : w.firstFiredAt t r with
        | none => simpa [hf] using hrest.cons r
        | some since => simpa [hf] using hrest
  exact htag _ (List.nodup_dedup _)

/-! ### Silent closes -/

/-- An incident closed without a notice. -/
structure SilentlyClosed (env : PassEnv) (tenantId ruleId : Uuid) (w w' : World) : Prop where
  waits : Waits (fun c => c = env.calls (.silentClose tenantId ruleId)) w w'
  alertHistory : ∃ t, w.now ≤ t ∧ w'.alertHistory = closedHistory
    (env.calls (.silentClose tenantId ruleId)).fails t tenantId ruleId w.alertHistory
  historyIds : w'.historyIds = w.historyIds
  deliveryRetry : w'.deliveryRetry = w.deliveryRetry
  throttle : w'.throttle = w.throttle
  resolver : w'.resolver = w.resolver.forget ruleId
  trace : w'.trace = w.trace ++ [.silentClose tenantId ruleId
      (if (env.calls (.silentClose tenantId ruleId)).fails then []
        else (w.openRows tenantId ruleId).map (·.id)), .forgot ruleId]

theorem silentClose_spec (env : PassEnv) (tenantId : Uuid) (w : World) (ruleId : Uuid) :
    SilentlyClosed env tenantId ruleId w (silentClose env tenantId w ruleId) := by
  have hwaited : Waits (fun c => c = env.calls (.silentClose tenantId ruleId)) w
      (w.advance (env.calls (.silentClose tenantId ruleId))) :=
    Waits.advance (C := fun c => c = env.calls (.silentClose tenantId ruleId)) rfl w
  unfold silentClose
  cases hfails : (env.calls (.silentClose tenantId ruleId)).fails with
  | true =>
      simp only [hfails, if_true]
      exact {
        waits := hwaited.then_same rfl rfl rfl rfl
        alertHistory := ⟨w.now, Nat.le_refl _, by simp [World.emit, closedHistory, hfails]⟩
        historyIds := by simp [World.emit]
        deliveryRetry := by simp [World.emit]
        throttle := by simp [World.emit]
        resolver := by simp [World.emit]
        trace := by simp [World.emit, hfails] }
  | false =>
      simp only [hfails, Bool.false_eq_true, if_false]
      exact {
        waits := hwaited.then_same rfl rfl rfl rfl
        alertHistory := ⟨(w.advance (env.calls (.silentClose tenantId ruleId))).now,
          World.now_le_advance w _,
          by simp [World.emit, closedHistory, hfails, World.resolveAlertsForRule]⟩
        historyIds := by simp [World.emit, World.resolveAlertsForRule]
        deliveryRetry := by simp [World.emit, World.resolveAlertsForRule]
        throttle := by simp [World.emit, World.resolveAlertsForRule]
        resolver := by simp [World.emit, World.resolveAlertsForRule]
        trace := by simp [World.emit, hfails, World.resolveAlertsForRule, World.openRows] }

theorem SilentlyClosed.rows_of_ne {env : PassEnv} {tenantId ruleId : Uuid} {w w' : World}
    (h : SilentlyClosed env tenantId ruleId w w') {t r : Uuid} (hne : ¬(t = tenantId ∧ r = ruleId)) :
    w'.rows t r = w.rows t r := by
  obtain ⟨time, -, hhistory⟩ := h.alertHistory
  simp only [World.rows, hhistory, closedHistory_filter_of_ne hne]

theorem SilentlyClosed.openRows_of_ne {env : PassEnv} {tenantId ruleId : Uuid} {w w' : World}
    (h : SilentlyClosed env tenantId ruleId w w') {t r : Uuid} (hne : ¬(t = tenantId ∧ r = ruleId)) :
    w'.openRows t r = w.openRows t r := by
  rw [World.openRows_eq, World.openRows_eq, h.rows_of_ne hne]

/-! ### What a pass relies on -/

/-- Unique ids, and history rows that belong to a rule of their tenant. -/
structure WellKeyed (w : World) : Prop where
  tenants : (w.tenants.map (·.id)).Nodup
  rules : (w.configs.map (·.id)).Nodup
  rows : (w.alertHistory.map (·.id)).Nodup
  history : ∀ h ∈ w.alertHistory, ∃ q ∈ w.configs, q.id = h.ruleId ∧ q.tenantId = h.tenantId
  historyIds : ∀ h ∈ w.alertHistory, h.id ∈ w.historyIds
  silences : ∀ s ∈ w.alertSilences, s.startsAt ≤ w.now

/-- A rule is determined by its id. -/
theorem WellKeyed.unique {w : World} (h : WellKeyed w) {q q' : AlertRule} (hq : q ∈ w.configs)
    (hq' : q' ∈ w.configs) (hid : q.id = q'.id) : q = q' :=
  List.inj_on_of_nodup_map h.rules hq hq' hid

/-! ### Later states of a pass -/

/-- `w'` is a later state than `w`, with the same tenants and configuration. -/
structure Follows (w w' : World) : Prop where
  tenants : w'.tenants = w.tenants
  configs : w'.configs = w.configs
  now_le : w.now ≤ w'.now
  trace : w.trace <+: w'.trace

namespace Follows

variable {C : Call → Prop} {w₁ w₂ w₃ : World}

theorem refl (w : World) : Follows w w := ⟨rfl, rfl, Nat.le_refl _, List.prefix_refl _⟩

theorem trans (h : Follows w₁ w₂) (h' : Follows w₂ w₃) : Follows w₁ w₃ :=
  ⟨h'.tenants.trans h.tenants, h'.configs.trans h.configs, Nat.le_trans h.now_le h'.now_le,
    h.trace.trans h'.trace⟩

theorem of_waits (h : Waits C w₁ w₂) {events : List Event}
    (htrace : w₂.trace = w₁.trace ++ events) : Follows w₁ w₂ :=
  ⟨h.tenants, h.configs, h.now_le, ⟨events, htrace.symm⟩⟩

theorem advance (w : World) (c : Call) : Follows w (w.advance c) :=
  of_waits (Waits.advance (C := fun _ => True) trivial w)
    (show (w.advance c).trace = w.trace ++ [] by simp)

end Follows

/-- Nothing is said about a rule between two states. -/
abbrev Spares (ruleId : Uuid) : World → World → Prop := Emits fun e => e.rule ≠ ruleId

theorem SilentlyClosed.spares {env : PassEnv} {tenantId ruleId r : Uuid} {w w' : World}
    (h : SilentlyClosed env tenantId ruleId w w') (hne : r ≠ ruleId) : Spares r w w' := by
  refine ⟨_, h.trace, ?_⟩
  simp [Event.rule, hne.symm]

theorem RuleStep.spares {env : PassEnv} {tp : TenantPass} {rule : AlertRule} {fired : Bool}
    {r : Uuid} {w w' : World} (h : RuleStep env tp rule fired w w') (hne : r ≠ rule.id) :
    Spares r w w' := by
  obtain ⟨events, htrace, hrule⟩ := h.events
  exact ⟨events, htrace, fun e he heq => hne (heq ▸ (hrule e he).1)⟩

theorem SilentlyClosed.follows {env : PassEnv} {tenantId ruleId : Uuid} {w w' : World}
    (h : SilentlyClosed env tenantId ruleId w w') : Follows w w' :=
  .of_waits h.waits h.trace

theorem RuleStep.follows {env : PassEnv} {tp : TenantPass} {rule : AlertRule} {fired : Bool}
    {w w' : World} (h : RuleStep env tp rule fired w w') : Follows w w' := by
  obtain ⟨events, htrace, -⟩ := h.events
  exact .of_waits h.waits htrace

/-! ### When a rule's turn comes -/

/-- A rule's turn in a pass: what is loaded, and the state it is met in. -/
structure Turn where
  pass : TenantPass
  rule : AlertRule
  world : World
  builder : AlertContextBuilder

namespace Turn

/-- The value of the rule's condition. -/
def fires (p : Platform) (env : PassEnv) (turn : Turn) : Bool :=
  evaluateCondition turn.rule.condition
    (ruleContext p env turn.pass (turn.world, turn.builder) turn.rule).1

/-- Whether the rule is inside its cooldown when its condition is known. -/
def throttled (env : PassEnv) (turn : Turn) : Bool :=
  turn.world.throttle.isThrottled (turn.world.advance (env.calls (.context turn.rule.id))).now
    turn.rule.id (cooldown turn.rule.cooldownSecs)

/-- Whether the turn opens an incident. -/
def raises (p : Platform) (env : PassEnv) (turn : Turn) : Bool :=
  turn.fires p env && (turn.pass.openSince turn.rule.id).isNone && !turn.throttled env

/-- Whether the turn resolves an incident. -/
def resolves (p : Platform) (env : PassEnv) (turn : Turn) : Bool :=
  !turn.fires p env && (turn.pass.openSince turn.rule.id).isSome &&
    decide (clearStreakToResolve ≤ turn.world.resolver.nextStreak turn.rule.id)

end Turn

/-- The turns of a tenant whose own turn comes in `w`. -/
def tenantTurns (p : Platform) (env : PassEnv) (w : World) (tenant : Tenant) : List Turn :=
  match loadTenantPass env w tenant with
  | (none, _) => []
  | (some tp, w) => (Runs.visits (evaluateRule p env tp) (w, .new) tp.rules).map fun v =>
    ⟨tp, v.2, v.1.1, v.1.2⟩

/-- The turns of a pass that begins in `w`. -/
def passTurns (p : Platform) (env : PassEnv) (w : World) : List Turn :=
  let w := w.advance (env.calls .listTenants)
  if (env.calls .listTenants).fails then []
  else (Runs.visits (evaluateTenant p env) w (w.listTenants tenantLimit)).flatMap fun v =>
    tenantTurns p env v.1 v.2

/-- The tenants a pass that begins in `w` takes. -/
def passTenants (env : PassEnv) (w : World) : List Tenant :=
  if (env.calls .listTenants).fails then []
  else (w.advance (env.calls .listTenants)).listTenants tenantLimit

/-- A call made while evaluating a rule of a tenant. -/
def TenantCall (env : PassEnv) (tenantId : Uuid) (configs : List AlertRule) (c : Call) : Prop :=
  ∃ q ∈ configs, q.tenantId = tenantId ∧ RuleCall env q.id c

/-- What holds of a loaded rule when its turn comes, in a pass that began in
`start`. -/
structure AtRule (env : PassEnv) (start : World) (tp : TenantPass) (rule : AlertRule) (w : World) :
    Prop where
  follows : Follows start w
  /-- It is the rule's first turn. -/
  spared : Spares rule.id start w
  listed : (env.calls (.listRules tp.tenant.id)).fails = false
  configured : rule.config ∈ w.configs
  ofTenant : rule.tenantId = tp.tenant.id
  enabled : rule.isEnabled = true
  untouched : w.openRows tp.tenant.id rule.id = start.openRows tp.tenant.id rule.id
  openSince : tp.openSince rule.id =
    if (env.calls (.listOpen tp.tenant.id)).fails then none else w.firstFiredAt tp.tenant.id rule.id
  silences : ∃ loaded, tp.silences = loadSilences env tp.tenant.id loaded ∧
    Waits (TenantCall env tp.tenant.id w.configs) loaded w

/-- What holds of a rule with an open incident that the loaded list lacks. -/
structure AtGone (env : PassEnv) (start : World) (tenant : Tenant) (ruleId : Uuid) (w : World) :
    Prop where
  follows : Follows start w
  spared : Spares ruleId start w
  listed : (env.calls (.listOpen tenant.id)).fails = false
  opened : w.openRows tenant.id ruleId ≠ []
  untouched : w.openRows tenant.id ruleId = start.openRows tenant.id ruleId
  gone : (env.calls (.listRules tenant.id)).fails = true ∨
    ∀ q ∈ w.configs, q.id = ruleId → q.tenantId = tenant.id → q.isEnabled = false

/-- What holds of a tenant when its turn comes. -/
structure AtTenant (start : World) (tenant : Tenant) (w : World) : Prop where
  follows : Follows start w
  rules : (w.configs.map (·.id)).Nodup
  owned : ∀ r, start.openRows tenant.id r ≠ [] →
    ∃ q ∈ start.configs, q.id = r ∧ q.tenantId = tenant.id
  untouched : ∀ r, w.openRows tenant.id r = start.openRows tenant.id r
  spared : ∀ q ∈ start.configs, q.tenantId = tenant.id → Spares q.id start w

/-- A call of the pass. -/
def PassCall (env : PassEnv) (c : Call) : Prop := ∃ pt, c = env.calls pt

theorem AtRule.of_waits {env : PassEnv} {start : World} {tp : TenantPass} {rule : AlertRule}
    {w w' : World} (h : AtRule env start tp rule w) (hfollows : Follows w w')
    (hspares : Spares rule.id w w')
    (hw : Waits (TenantCall env tp.tenant.id w.configs) w w')
    (hrows : w'.openRows tp.tenant.id rule.id = w.openRows tp.tenant.id rule.id) :
    AtRule env start tp rule w' := by
  obtain ⟨loaded, hloaded, hwaits⟩ := h.silences
  exact {
    follows := h.follows.trans hfollows
    spared := h.spared.trans hspares
    listed := h.listed
    configured := by rw [hw.configs]; exact h.configured
    ofTenant := h.ofTenant
    enabled := h.enabled
    untouched := hrows.trans h.untouched
    openSince := by rw [h.openSince, World.firstFiredAt, World.firstFiredAt, hrows]
    silences := ⟨loaded, hloaded, by rw [hw.configs]; exact hwaits.trans hw⟩ }

/-- The rule of a turn is the only one with its id. -/
theorem AtRule.eq_of_id {env : PassEnv} {start w : World} {tp : TenantPass} {rule : AlertRule}
    (hkeys : WellKeyed w) (hat : AtRule env start tp rule w) {q : AlertRule} (hq : q ∈ w.configs)
    (hid : q.id = rule.id) : q = rule.config :=
  hkeys.unique hq hat.configured hid

/-- A rule that reads as having something open has something open. -/
theorem AtRule.openRows_ne_nil {env : PassEnv} {start w : World} {tp : TenantPass}
    {rule : AlertRule} (h : AtRule env start tp rule w) {since : Instant}
    (hsome : tp.openSince rule.id = some since) : w.openRows tp.tenant.id rule.id ≠ [] := by
  intro hnil
  have hsince := h.openSince
  rw [hsome, World.firstFiredAt_eq_none_iff.2 hnil, ite_self] at hsince
  cases hsince

/-- A rule that reads as having nothing open has nothing open, unless the read
failed. -/
theorem AtRule.openRows_eq_nil {env : PassEnv} {start w : World} {tp : TenantPass}
    {rule : AlertRule} (h : AtRule env start tp rule w) (hnone : tp.openSince rule.id = none)
    (hread : (env.calls (.listOpen tp.tenant.id)).fails = false) :
    w.openRows tp.tenant.id rule.id = [] := by
  have hsince := h.openSince
  rw [hnone, hread] at hsince
  simp only [Bool.false_eq_true, if_false] at hsince
  exact World.firstFiredAt_eq_none_iff.1 hsince.symm

theorem AtGone.of_follows {env : PassEnv} {start : World} {tenant : Tenant} {ruleId : Uuid}
    {w w' : World} (h : AtGone env start tenant ruleId w) (hw : Follows w w')
    (hspares : Spares ruleId w w')
    (hrows : w'.openRows tenant.id ruleId = w.openRows tenant.id ruleId) :
    AtGone env start tenant ruleId w' where
  follows := h.follows.trans hw
  spared := h.spared.trans hspares
  listed := h.listed
  opened := by rw [hrows]; exact h.opened
  untouched := hrows.trans h.untouched
  gone := by rw [hw.configs]; exact h.gone

/-- The ids of loaded rules are distinct. -/
theorem loadRules_nodup {env : PassEnv} {w : World} (hnodup : (w.configs.map (·.id)).Nodup)
    (tenantId : Uuid) : ((loadRules env tenantId w).map (·.id)).Nodup := by
  have hids : (w.alertRules.map (·.id)).Nodup := by
    simpa [World.configs, List.map_map, Function.comp_def, AlertRule.config] using hnodup
  unfold loadRules
  split
  · simp
  · exact hids.sublist (List.filter_sublist.map _)

/-! ### The induction rule -/

/-- What the induction rule of one tenant asks of a property. -/
structure TenantInvariant (p : Platform) (env : PassEnv) (start : World) (turns : List Turn)
    (tenant : Tenant) (P : World → Prop) : Prop where
  wait : ∀ w pt, P w → P (w.advance (env.calls pt))
  gone : ∀ w w' ruleId, P w → AtGone env start tenant ruleId w →
    SilentlyClosed env tenant.id ruleId w w' → P w'
  rule : ∀ turn ∈ turns, ∀ w', turn.pass.tenant = tenant → P turn.world →
    AtRule env start turn.pass turn.rule turn.world →
    RuleStep env turn.pass turn.rule (turn.fires p env) turn.world w' → P w'

/-- What the induction rule of a pass from `start` asks of a property. -/
structure PassInvariant (p : Platform) (env : PassEnv) (start : World) (P : World → Prop) : Prop where
  wait : ∀ w pt, P w → P (w.advance (env.calls pt))
  gone : ∀ tenant ∈ passTenants env start, ∀ w w' ruleId, P w →
    AtGone env start tenant ruleId w → SilentlyClosed env tenant.id ruleId w w' → P w'
  rule : ∀ turn ∈ passTurns p env start, ∀ w', P turn.world →
    AtRule env start turn.pass turn.rule turn.world →
    RuleStep env turn.pass turn.rule (turn.fires p env) turn.world w' → P w'
  cleanup : ∀ w, P w → P { w with throttle := w.throttle.cleanup w.now (fromSecs maxCooldownSecs) }

theorem PassInvariant.tenant {p : Platform} {env : PassEnv} {start : World} {P : World → Prop}
    (hP : PassInvariant p env start P) {tenant : Tenant} (htenant : tenant ∈ passTenants env start) :
    TenantInvariant p env start (passTurns p env start) tenant P where
  wait := hP.wait
  gone w w' ruleId := hP.gone tenant htenant w w' ruleId
  rule turn hturn w' _ := hP.rule turn hturn w'

section Induction

variable {p : Platform} {env : PassEnv} {start : World} {turns : List Turn} {tenant : Tenant}
  {P : World → Prop}

/-- The incidents to close, one after the other. -/
theorem silentCloses_induction (hP : TenantInvariant p env start turns tenant P) {gone : List Uuid}
    {w : World} (hgone : ∀ r ∈ gone, AtGone env start tenant r w) (hnodup : gone.Nodup) (hw : P w) :
    P (gone.foldl (silentClose env tenant.id) w) ∧
      Waits (PassCall env) w (gone.foldl (silentClose env tenant.id) w) ∧
      Follows w (gone.foldl (silentClose env tenant.id) w) ∧
      ∀ r ∉ gone, Spares r w (gone.foldl (silentClose env tenant.id) w) ∧
        (gone.foldl (silentClose env tenant.id) w).openRows tenant.id r =
          w.openRows tenant.id r := by
  have hwaits : ∀ (rs : List Uuid), Waits (PassCall env) w (rs.foldl (silentClose env tenant.id) w) :=
    fun rs => Runs.foldl_rel (Waits _) (Waits.refl _) Waits.trans
      (fun v r _ => (silentClose_spec env tenant.id v r).waits.mono fun c hc => ⟨_, hc⟩) w
  have hfollows : ∀ (rs : List Uuid), Follows w (rs.foldl (silentClose env tenant.id) w) :=
    fun rs => Runs.foldl_rel Follows Follows.refl Follows.trans
      (fun v r _ => (silentClose_spec env tenant.id v r).follows) w
  have hspares : ∀ (rs : List Uuid) (r : Uuid), r ∉ rs →
      Spares r w (rs.foldl (silentClose env tenant.id) w) := by
    intro rs r hr
    refine Runs.foldl_rel (Spares r) (Emits.refl _) Emits.trans (fun v r' hr' => ?_) w
    exact (silentClose_spec env tenant.id v r').spares fun h => hr (h ▸ hr')
  have hrows : ∀ (rs : List Uuid) (r : Uuid), r ∉ rs →
      (rs.foldl (silentClose env tenant.id) w).openRows tenant.id r = w.openRows tenant.id r := by
    intro rs r hr
    refine Runs.foldl_frame (fun v => v.openRows tenant.id r) (fun v r' hr' => ?_) w
    exact (silentClose_spec env tenant.id v r').openRows_of_ne fun h => hr (h.2 ▸ hr')
  refine ⟨?_, hwaits gone, hfollows gone, fun r hr => ⟨hspares gone r hr, hrows gone r hr⟩⟩
  refine Runs.foldl_prefix_invariant P hw ?_
  intro before r after hsplit hbefore
  have hr : r ∉ before := by
    rw [hsplit, List.nodup_append] at hnodup
    exact fun hmem => hnodup.2.2 r hmem r List.mem_cons_self rfl
  have hat : AtGone env start tenant r w := hgone r (by rw [hsplit]; simp)
  exact hP.gone _ _ r hbefore
    (hat.of_follows (hfollows before) (hspares before r hr) (hrows before r hr))
    (silentClose_spec env tenant.id _ r)

/-- The rules of a tenant, one after the other. -/
theorem rules_induction (hP : TenantInvariant p env start turns tenant P) {tp : TenantPass}
    (htp : tp.tenant = tenant) {w : World} {builder : AlertContextBuilder}
    (hat : ∀ q ∈ tp.rules, AtRule env start tp q w) (hnodup : (tp.rules.map (·.id)).Nodup)
    (hturns : ∀ v ∈ Runs.visits (evaluateRule p env tp) (w, builder) tp.rules,
      Turn.mk tp v.2 v.1.1 v.1.2 ∈ turns) (hw : P w) :
    P (tp.rules.foldl (evaluateRule p env tp) (w, builder)).1 := by
  -- Relations between the worlds of two accumulators, kept by every rule of a part.
  have hrel : ∀ (rel : World → World → Prop), (∀ v, rel v v) →
      (∀ {a b c}, rel a b → rel b c → rel a c) → ∀ qs : List AlertRule,
      (∀ acc, ∀ q ∈ qs, rel acc.1 (evaluateRule p env tp acc q).1) →
        rel w (qs.foldl (evaluateRule p env tp) (w, builder)).1 := by
    intro rel hrefl htrans qs hstep
    let rel' : World × AlertContextBuilder → World × AlertContextBuilder → Prop := fun a b =>
      rel a.1 b.1
    have hend : rel' (w, builder) (qs.foldl (evaluateRule p env tp) (w, builder)) :=
      Runs.foldl_rel rel' (fun a => hrefl a.1) (fun hab hbc => htrans hab hbc) hstep _
    exact hend
  refine Runs.foldl_prefix_invariant (fun acc : World × AlertContextBuilder => P acc.1) hw ?_
  intro before q after hsplit hbefore
  let acc := before.foldl (evaluateRule p env tp) (w, builder)
  have hbefore_ne : ∀ q' ∈ before, q.id ≠ q'.id := by
    intro q' hq' heq
    rw [hsplit, List.map_append, List.map_cons, List.nodup_append] at hnodup
    exact hnodup.2.2 q'.id (List.mem_map_of_mem hq') q.id List.mem_cons_self heq.symm
  have hwaits : Waits (TenantCall env tp.tenant.id w.configs) w acc.1 := by
    refine hrel _ (Waits.refl _) Waits.trans before fun a q' hq' => ?_
    have hat' := hat q' (by rw [hsplit]; exact List.mem_append_left _ hq')
    refine (evaluateRule_inv p env tp q' a).waits.mono fun c hc => ?_
    exact ⟨q'.config, hat'.configured, hat'.ofTenant, hc⟩
  have hfollows : Follows w acc.1 :=
    hrel _ Follows.refl Follows.trans before fun a q' _ => (evaluateRule_inv p env tp q' a).follows
  have hspares : Spares q.id w acc.1 := by
    refine hrel _ (Emits.refl _) Emits.trans before fun a q' hq' => ?_
    exact (evaluateRule_inv p env tp q' a).spares (hbefore_ne q' hq')
  have hrows : acc.1.openRows tp.tenant.id q.id = w.openRows tp.tenant.id q.id := by
    refine hrel (fun v v' => v'.openRows tp.tenant.id q.id = v.openRows tp.tenant.id q.id)
      (fun _ => rfl) (fun hab hbc => hbc.trans hab) before fun a q' hq' => ?_
    exact (evaluateRule_inv p env tp q' a).openRows_of_ne fun h => hbefore_ne q' hq' h.2
  have hq : AtRule env start tp q w := hat q (by rw [hsplit]; simp)
  have hvisit : (acc, q) ∈ Runs.visits (evaluateRule p env tp) (w, builder) tp.rules := by
    rw [hsplit]
    exact Runs.mem_visits _ _ before q after
  exact hP.rule ⟨tp, q, acc.1, acc.2⟩ (hturns _ hvisit) _ htp hbefore
    (hq.of_waits hfollows hspares hwaits hrows) (evaluateRule_inv p env tp q acc)

/-- A gone rule that the pass is about to close. -/
theorem atGone_of_mem {wR wO : World} (hfollows : Follows start wO)
    (hrules : wO.alertRules = wR.alertRules) {r : Uuid} (hspared : Spares r start wO)
    (huntouched : wO.openRows tenant.id r = start.openRows tenant.id r)
    (hr : r ∈ goneRules (loadRules env tenant.id wR) (loadOpenAlerts env tenant.id wO)) :
    AtGone env start tenant r wO := by
  obtain ⟨hopen, hgone⟩ := List.mem_filter.1 hr
  have hlisted : (env.calls (.listOpen tenant.id)).fails = false := by
    by_contra hfails
    rw [loadOpenAlerts, if_pos (by simpa using hfails)] at hopen
    simp at hopen
  rw [loadOpenAlerts, if_neg (by simp [hlisted])] at hopen
  refine ⟨hfollows, hspared, hlisted, World.openRows_ne_nil_of_mem hopen, huntouched, ?_⟩
  by_cases hread : (env.calls (.listRules tenant.id)).fails = true
  · exact .inl hread
  · refine .inr ?_
    intro q hq hid htenant
    obtain ⟨q₀, hq₀, rfl⟩ := List.mem_map.1 hq
    by_contra henabled
    have hmem : q₀ ∈ loadRules env tenant.id wR := by
      rw [loadRules, if_neg hread]
      refine List.mem_filter.2 ⟨hrules ▸ hq₀, ?_⟩
      have htenant' : q₀.tenantId = tenant.id := htenant
      have henabled' : q₀.isEnabled = true := by simpa [AlertRule.config] using henabled
      simp [htenant', henabled']
    have hnot : r ∉ (loadRules env tenant.id wR).map (·.id) := by simpa using hgone
    exact hnot (List.mem_map.2 ⟨q₀, hmem, hid⟩)

/-- A loaded rule when the silences have just been loaded. -/
theorem atRule_of_mem {rules : List AlertRule} {integrations : List Integration} {wR wO wS : World}
    {C C' : Call → Prop} (hfollows : Follows start wS) (hRO : Waits C wR wO)
    (hOS : Waits C' wO wS) {q : AlertRule} (hq : q ∈ loadRules env tenant.id wR)
    (hspared : Spares q.id start wS)
    (hrows : wS.openRows tenant.id q.id = wO.openRows tenant.id q.id)
    (huntouched : wO.openRows tenant.id q.id = start.openRows tenant.id q.id) :
    AtRule env start ⟨tenant, rules, loadOpenAlerts env tenant.id wO, integrations,
      loadSilences env tenant.id wS⟩ q wS := by
  have hread : (env.calls (.listRules tenant.id)).fails = false := by
    by_contra hfails
    rw [loadRules, if_pos (by simpa using hfails)] at hq
    simp at hq
  rw [loadRules, if_neg (by simp [hread])] at hq
  obtain ⟨hmem, hfilter⟩ := List.mem_filter.1 hq
  simp only [Bool.and_eq_true, beq_iff_eq] at hfilter
  have hconfigs : wS.configs = wR.configs := hOS.configs.trans hRO.configs
  exact {
    follows := hfollows
    spared := hspared
    listed := hread
    configured := by rw [hconfigs]; exact List.mem_map_of_mem hmem
    ofTenant := hfilter.1
    enabled := hfilter.2
    untouched := hrows.trans huntouched
    openSince := by
      simp only [TenantPass.openSince, loadOpenAlerts]
      cases (env.calls (.listOpen tenant.id)).fails with
      | true => rfl
      | false =>
          simp only [Bool.false_eq_true, if_false, World.find?_listOpenAlerts]
          rw [World.firstFiredAt, World.firstFiredAt, hrows]
    silences := ⟨wS, rfl, .refl _ _⟩ }

/-- What loading a tenant leads to. -/
theorem loadTenantPass_induction (hP : TenantInvariant p env start turns tenant P) {w : World}
    (htenant : AtTenant start tenant w) (hw : P w) {r : Option TenantPass × World}
    (hr : loadTenantPass env w tenant = r) :
    P r.2 ∧ ∀ tp ∈ r.1, tp.tenant = tenant ∧ (tp.rules.map (·.id)).Nodup ∧
      ∀ q ∈ tp.rules, AtRule env start tp q r.2 := by
  subst hr
  let wR := w.advance (env.calls (.listRules tenant.id))
  let wO := wR.advance (env.calls (.listOpen tenant.id))
  let rules := loadRules env tenant.id wR
  let gone := goneRules rules (loadOpenAlerts env tenant.id wO)
  let wG := gone.foldl (silentClose env tenant.id) wO
  let wI := wG.advance (env.calls (.integrations tenant.id))
  let wS := wI.advance (env.calls (.silences tenant.id))
  have hPO : P wO := hP.wait _ _ (hP.wait _ _ hw)
  have hwR : Waits (PassCall env) w wR := .advance ⟨_, rfl⟩ w
  have hwO : Waits (PassCall env) wR wO := .advance ⟨_, rfl⟩ wR
  have hfollowsO : Follows start wO := (htenant.follows.trans (.advance w _)).trans (.advance wR _)
  have hsparedO : ∀ q ∈ start.configs, q.tenantId = tenant.id → Spares q.id start wO := by
    intro q hq hof
    exact (htenant.spared q hq hof).trans (Emits.of_trace_eq (by simp [wO, wR]))
  have huntouchedO : ∀ r, wO.openRows tenant.id r = start.openRows tenant.id r := by
    intro r
    rw [← htenant.untouched r]
    simp only [wO, wR, World.openRows, World.advance_alertHistory]
  unfold loadTenantPass
  simp only
  split
  · exact ⟨hPO, by simp⟩
  · have hgone : ∀ r ∈ gone, AtGone env start tenant r wO := by
      intro r hr
      have hopened : start.openRows tenant.id r ≠ [] := by
        rw [← huntouchedO r]
        have hmem := (List.mem_filter.1 hr).1
        unfold loadOpenAlerts at hmem
        split at hmem
        · simp at hmem
        · exact World.openRows_ne_nil_of_mem hmem
      obtain ⟨q, hq, rfl, hof⟩ := htenant.owned r hopened
      exact atGone_of_mem hfollowsO (World.advance_alertRules wR _) (hsparedO q hq hof)
        (huntouchedO q.id) hr
    have hopenNodup : ((loadOpenAlerts env tenant.id wO).map Prod.fst).Nodup := by
      unfold loadOpenAlerts
      split
      · simp
      · exact World.listOpenAlerts_nodup wO tenant.id
    obtain ⟨hPG, hwG, hfollowsG, hkept⟩ :=
      silentCloses_induction hP hgone (hopenNodup.sublist List.filter_sublist) hPO
    have hwS : Waits (PassCall env) wO wS :=
      (hwG.then_advance ⟨_, rfl⟩).then_advance ⟨_, rfl⟩
    have hfollowsS : Follows start wS :=
      ((hfollowsO.trans hfollowsG).trans (.advance wG _)).trans (.advance wI _)
    refine ⟨hP.wait _ _ (hP.wait _ _ hPG), ?_⟩
    rintro tp htp
    obtain rfl := Option.some.inj htp
    refine ⟨rfl, loadRules_nodup (by rw [hwR.configs]; exact htenant.rules) tenant.id, fun q hq => ?_⟩
    have hnotGone : q.id ∉ gone := by
      intro hmem
      have hnot := (List.mem_filter.1 hmem).2
      have hin : q.id ∈ rules.map (·.id) := List.mem_map_of_mem hq
      simp only [Bool.not_eq_true', List.contains_eq_mem, decide_eq_false_iff_not] at hnot
      exact hnot hin
    obtain ⟨hsparesG, hrowsG⟩ := hkept q.id hnotGone
    have hrowsS : wS.openRows tenant.id q.id = wO.openRows tenant.id q.id := by
      rw [← hrowsG]
      simp only [wS, wI, World.openRows, World.advance_alertHistory]
      rfl
    have hsparedS : Spares q.id start wS := by
      unfold loadRules at hq
      split at hq
      · simp at hq
      · obtain ⟨hmem, hfilter⟩ := List.mem_filter.1 hq
        simp only [Bool.and_eq_true, beq_iff_eq] at hfilter
        have hconfig : q.config ∈ start.configs := by
          rw [← htenant.follows.configs, ← hwR.configs]
          exact List.mem_map_of_mem hmem
        have hsparedG := (hsparedO q.config hconfig hfilter.1).trans hsparesG
        exact hsparedG.trans (Emits.of_trace_eq (by simp [wS, wI, wG]))
    exact atRule_of_mem hfollowsS hwO hwS hq hsparedS hrowsS (huntouchedO q.id)

/-- One tenant. -/
theorem evaluateTenant_induction (hP : TenantInvariant p env start turns tenant P) {w : World}
    (htenant : AtTenant start tenant w)
    (hturns : ∀ turn ∈ tenantTurns p env w tenant, turn ∈ turns) (hw : P w) :
    P (evaluateTenant p env w tenant) := by
  obtain ⟨hload, hrules⟩ := loadTenantPass_induction hP htenant hw rfl
  unfold evaluateTenant
  unfold tenantTurns at hturns
  generalize loadTenantPass env w tenant = loaded at *
  obtain ⟨found, v⟩ := loaded
  cases found with
  | none => exact hload
  | some tp =>
      obtain ⟨htp, hkeys, hat⟩ := hrules tp rfl
      refine rules_induction hP htp hat hkeys (fun v hv => hturns _ ?_) hload
      exact List.mem_map_of_mem (f := fun v => Turn.mk tp v.2 v.1.1 v.1.2) hv

/-- That the state is a later one can be added to a property. -/
theorem TenantInvariant.withFollows (hP : TenantInvariant p env start turns tenant P) (w₀ : World) :
    TenantInvariant p env start turns tenant fun w => P w ∧ Follows w₀ w where
  wait w pt h := ⟨hP.wait w pt h.1, h.2.trans (.advance w _)⟩
  gone w w' ruleId h hat hclosed :=
    ⟨hP.gone w w' ruleId h.1 hat hclosed, h.2.trans hclosed.follows⟩
  rule turn hturn w' htenant h hat hstep :=
    ⟨hP.rule turn hturn w' htenant h.1 hat hstep, h.2.trans hstep.follows⟩

/-- One tenant's turn leaves the open rows of the others alone. -/
theorem tenantInvariant_otherRows (start : World) (turns : List Turn) (t r : Uuid)
    (rows : List AlertHistoryRow) (ht : t ≠ tenant.id) :
    TenantInvariant p env start turns tenant fun w => w.openRows t r = rows where
  wait w pt h := by rw [← h, World.openRows, World.openRows, World.advance_alertHistory]
  gone w w' ruleId h _ hclosed := by
    rw [← h]
    exact hclosed.openRows_of_ne fun heq => ht heq.1
  rule turn _ w' htenant h _ hstep := by
    rw [← h]
    exact hstep.openRows_of_ne fun heq => ht (htenant ▸ heq.1)

/-- One tenant's turn says nothing about the rules of the others. -/
theorem tenantInvariant_otherRules (w₀ start : World) (turns : List Turn)
    (hkeys : (start.configs.map (·.id)).Nodup)
    (howned : ∀ r, start.openRows tenant.id r ≠ [] →
      ∃ q ∈ start.configs, q.id = r ∧ q.tenantId = tenant.id)
    {q : AlertRule} (hq : q ∈ start.configs) (hne : q.tenantId ≠ tenant.id) :
    TenantInvariant p env start turns tenant (Spares q.id w₀) where
  wait w pt h := h.trans (Emits.of_trace_eq (World.advance_trace w _))
  gone w w' ruleId h hat hclosed := by
    refine h.trans (hclosed.spares ?_)
    rintro rfl
    obtain ⟨q', hq', hid, hof⟩ := howned q.id (hat.untouched ▸ hat.opened)
    exact hne (List.inj_on_of_nodup_map hkeys hq' hq hid ▸ hof)
  rule turn _ w' htenant h hat hstep := by
    refine h.trans (hstep.spares ?_)
    intro hid
    have hconfig : turn.rule.config ∈ start.configs := hat.follows.configs ▸ hat.configured
    have hsame : q = turn.rule.config := List.inj_on_of_nodup_map hkeys hq hconfig hid
    rw [hsame] at hne
    exact hne (htenant ▸ hat.ofTenant)

theorem World.listTenants_nodup {w : World} (h : (w.tenants.map (·.id)).Nodup) (limit : Nat) :
    ((w.listTenants limit).map (·.id)).Nodup := by
  have hactive : ((w.tenants.filter (·.isActive)).map (·.id)).Nodup :=
    h.sublist (List.filter_sublist.map _)
  have hsorted : (((w.tenants.filter (·.isActive)).insertionSort
      fun a b => b.createdAt ≤ a.createdAt).map (·.id)).Nodup :=
    ((List.perm_insertionSort _ _).map _).nodup_iff.2 hactive
  exact hsorted.sublist ((List.take_sublist _ _).map _)

/-- A tenant at the start of a pass. -/
theorem WellKeyed.atTenant {w : World} (h : WellKeyed w) (tenant : Tenant) (c : Call) :
    AtTenant w tenant (w.advance c) where
  follows := .advance w c
  rules := by rw [(Follows.advance w c).configs]; exact h.rules
  owned r hopen := by
    obtain ⟨row, hrow⟩ := List.exists_mem_of_ne_nil _ hopen
    obtain ⟨hmem, hkey⟩ := List.mem_filter.1 hrow
    simp only [AlertHistoryRow.isOpenFor, Bool.and_eq_true, beq_iff_eq] at hkey
    obtain ⟨q, hq, hid, hof⟩ := h.history row hmem
    exact ⟨q, hq, hid.trans hkey.1.2, hof.trans hkey.1.1⟩
  untouched r := by simp only [World.openRows, World.advance_alertHistory]
  spared q _ _ := .of_trace_eq (World.advance_trace w c)

/-- The turn of one tenant keeps what holds of another until its own. -/
theorem AtTenant.afterOther {w : World} {other : Tenant} (hown : AtTenant start tenant w)
    (hother : AtTenant start other w) (hne : other.id ≠ tenant.id) (hfollows : Follows start
      (evaluateTenant p env w tenant)) : AtTenant start other (evaluateTenant p env w tenant) := by
  have hhere : AtTenant w tenant w := {
    follows := .refl w
    rules := hown.rules
    owned := fun r hopen => by
      rw [hown.untouched r] at hopen
      rw [hown.follows.configs]
      exact hown.owned r hopen
    untouched := fun _ => rfl
    spared := fun q _ _ => .refl _ w }
  exact {
    follows := hfollows
    rules := by rw [hfollows.configs, ← hown.follows.configs]; exact hown.rules
    owned := hother.owned
    untouched := fun r => by
      rw [← hother.untouched r]
      exact evaluateTenant_induction (tenantInvariant_otherRows w _ other.id r _ hne) hhere
        (fun _ ht => ht) rfl
    spared := fun q hq hof => by
      have hq' : q ∈ w.configs := by rw [hown.follows.configs]; exact hq
      exact evaluateTenant_induction (tenantInvariant_otherRules start w _ hown.rules hhere.owned hq'
        (hof ▸ hne)) hhere (fun _ ht => ht) (hother.spared q hq hof) }

/-- **The pass rule.** -/
theorem runAlertEvaluation_induction {w : World} (hP : PassInvariant p env w P) (hkeys : WellKeyed w)
    (hw : P w) : P (runAlertEvaluation p env w) := by
  let first := w.advance (env.calls .listTenants)
  let listed := first.listTenants tenantLimit
  unfold runAlertEvaluation
  simp only
  split
  · exact hP.wait w _ hw
  · rename_i hlisting
    refine hP.cleanup _ (hP.wait _ _ ?_)
    let Q : World → Prop := fun v => P v ∧ Follows w v
    have hQ : ∀ tenant ∈ listed, TenantInvariant p env w (passTurns p env w) tenant Q := by
      intro tenant htenant
      refine (hP.tenant ?_).withFollows w
      rw [passTenants, if_neg hlisting]
      exact htenant
    have hdistinct : (listed.map (·.id)).Nodup := by
      refine World.listTenants_nodup ?_ tenantLimit
      rw [World.advance_tenants]
      exact hkeys.tenants
    -- The tenants are distinct, so nothing is done to a tenant until its own turn.
    have hturns : ∀ before after, listed = before ++ after →
        Q (before.foldl (evaluateTenant p env) first) ∧
          ∀ tenant ∈ after, AtTenant w tenant (before.foldl (evaluateTenant p env) first) := by
      intro before
      induction before using List.reverseRecOn with
      | nil =>
          intro after _
          exact ⟨⟨hP.wait w _ hw, .advance w _⟩, fun tenant _ => hkeys.atTenant tenant _⟩
      | append_singleton before turn ih =>
          intro after hsplit
          rw [List.append_assoc, List.singleton_append] at hsplit
          obtain ⟨hbefore, hat⟩ := ih (turn :: after) hsplit
          have hlisted : turn ∈ listed := by rw [hsplit]; simp
          have hown := hat turn List.mem_cons_self
          have hmine : ∀ t ∈ tenantTurns p env (before.foldl (evaluateTenant p env) first) turn,
              t ∈ passTurns p env w := by
            intro t ht
            unfold passTurns
            simp only
            rw [if_neg hlisting]
            refine List.mem_flatMap.2 ⟨(before.foldl (evaluateTenant p env) first, turn), ?_, ht⟩
            change _ ∈ Runs.visits (evaluateTenant p env) first listed
            rw [hsplit]
            exact Runs.mem_visits _ _ before turn after
          have hend := evaluateTenant_induction (hQ turn hlisted) hown hmine hbefore
          rw [List.foldl_append, List.foldl_cons, List.foldl_nil]
          refine ⟨hend, fun tenant htenant => ?_⟩
          have hne : tenant.id ≠ turn.id := by
            intro heq
            rw [hsplit, List.map_append, List.map_cons, List.nodup_append] at hdistinct
            exact (List.nodup_cons.1 hdistinct.2.1).1 (heq ▸ List.mem_map_of_mem htenant)
          exact hown.afterOther (hat tenant (List.mem_cons_of_mem _ htenant)) hne hend.2
    have hall := (hturns listed [] (List.append_nil _).symm).1
    exact hall.1

/-- A pass emits what its silent closes and its turns emit. -/
theorem runAlertEvaluation_emits {Q : Event → Prop} {w : World} (hkeys : WellKeyed w)
    (hgone : ∀ tenant ∈ passTenants env w, ∀ v v' r, AtGone env w tenant r v →
      SilentlyClosed env tenant.id r v v' → Emits Q v v')
    (hrule : ∀ turn ∈ passTurns p env w, ∀ v', AtRule env w turn.pass turn.rule turn.world →
      RuleStep env turn.pass turn.rule (turn.fires p env) turn.world v' → Emits Q turn.world v') :
    Emits Q w (runAlertEvaluation p env w) := by
  have hinv : PassInvariant p env w (Emits Q w) := {
    wait := fun v pt h => h.trans (.of_trace_eq (World.advance_trace v _))
    gone := fun tenant htenant v v' r h hat hclosed =>
      h.trans (hgone tenant htenant v v' r hat hclosed)
    rule := fun turn hturn v' h hat hstep => h.trans (hrule turn hturn v' hat hstep)
    cleanup := fun _ h => h }
  exact runAlertEvaluation_induction hinv hkeys (.refl Q w)

/-- The end of a pass is a later state. -/
theorem runAlertEvaluation_follows {w : World} (hkeys : WellKeyed w) :
    Follows w (runAlertEvaluation p env w) := by
  have hinv : PassInvariant p env w (Follows w) := {
    wait := fun v pt h => h.trans (.advance v _)
    gone := fun _ _ _ _ _ h _ hclosed => h.trans hclosed.follows
    rule := fun _ _ _ h _ hstep => h.trans hstep.follows
    cleanup := fun _ h => ⟨h.tenants, h.configs, h.now_le, h.trace⟩ }
  exact runAlertEvaluation_induction hinv hkeys (.refl w)

end Induction

end Feloxi.Alerting
