import Feloxi.Alerting.Keys

/-!
# Feloxi.Alerting.Incidents

The incidents of a rule: at most one is open, and one is closed without a notice
only when its rule is gone. Both rest on the two reads at the start of a tenant's
turn, and the loop takes a failed read for an empty answer. So both hold in runs
without the failure that hurts, and the failure is named exactly: a new incident
is opened blindly, or the rules read as gone.
-/

namespace Feloxi.Alerting

/-! ### At most one open incident -/

/-- At most one unresolved row per rule. -/
def AtMostOneOpen (w : World) : Prop := ∀ t r, (w.openRows t r).length ≤ 1

/-- The open incidents could not be read, the rule has one, and its turn opens
another: the condition holds, the cooldown is over and the row is inserted. -/
def Turn.OpensBlindly (p : Platform) (env : PassEnv) (start : World) (turn : Turn) : Prop :=
  (env.calls (.listOpen turn.pass.tenant.id)).fails = true ∧
    start.openRows turn.pass.tenant.id turn.rule.id ≠ [] ∧
    turn.fires p env = true ∧ turn.throttled env = false ∧
    (env.calls (.insertHistory turn.rule.id)).fails = false

/-- No turn of a pass opens an incident blindly. -/
def OpensSighted (p : Platform) (w : World) : Step → Prop
  | .evaluate env => ∀ turn ∈ passTurns p env w, ¬ turn.OpensBlindly p env w
  | _ => True

/-- Closing the rows of a rule opens none. -/
theorem closedHistory_filter_length_le (failed : Bool) (time : Instant) (tenantId ruleId t r : Uuid)
    (history : List AlertHistoryRow) :
    ((closedHistory failed time tenantId ruleId history).filter (·.isOpenFor t r)).length ≤
      (history.filter (·.isOpenFor t r)).length := by
  cases failed with
  | true => exact Nat.le_refl _
  | false =>
      simp only [closedHistory, Bool.false_eq_true, if_false]
      rw [← List.countP_eq_length_filter, ← List.countP_eq_length_filter, List.countP_map]
      refine List.countP_mono_left fun h _ hopen => ?_
      rw [Function.comp_apply] at hopen
      split at hopen
      · simp [AlertHistoryRow.isOpenFor] at hopen
      · exact hopen

theorem AtMostOneOpen.of_alertHistory {w w' : World} (h : AtMostOneOpen w)
    (hhistory : w'.alertHistory = w.alertHistory) : AtMostOneOpen w' := by
  intro t r
  rw [World.openRows, hhistory]
  exact h t r

theorem AtMostOneOpen.of_closed {w w' : World} (h : AtMostOneOpen w) {failed : Bool}
    {time : Instant} {tenantId ruleId : Uuid}
    (hhistory : w'.alertHistory = closedHistory failed time tenantId ruleId w.alertHistory) :
    AtMostOneOpen w' := by
  intro t r
  rw [World.openRows, hhistory]
  exact Nat.le_trans (closedHistory_filter_length_le _ _ _ _ _ _ _) (h t r)

/-- A turn that is not blind keeps the incidents apart. -/
theorem AtMostOneOpen.rule {p : Platform} {env : PassEnv} {start : World} {turn : Turn} {w' : World}
    (h : AtMostOneOpen turn.world) (hsighted : ¬ turn.OpensBlindly p env start)
    (hat : AtRule env start turn.pass turn.rule turn.world)
    (hstep : RuleStep env turn.pass turn.rule (turn.fires p env) turn.world w') :
    AtMostOneOpen w' := by
  cases hstep with
  | stillFiring => exact h.of_alertHistory (fires_alertHistory ..)
  | throttled => exact h.of_alertHistory (fires_alertHistory ..)
  | waiting => exact h.of_alertHistory (counts_alertHistory ..)
  | quiet => exact h.of_alertHistory (forgets_alertHistory ..)
  | resolved _ _ _ hres =>
      have hcounts : AtMostOneOpen (counts env turn.pass turn.rule turn.world) :=
        h.of_alertHistory (counts_alertHistory ..)
      obtain ⟨time, -, hhistory⟩ := hres.alertHistory
      exact hcounts.of_closed hhistory
  | raised hfires hnone hcool hraised =>
      rename_i alert ds row
      have hhistory : w'.alertHistory = turn.world.alertHistory ++ row.toList := by
        rw [hraised.alertHistory, fires_alertHistory]
      intro t r
      rw [World.openRows, hhistory, List.filter_append, List.length_append]
      cases hrow : row with
      | none => exact h t r
      | some new =>
          have hnew := hraised.written new (by rw [hrow]; rfl)
          by_cases hmine : t = turn.pass.tenant.id ∧ r = turn.rule.id
          · -- The rule's own rows: there were none, whether they could be read or not.
            obtain ⟨rfl, rfl⟩ := hmine
            have hempty : turn.world.openRows turn.pass.tenant.id turn.rule.id = [] := by
              cases hread : (env.calls (.listOpen turn.pass.tenant.id)).fails with
              | false => exact hat.openRows_eq_nil hnone hread
              | true =>
                  by_contra hopen
                  rw [hat.untouched] at hopen
                  exact hsighted ⟨hread, hopen, hfires, hcool, hnew.inserted⟩
            rw [World.openRows] at hempty
            rw [hempty, List.length_nil, Nat.zero_add]
            exact List.length_filter_le _ _
          · have hother : new.isOpenFor t r = false := by
              by_contra hopen
              rw [Bool.not_eq_false] at hopen
              simp only [AlertHistoryRow.isOpenFor, hnew.tenantId, hnew.ruleId, Bool.and_eq_true,
                beq_iff_eq] at hopen
              exact hmine ⟨hopen.1.1.symm, hopen.1.2.symm⟩
            rw [Option.toList_some, List.filter_cons_of_neg (by simp [hother]), List.filter_nil,
              List.length_nil, Nat.add_zero]
            exact h t r

theorem atMostOneOpen_passInvariant {p : Platform} {env : PassEnv} {start : World}
    (hok : OpensSighted p start (.evaluate env)) : PassInvariant p env start AtMostOneOpen where
  wait w pt h := h.of_alertHistory (World.advance_alertHistory w _)
  gone tenant _ w w' r h _ hclosed := by
    obtain ⟨time, -, hhistory⟩ := hclosed.alertHistory
    exact h.of_closed hhistory
  rule turn hturn w' h hat hstep := h.rule (hok turn hturn) hat hstep
  cleanup w h := h

/-- Delivery logs are no part of an incident. -/
theorem AtMostOneOpen.of_coreHistory {w w' : World} (h : AtMostOneOpen w)
    (hcore : w'.coreHistory = w.coreHistory) : AtMostOneOpen w' := by
  intro t r
  rw [← List.length_map (f := AlertHistoryRow.core), World.openRows_core, hcore,
    ← World.openRows_core, List.length_map]
  exact h t r

theorem AtMostOneOpen.drain {p : Platform} {w : World} (h : AtMostOneOpen w) (env : DrainEnv) :
    AtMostOneOpen (drainDeliveryRetries p env w) := by
  refine drainDeliveryRetries_induction p env ?_ (fun _ => ?_) ?_
  · exact h.of_alertHistory (World.advance_alertHistory w _)
  · exact h.of_alertHistory (World.advance_alertHistory w _)
  · intro v v' job ds _ hv hretried
    exact hv.of_coreHistory hretried.coreHistory

theorem AtMostOneOpen.step {p : Platform} {w : World} {s : Step} (hkeys : WellKeyed w)
    (h : AtMostOneOpen w) (hok : OpensSighted p w s) : AtMostOneOpen (step p w s) := by
  rcases step_cases p w s with ⟨env, rfl⟩ | ⟨env, rfl⟩ | hadmin
  · exact runAlertEvaluation_induction (atMostOneOpen_passInvariant hok) hkeys h
  · exact h.drain env
  · intro t r
    exact Nat.le_trans (hadmin.alertHistory.filter _).length_le (h t r)

/-- **At most one open incident per rule**, in every run in which no incident is
opened blindly. -/
theorem atMostOneOpen_of_sighted (p : Platform) (w : World) (steps : List Step)
    (hkeys : WellKeyed w) (hone : AtMostOneOpen w)
    (hok : Runs.AllSteps (step p) (OpensSighted p) w steps) : AtMostOneOpen (run p w steps) := by
  have hend := Runs.AllSteps.invariant (fun v => WellKeyed v ∧ AtMostOneOpen v)
    (fun v s hv hs => ⟨hv.1.step s, hv.2.step hv.1 hs⟩) hok ⟨hkeys, hone⟩
  exact hend.2

instance (p : Platform) (env : PassEnv) (start : World) (turn : Turn) :
    Decidable (turn.OpensBlindly p env start) :=
  inferInstanceAs (Decidable (_ ∧ _))

instance (p : Platform) (w : World) (s : Step) : Decidable (OpensSighted p w s) :=
  match s with
  | .evaluate env => inferInstanceAs (Decidable (∀ turn ∈ passTurns p env w, _))
  | .drain _ | .createRule .. | .updateRule .. | .deleteRule .. | .silence _ | .wait _ =>
    inferInstanceAs (Decidable True)

theorem atMostOneOpen_of_sighted_sample :
    AtMostOneOpen (run samplePlatform (sampleWorld (sampleRule [] 300))
      [.evaluate (samplePass troubledReads 100),
        .evaluate ((samplePass troubledReads 101).failing (.listOpen 1))]) :=
  atMostOneOpen_of_sighted samplePlatform (sampleWorld (sampleRule [] 300)) _
    (wellKeyed_sampleWorld _) (fun _ _ => Nat.zero_le _)
    ⟨by decide +kernel, by decide +kernel, trivial⟩

/-- A failed read of the open incidents, once the cooldown is over. -/
def blindPass : List Step :=
  [.evaluate (samplePass troubledReads 100), .wait (fromSecs 300),
    .evaluate ((samplePass troubledReads 101).failing (.listOpen 1))]

/-- The incident that is still firing is opened a second time. -/
theorem not_atMostOneOpen_blindPass :
    AtMostOneOpen (sampleWorld (sampleRule [] 300)) ∧
      ¬ AtMostOneOpen (run samplePlatform (sampleWorld (sampleRule [] 300)) blindPass) := by
  refine ⟨fun _ _ => Nat.zero_le _, fun hone => ?_⟩
  have hrows : ((run samplePlatform (sampleWorld (sampleRule [] 300)) blindPass).openRows 1 7).length
      = 2 := by decide +kernel
  have hle := hone 1 7
  omega

/-! ### Silent closes -/

/-- A rule is absent or disabled. -/
def RuleGone (w : World) (ruleId : Uuid) : Prop :=
  ∀ q ∈ w.alertRules, q.id = ruleId → q.isEnabled = false

/-- Every incident a pass closes without a notice is one of a rule that is gone. -/
def ClosesOnlyGone (p : Platform) (w : World) : Step → Prop
  | .evaluate env => ∀ t r closed,
      .silentClose t r closed ∈ (runAlertEvaluation p env w).trace.drop w.trace.length →
        closed ≠ [] → RuleGone w r
  | _ => True

/-- No pass that reads and closes open incidents of an enabled rule fails to read
the rules of that tenant. -/
def RulesRead (w : World) : Step → Prop
  | .evaluate env => ∀ tenant ∈ passTenants env w,
      (env.calls (.listRules tenant.id)).fails = true →
      (env.calls (.listOpen tenant.id)).fails = false →
      ∀ q ∈ w.alertRules, q.isEnabled = true → w.openRows tenant.id q.id ≠ [] →
        (env.calls (.silentClose tenant.id q.id)).fails = true
  | _ => True

/-- An incident the pass closes is one of a rule that is gone. -/
theorem AtGone.ruleGone {env : PassEnv} {start w : World} {tenant : Tenant} {r : Uuid}
    (h : AtGone env start tenant r w) (hkeys : WellKeyed start)
    (hread : RulesRead start (.evaluate env)) (htenant : tenant ∈ passTenants env start)
    (hcloses : (env.calls (.silentClose tenant.id r)).fails = false) : RuleGone start r := by
  rintro q hq rfl
  have hopened : start.openRows tenant.id q.id ≠ [] := h.untouched ▸ h.opened
  rcases h.gone with hfails | hgone
  · by_contra henabled
    rw [Bool.not_eq_false] at henabled
    have hrefused := hread tenant htenant hfails h.listed q hq henabled hopened
    rw [hcloses] at hrefused
    cases hrefused
  · -- The open row belongs to a rule of the tenant, and ids are unique.
    obtain ⟨row, hrow⟩ := List.exists_mem_of_ne_nil _ hopened
    obtain ⟨hmem, hopen⟩ := List.mem_filter.1 hrow
    simp only [AlertHistoryRow.isOpenFor, Bool.and_eq_true, beq_iff_eq] at hopen
    obtain ⟨q', hq', hid, hof⟩ := hkeys.history row hmem
    have hconfig : q.config ∈ start.configs := List.mem_map_of_mem hq
    obtain rfl := hkeys.unique hconfig hq' (hid.trans hopen.1.2).symm
    exact hgone q.config (h.follows.configs ▸ hconfig) rfl (hof.trans hopen.1.1)

/-- An event is no silent close of a rule that was there in `start`. -/
def Event.ClosesGone (start : World) (e : Event) : Prop :=
  ∀ t r closed, e = .silentClose t r closed → closed ≠ [] → RuleGone start r

theorem runAlertEvaluation_closesGone {p : Platform} {env : PassEnv} {w : World}
    (hkeys : WellKeyed w) (hread : RulesRead w (.evaluate env)) :
    Emits (Event.ClosesGone w) w (runAlertEvaluation p env w) := by
  refine runAlertEvaluation_emits hkeys ?_ ?_
  · intro tenant htenant v v' r hat hclosed
    refine ⟨_, hclosed.trace, fun e he t r' closed heq hne => ?_⟩
    rw [heq] at he
    simp only [List.mem_cons, Event.silentClose.injEq, List.not_mem_nil, or_false,
      reduceCtorEq] at he
    obtain ⟨rfl, rfl, rfl⟩ := he
    refine hat.ruleGone hkeys hread htenant ?_
    by_contra hfails
    rw [Bool.not_eq_false] at hfails
    exact hne (by rw [hfails]; rfl)
  · intro turn _ v' _ hstep
    obtain ⟨events, htrace, hevents⟩ := hstep.events
    refine ⟨events, htrace, fun e he t r closed heq => ?_⟩
    have hnot := (hevents e he).2
    rw [heq] at hnot
    cases hnot

/-- **Silent closes are of rules that are gone**, in every run in which the rules
of a tenant are read whenever its open incidents are. -/
theorem closesOnlyGone_of_rulesRead (p : Platform) (w : World) (steps : List Step)
    (hkeys : WellKeyed w) (hok : Runs.AllSteps (step p) RulesRead w steps) :
    Runs.AllSteps (step p) (ClosesOnlyGone p) w steps := by
  refine hok.of_invariant WellKeyed (fun v s hv _ => hv.step s) ?_ hkeys
  intro v s hv hread
  cases s with
  | evaluate env =>
      intro t r closed hmem hne
      exact (runAlertEvaluation_closesGone hv hread).drop _ hmem t r closed rfl hne
  | drain env => trivial
  | createRule tenantId id req => trivial
  | updateRule tenantId id req => trivial
  | deleteRule tenantId id => trivial
  | silence op => trivial
  | wait n => trivial

instance (w : World) (ruleId : Uuid) : Decidable (RuleGone w ruleId) :=
  inferInstanceAs (Decidable (∀ q ∈ w.alertRules, _))

instance (w : World) (s : Step) : Decidable (RulesRead w s) :=
  match s with
  | .evaluate env => inferInstanceAs (Decidable (∀ tenant ∈ passTenants env w, _))
  | .drain _ | .createRule .. | .updateRule .. | .deleteRule .. | .silence _ | .wait _ =>
    inferInstanceAs (Decidable True)

/-- The rule of the sample deployment, disabled. -/
def disableSampleRule : Step :=
  .updateRule 1 7 {
    name := "Task failed", condition := .taskFailed "*", channels := [], cooldownSecs := 300,
    isEnabled := false, severityOverride := none }

theorem closesOnlyGone_of_rulesRead_sample :
    Runs.AllSteps (step samplePlatform) (ClosesOnlyGone samplePlatform)
      (sampleWorld (sampleRule [] 300))
      [.evaluate (samplePass troubledReads 100), disableSampleRule,
        .evaluate (samplePass troubledReads 101)] :=
  closesOnlyGone_of_rulesRead samplePlatform (sampleWorld (sampleRule [] 300)) _
    (wellKeyed_sampleWorld _)
    ⟨by decide +kernel, by decide +kernel, by decide +kernel, trivial⟩

/-- A pass that fails to read the rules closes the incident of an enabled one. -/
theorem not_closesOnlyGone_unreadRules :
    ¬ Runs.AllSteps (step samplePlatform) (ClosesOnlyGone samplePlatform)
      (sampleWorld (sampleRule [] 300))
      [.evaluate (samplePass troubledReads 100),
        .evaluate ((samplePass troubledReads 101).failing (.listRules 1))] := by
  rintro ⟨-, hcloses, -⟩
  have hgone := hcloses 1 7 [100] (by decide +kernel) (by decide)
  revert hgone
  decide +kernel

end Feloxi.Alerting
