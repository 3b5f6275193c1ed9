import Feloxi.Alerting.Keys
import Mathlib.Data.List.Chain

/-!
# Feloxi.Alerting.Cooldown

How far apart the firings of one rule are. The throttle remembers the last firing
of a rule until the cleanup at the end of a pass drops it, one hour on at the
latest. So a cooldown is kept exactly as long as the throttle remembers: up to
one hour.

The invariant (`Remembers`) says of the last firing of a rule that the throttle
still holds it, or that it is an hour old.
-/

namespace Feloxi.Alerting

/-- The recorded firings of a rule, each with the cooldown in force. -/
def firings (ruleId : Uuid) (trace : List Event) : List (Instant × Int) :=
  trace.filterMap fun
    | .fireRecorded r t cooldownSecs => if r = ruleId then some (t, cooldownSecs) else none
    | _ => none

/-- Two firings are at least the cooldown of the second apart. -/
def Apart (first second : Instant × Int) : Prop :=
  0 ≤ second.2 → first.1 + fromSecs second.2.toNat ≤ second.1

/-- A pass meets a rule with a cooldown of at most an hour. -/
def HourlyCooldown (ruleId : Uuid) (w : World) : Step → Prop
  | .evaluate _ => ∀ q ∈ w.alertRules, q.id = ruleId → q.cooldownSecs ≤ maxCooldownSecs
  | _ => True

instance (ruleId : Uuid) (w : World) (s : Step) : Decidable (HourlyCooldown ruleId w s) :=
  match s with
  | .evaluate _ =>
    inferInstanceAs (Decidable (∀ q ∈ w.alertRules, q.id = ruleId → q.cooldownSecs ≤ maxCooldownSecs))
  | .drain _ | .createRule .. | .updateRule .. | .deleteRule .. | .silence _ | .wait _ =>
    inferInstanceAs (Decidable True)

instance : DecidableRel Apart := fun _ _ => inferInstanceAs (Decidable (_ → _))

/-- Every firing of a rule keeps its cooldown. -/
def CooldownKept (ruleId : Uuid) (w : World) : Prop := (firings ruleId w.trace).IsChain Apart

section Firings

variable (ruleId : Uuid)

theorem firings_append (first second : List Event) :
    firings ruleId (first ++ second) = firings ruleId first ++ firings ruleId second :=
  List.filterMap_append

/-- Events that record no firing of the rule add none. -/
theorem firings_append_of_none (trace : List Event) {events : List Event}
    (h : ∀ e ∈ events, ∀ t c, e ≠ .fireRecorded ruleId t c) :
    firings ruleId (trace ++ events) = firings ruleId trace := by
  rw [firings_append, List.append_right_eq_self, firings, List.filterMap_eq_nil_iff]
  intro e he
  split
  · rename_i r t c
    rw [if_neg]
    rintro rfl
    exact h _ he t c rfl
  · rfl

end Firings

/-- The throttle holds the last firing of the rule, or that firing is an hour old. -/
structure Remembers (ruleId : Uuid) (w : World) : Prop where
  kept : CooldownKept ruleId w
  last : ∀ f ∈ (firings ruleId w.trace).getLast?, f.1 ≤ w.now ∧
    (w.throttle.lastFired ruleId = some f.1 ∨ f.1 + fromSecs maxCooldownSecs ≤ w.now)

/-- A step without a firing of the rule that keeps its throttle entry. -/
theorem Remembers.of_quiet {ruleId : Uuid} {w w' : World} (h : Remembers ruleId w)
    (htrace : firings ruleId w'.trace = firings ruleId w.trace) (hnow : w.now ≤ w'.now)
    (hthrottle : w'.throttle.lastFired ruleId = w.throttle.lastFired ruleId) :
    Remembers ruleId w' where
  kept := by
    unfold CooldownKept
    rw [htrace]
    exact h.kept
  last f hf := by
    rw [htrace] at hf
    obtain ⟨hle, hlast⟩ := h.last f hf
    exact ⟨Nat.le_trans hle hnow, hlast.imp (fun hheld => hthrottle.trans hheld)
      fun hold => Nat.le_trans hold hnow⟩

/-- A rule outside its cooldown is as far from its last firing as an hourly
cooldown asks. -/
theorem Remembers.apart {ruleId : Uuid} {w : World} (h : Remembers ruleId w) {t : Instant}
    (ht : w.now ≤ t) {cooldownSecs : Int} (hhour : cooldownSecs ≤ maxCooldownSecs)
    (hcool : w.throttle.isThrottled t ruleId (cooldown cooldownSecs) = false)
    {f : Instant × Int} (hf : f ∈ (firings ruleId w.trace).getLast?) {t' : Instant} (ht' : t ≤ t') :
    Apart f (t', cooldownSecs) := by
  intro hnonneg
  obtain ⟨hle, hlast⟩ := h.last f hf
  obtain ⟨secs, rfl⟩ := Int.eq_ofNat_of_zero_le hnonneg
  have hsecs : secs ≤ maxCooldownSecs := by exact_mod_cast hhour
  simp only [Int.toNat_natCast]
  rcases hlast with hheld | hold
  · have hsmall : ((secs : Int) % 2 ^ 64).toNat = secs := by
      unfold maxCooldownSecs at hsecs
      omega
    simp only [AlertThrottle.isThrottled, hheld, decide_eq_false_iff_not, cooldown, hsmall,
      Nat.not_lt] at hcool
    have happart : fromSecs secs + f.1 ≤ t := Nat.add_le_of_le_sub (Nat.le_trans hle ht) hcool
    rw [Nat.add_comm]
    exact Nat.le_trans happart ht'
  · have hshort : fromSecs secs ≤ fromSecs maxCooldownSecs := Nat.mul_le_mul_right _ hsecs
    have hwithin : f.1 + fromSecs secs ≤ w.now := Nat.le_trans (Nat.add_le_add_left hshort _) hold
    exact Nat.le_trans hwithin (Nat.le_trans ht ht')

/-! ### One outcome, one pass, one step -/

/-- The rule's cooldown is at most an hour. -/
def BoundedCooldown (ruleId : Uuid) (w : World) : Prop :=
  ∀ q ∈ w.configs, q.id = ruleId → q.cooldownSecs ≤ maxCooldownSecs

theorem Remembers.rule {ruleId : Uuid} {env : PassEnv} {start : World} {tp : TenantPass}
    {rule : AlertRule} {fired : Bool} {w w' : World} (h : Remembers ruleId w)
    (hbound : BoundedCooldown ruleId w) (hat : AtRule env start tp rule w)
    (hstep : RuleStep env tp rule fired w w') : Remembers ruleId w' := by
  have hnow := hstep.waits.now_le
  by_cases hrule : ruleId = rule.id
  · subst hrule
    have hjudged : ∀ fired, firings rule.id (judged env tp rule fired w).trace =
        firings rule.id w.trace := by
      intro fired
      rw [judged_trace]
      exact firings_append_of_none rule.id _ (by simp)
    have hfires : Remembers rule.id (fires env tp rule w) :=
      h.of_quiet (hjudged true) (judged_waits env tp rule true w).now_le
        (by rw [fires, judged_throttle])
    have hcounts : Remembers rule.id (counts env tp rule w) :=
      h.of_quiet (hjudged false) (judged_waits env tp rule false w).now_le
        (by rw [counts, judged_throttle])
    cases hstep with
    | stillFiring => exact hfires
    | throttled => exact hfires
    | waiting => exact hcounts
    | quiet =>
        refine h.of_quiet ?_ hnow (by simp [forgets, World.emit])
        rw [forgets, World.emit, firings_append_of_none rule.id _ (by simp)]
        exact hjudged false
    | resolved _ _ _ hres =>
        refine hcounts.of_quiet ?_ hres.waits.now_le (by rw [hres.throttle])
        rw [hres.trace]
        refine firings_append_of_none rule.id _ ?_
        simp only [List.mem_cons, List.mem_append, List.mem_map, List.not_mem_nil, or_false]
        rintro e (rfl | rfl | ⟨d, -, rfl⟩ | rfl) t c <;> simp
    | raised _ _ hcool hraised =>
        rename_i alert ds row
        have hthrottle : (fires env tp rule w).throttle = w.throttle :=
          judged_throttle env tp rule true w
        have hnew : firings rule.id w'.trace = firings rule.id (fires env tp rule w).trace ++
            [(w'.now, rule.cooldownSecs)] := by
          rw [hraised.trace, ← List.append_assoc, ← List.append_assoc, firings_append,
            firings_append_of_none rule.id _ (by simp), firings_append_of_none rule.id _ (by simp)]
          simp [firings]
        have hcool' : (fires env tp rule w).throttle.isThrottled (fires env tp rule w).now rule.id
            (cooldown rule.cooldownSecs) = false := by
          rw [hthrottle]
          exact hcool
        have hhour : rule.cooldownSecs ≤ maxCooldownSecs := hbound rule.config hat.configured rfl
        refine ⟨?_, ?_⟩
        · unfold CooldownKept
          rw [hnew]
          refine List.IsChain.append hfires.kept (List.isChain_singleton _) ?_
          intro f hf g hg
          obtain rfl : (w'.now, rule.cooldownSecs) = g := by simpa using hg
          exact hfires.apart (Nat.le_refl _) hhour hcool' hf hraised.waits.now_le
        · intro f hf
          rw [hnew, List.getLast?_concat, Option.mem_some_iff] at hf
          subst hf
          refine ⟨Nat.le_refl _, .inl ?_⟩
          rw [hraised.throttle, AlertThrottle.recordFired_self]
  · refine h.of_quiet ?_ hnow (hstep.lastFired_of_ne hrule)
    obtain ⟨events, htrace, hevents⟩ := hstep.events
    rw [htrace]
    refine firings_append_of_none ruleId _ ?_
    rintro e he t c rfl
    exact hrule (hevents _ he).1

theorem remembers_passInvariant (ruleId : Uuid) (p : Platform) (env : PassEnv) (start : World) :
    PassInvariant p env start fun w => Remembers ruleId w ∧ BoundedCooldown ruleId w where
  wait w pt h := by
    refine ⟨h.1.of_quiet (by simp) (World.now_le_advance w _) (by simp), ?_⟩
    intro q hq
    rw [World.configs, World.advance_alertRules] at hq
    exact h.2 q hq
  gone tenant _ w w' r h _ hclosed := by
    refine ⟨h.1.of_quiet ?_ hclosed.waits.now_le (by rw [hclosed.throttle]), ?_⟩
    · rw [hclosed.trace]
      exact firings_append_of_none ruleId _ (by simp)
    · intro q hq
      exact h.2 q (hclosed.waits.configs ▸ hq)
  rule turn _ w' h hat hstep := by
    refine ⟨h.1.rule h.2 hat hstep, ?_⟩
    intro q hq
    exact h.2 q (hstep.waits.configs ▸ hq)
  cleanup w h := by
    refine ⟨⟨h.1.kept, fun f hf => ?_⟩, h.2⟩
    obtain ⟨hle, hlast⟩ := h.1.last f hf
    refine ⟨hle, ?_⟩
    rcases hlast with hheld | hold
    · by_cases hyoung : w.now - f.1 < fromSecs maxCooldownSecs
      · exact .inl (by simp [AlertThrottle.cleanup, hheld, hyoung])
      · refine .inr ?_
        rw [Nat.add_comm]
        exact Nat.add_le_of_le_sub hle (Nat.le_of_not_lt hyoung)
    · exact .inr hold

theorem Remembers.step {ruleId : Uuid} {p : Platform} {w : World} {s : Step} (hkeys : WellKeyed w)
    (h : Remembers ruleId w) (hok : HourlyCooldown ruleId w s) : Remembers ruleId (step p w s) := by
  rcases step_cases p w s with ⟨env, rfl⟩ | ⟨env, rfl⟩ | hadmin
  · have hbound : BoundedCooldown ruleId w := by
      intro q hq hid
      obtain ⟨q₀, hq₀, rfl⟩ := List.mem_map.1 hq
      exact hok q₀ hq₀ hid
    exact (runAlertEvaluation_induction (remembers_passInvariant ruleId p env w) hkeys
      ⟨h, hbound⟩).1
  · refine drainDeliveryRetries_induction p env ?_ (fun _ => ?_) ?_
    · exact h.of_quiet (by simp) (World.now_le_advance w _) (by simp)
    · exact h.of_quiet (by simp [popped, World.popDueDeliveryRetries])
        (popped_waits p env w).now_le (by simp [popped, World.popDueDeliveryRetries])
    · intro v v' job ds _ hv hretried
      refine hv.of_quiet ?_ hretried.waits.now_le (by rw [hretried.throttle])
      rw [hretried.trace]
      exact firings_append_of_none ruleId _ (by simp)
  · exact h.of_quiet (by rw [hadmin.trace]) hadmin.now (by rw [hadmin.throttle])

/-- **Cooldowns of up to an hour are kept.** From the start of a process, in every
run whose passes meet the rule with a cooldown of at most an hour. -/
theorem cooldownKept_of_hourly (p : Platform) (ruleId : Uuid) (w : World) (steps : List Step)
    (hkeys : WellKeyed w) (hstart : w.trace = [])
    (hok : Runs.AllSteps (step p) (HourlyCooldown ruleId) w steps) :
    CooldownKept ruleId (run p w steps) := by
  have hinit : WellKeyed w ∧ Remembers ruleId w := by
    refine ⟨hkeys, ?_, ?_⟩
    · rw [CooldownKept, hstart]
      exact List.isChain_nil
    · rw [hstart]
      simp [firings]
  have hend := Runs.AllSteps.invariant (fun v => WellKeyed v ∧ Remembers ruleId v)
    (fun v s hv hs => ⟨hv.1.step s, hv.2.step hv.1 hs⟩) hok hinit
  exact hend.2.kept

theorem cooldownKept_of_hourly_sample :
    CooldownKept 7 (run samplePlatform (sampleWorld (sampleRule [] 300))
      [.evaluate (samplePass troubledReads 100), .evaluate (samplePass calmReads 101)]) :=
  cooldownKept_of_hourly samplePlatform 7 (sampleWorld (sampleRule [] 300)) _
    (wellKeyed_sampleWorld _) rfl
    ⟨by decide +kernel, by decide +kernel, trivial⟩

/-- An incident that resolves, and a second one an hour after the first. -/
def secondIncident : List Step :=
  [.evaluate (samplePass troubledReads 100), .wait (fromSecs 1800),
    .evaluate (samplePass calmReads 101), .evaluate (samplePass calmReads 102),
    .wait (fromSecs 1800), .evaluate (samplePass calmReads 103),
    .evaluate (samplePass troubledReads 104)]

/-- A cooldown of two hours is forgotten after one. -/
theorem not_cooldownKept_two_hours :
    WellKeyed (sampleWorld (sampleRule [] 7200)) ∧
      ¬ CooldownKept 7 (run samplePlatform (sampleWorld (sampleRule [] 7200)) secondIncident) := by
  refine ⟨wellKeyed_sampleWorld _, ?_⟩
  have hfirings : firings 7
      (run samplePlatform (sampleWorld (sampleRule [] 7200)) secondIncident).trace =
        [(0, 7200), (3600 * 10 ^ 9, 7200)] := by decide +kernel
  rw [CooldownKept, hfirings]
  decide

end Feloxi.Alerting
