import Feloxi.Alerting.Keys

/-!
# Feloxi.Alerting.Focus

A pass as seen by one rule (`runAlertEvaluation_focus`). A rule has at most one
turn in a pass, or its incident is closed for it once; everything before and
after that leaves the rule's rows, its clear streak and its events alone. So what
a pass does to a rule is what one outcome of the loop body does.
-/

namespace Feloxi.Alerting

/-- What happens aside of a rule. -/
structure Aside (tenantId ruleId : Uuid) (w w' : World) : Prop where
  follows : Follows w w'
  spares : Spares ruleId w w'
  rows : w'.rows tenantId ruleId = w.rows tenantId ruleId
  streak : w'.resolver.clearStreaks ruleId = w.resolver.clearStreaks ruleId

namespace Aside

variable {t r : Uuid} {w₁ w₂ w₃ : World}

theorem refl (t r : Uuid) (w : World) : Aside t r w w := ⟨.refl w, .refl _ w, rfl, rfl⟩

theorem trans (h : Aside t r w₁ w₂) (h' : Aside t r w₂ w₃) : Aside t r w₁ w₃ :=
  ⟨h.follows.trans h'.follows, h.spares.trans h'.spares, h'.rows.trans h.rows,
    h'.streak.trans h.streak⟩

theorem advance (t r : Uuid) (w : World) (c : Call) : Aside t r w (w.advance c) where
  follows := .advance w c
  spares := .of_trace_eq (World.advance_trace w c)
  rows := by simp only [World.rows, World.advance_alertHistory]
  streak := by rw [World.advance_resolver]

theorem openRows (h : Aside t r w₁ w₂) : w₂.openRows t r = w₁.openRows t r := by
  rw [World.openRows_eq, World.openRows_eq, h.rows]

end Aside

theorem SilentlyClosed.aside {env : PassEnv} {tenantId ruleId : Uuid} {w w' : World}
    (h : SilentlyClosed env tenantId ruleId w w') {t r : Uuid} (hne : r ≠ ruleId) :
    Aside t r w w' where
  follows := h.follows
  spares := h.spares hne
  rows := h.rows_of_ne fun hsame => hne hsame.2
  streak := by rw [h.resolver, ResolveTracker.forget_of_ne _ hne]

theorem RuleStep.aside {env : PassEnv} {tp : TenantPass} {rule : AlertRule} {fired : Bool}
    {w w' : World} (h : RuleStep env tp rule fired w w') {t r : Uuid} (hne : r ≠ rule.id) :
    Aside t r w w' where
  follows := h.follows
  spares := h.spares hne
  rows := h.rows_of_ne fun hsame => hne hsame.2
  streak := h.clearStreaks_of_ne hne

/-- What a pass that began in `start` has done to a rule. -/
inductive RulePass (p : Platform) (env : PassEnv) (start : World) (q : AlertRule) : World → Prop
  /-- Nothing. -/
  | aside {w' : World} : Aside q.tenantId q.id start w' → RulePass p env start q w'
  /-- Its incident was closed without a notice. -/
  | closed {tenant : Tenant} {w₁ w₂ w' : World} : tenant ∈ passTenants env start →
      tenant.id = q.tenantId → Aside q.tenantId q.id start w₁ → AtGone env start tenant q.id w₁ →
      SilentlyClosed env tenant.id q.id w₁ w₂ → Aside q.tenantId q.id w₂ w' →
      RulePass p env start q w'
  /-- It had its turn. -/
  | turned {turn : Turn} {w₂ w' : World} : turn ∈ passTurns p env start → turn.rule.config = q →
      Aside q.tenantId q.id start turn.world → AtRule env start turn.pass turn.rule turn.world →
      RuleStep env turn.pass turn.rule (turn.fires p env) turn.world w₂ →
      Aside q.tenantId q.id w₂ w' → RulePass p env start q w'

section Focus

variable {p : Platform} {env : PassEnv} {start : World} {q : AlertRule}

theorem RulePass.then_aside {w w' : World} (h : RulePass p env start q w)
    (hw : Aside q.tenantId q.id w w') : RulePass p env start q w' := by
  cases h with
  | aside h => exact .aside (h.trans hw)
  | closed htenant hof h hat hclosed h' => exact .closed htenant hof h hat hclosed (h'.trans hw)
  | turned hturn hq h hat hstep h' => exact .turned hturn hq h hat hstep (h'.trans hw)

/-- A rule nothing has been said about was left aside. -/
theorem RulePass.aside_of_spares {w' : World} (h : RulePass p env start q w')
    (hspares : Spares q.id start w') : Aside q.tenantId q.id start w' := by
  obtain ⟨events, hevents, hsilent⟩ := hspares
  -- An event about the rule in the middle of the new trace contradicts `hsilent`.
  have hno : ∀ (before after : List Event) (e : Event), e.rule = q.id →
      w'.trace = start.trace ++ (before ++ e :: after) → False := by
    intro before after e he htrace
    have hsame : events = before ++ e :: after :=
      List.append_cancel_left (hevents.symm.trans htrace)
    exact hsilent e (by rw [hsame]; simp) he
  cases h with
  | aside h => exact h
  | @closed tenant w₁ w₂ _ htenant hof h hat hclosed h' =>
      obtain ⟨first, hfirst, -⟩ := h.spares
      obtain ⟨last, hlast, -⟩ := h'.spares
      rw [hclosed.trace, hfirst, List.append_assoc, List.append_assoc] at hlast
      exact (hno first _ (.silentClose tenant.id q.id _) rfl hlast).elim
  | @turned turn w₂ _ hturn hq h hat hstep h' =>
      obtain ⟨first, hfirst, -⟩ := h.spares
      obtain ⟨middle, hmiddle, -⟩ := hstep.trace
      obtain ⟨last, hlast, -⟩ := h'.spares
      rw [hmiddle, hfirst, List.append_assoc, List.append_assoc] at hlast
      have hid : turn.rule.config.id = q.id := by rw [hq]
      exact (hno first _ (.evaluated turn.pass.tenant.id turn.rule.id _ _) hid hlast).elim

theorem rulePass_passInvariant (hkeys : WellKeyed start) (hq : q ∈ start.configs) :
    PassInvariant p env start (RulePass p env start q) where
  wait w pt h := h.then_aside (.advance _ _ w _)
  gone tenant htenant w w' r h hat hclosed := by
    by_cases hr : r = q.id
    · subst hr
      obtain ⟨row, hrow⟩ := List.exists_mem_of_ne_nil _ (hat.untouched ▸ hat.opened)
      obtain ⟨hmem, hopen⟩ := List.mem_filter.1 hrow
      simp only [AlertHistoryRow.isOpenFor, Bool.and_eq_true, beq_iff_eq] at hopen
      obtain ⟨q', hq', hid, hof⟩ := hkeys.history row hmem
      obtain rfl := hkeys.unique hq hq' (hid.trans hopen.1.2).symm
      exact .closed htenant (hof.trans hopen.1.1).symm (h.aside_of_spares hat.spared) hat hclosed
        (.refl _ _ w')
    · exact h.then_aside (hclosed.aside (Ne.symm hr))
  rule turn hturn w' h hat hstep := by
    by_cases hr : turn.rule.id = q.id
    · have hconfig : turn.rule.config ∈ start.configs := hat.follows.configs ▸ hat.configured
      have hsame : turn.rule.config = q := hkeys.unique hconfig hq hr
      exact .turned hturn hsame (h.aside_of_spares (hr ▸ hat.spared)) hat hstep (.refl _ _ w')
    · exact h.then_aside (hstep.aside (Ne.symm hr))
  cleanup w h := h.then_aside
    ⟨⟨rfl, rfl, Nat.le_refl _, List.prefix_refl _⟩, .of_trace_eq rfl, rfl, rfl⟩

/-- **A pass as seen by one rule.** -/
theorem runAlertEvaluation_focus (hkeys : WellKeyed start) (hq : q ∈ start.configs) :
    RulePass p env start q (runAlertEvaluation p env start) :=
  runAlertEvaluation_induction (rulePass_passInvariant hkeys hq) hkeys (.aside (.refl _ _ start))

end Focus

end Feloxi.Alerting
