import Feloxi.Alerting.Evaluation
import Feloxi.Lib.Runs

/-!
# Feloxi.Alerting.Waiting

What the loops change besides the incident state they are about: the clock and
the silences, through the calls they wait for.

`Waits C w w'` says that the clock and the silences of `w'` are those of `w`
after some calls of kind `C`, and that tenants and rules (up to their last
firing) are untouched. It is reflexive and transitive, so it is read off a loop
one statement at a time; what else happens to the world on the way is free.
-/

namespace Feloxi.Alerting

/-- A rule without the column the loop itself writes. -/
def AlertRule.config (rule : AlertRule) : AlertRule := { rule with lastFiredAt := none }

namespace World

/-- The rules as they were configured. -/
def configs (w : World) : List AlertRule := w.alertRules.map AlertRule.config

/-- The state after waiting for the calls of a list. -/
def waitAll (w : World) (calls : List Call) : World := calls.foldl advance w

@[simp] theorem waitAll_nil (w : World) : w.waitAll [] = w := rfl

theorem waitAll_append (w : World) (first second : List Call) :
    w.waitAll (first ++ second) = (w.waitAll first).waitAll second :=
  List.foldl_append

theorem now_le_waitAll (w : World) (calls : List Call) : w.now ≤ (w.waitAll calls).now := by
  induction calls generalizing w with
  | nil => exact Nat.le_refl _
  | cons c rest ih => exact Nat.le_trans (now_le_advance w c) (ih (w.advance c))

/-! ### The clock depends on little

Time and silences after a wait are determined by time, silences and the ids and
tenants of the rules before it. -/

/-- Two worlds with one clock. -/
structure SameClock (w₁ w₂ : World) : Prop where
  now : w₁.now = w₂.now
  alertSilences : w₁.alertSilences = w₂.alertSilences
  configs : w₁.configs = w₂.configs

/-- Whether a rule belongs to a tenant is a matter of the configuration. -/
theorem any_owned_eq (w : World) (tenantId r : Uuid) :
    (w.alertRules.any fun q => q.id == r && q.tenantId == tenantId) =
      w.configs.any fun q => q.id == r && q.tenantId == tenantId := by
  rw [configs, List.any_map]
  rfl

theorem SameClock.applySilenceOp {w₁ w₂ : World} (h : SameClock w₁ w₂) (op : SilenceOp) :
    SameClock (w₁.applySilenceOp op) (w₂.applySilenceOp op) := by
  cases op with
  | create tenantId ruleId durationMinutes id =>
      simp only [World.applySilenceOp, createSilence, any_owned_eq, h.configs, h.alertSilences]
      split
      · exact h
      · exact ⟨h.now, by simp only [h.now], h.configs⟩
  | expire tenantId id =>
      refine ⟨h.now, ?_, h.configs⟩
      simp only [World.applySilenceOp, expireSilence, h.alertSilences, h.now]

theorem SameClock.advance {w₁ w₂ : World} (h : SameClock w₁ w₂) (c : Call) :
    SameClock (w₁.advance c) (w₂.advance c) := by
  have hlanded : ∀ (landed : List (Nat × SilenceOp)) {w₁ w₂ : World}, SameClock w₁ w₂ →
      SameClock
        (landed.foldl (fun w l => { w with now := w.now + l.1 }.applySilenceOp l.2) w₁)
        (landed.foldl (fun w l => { w with now := w.now + l.1 }.applySilenceOp l.2) w₂) := by
    intro landed
    induction landed with
    | nil => exact fun h => h
    | cons l rest ih =>
        intro w₁ w₂ h
        have hlater : SameClock { w₁ with now := w₁.now + l.1 } { w₂ with now := w₂.now + l.1 } :=
          ⟨by simp only [h.now], h.alertSilences, h.configs⟩
        exact ih (hlater.applySilenceOp l.2)
  have hland := hlanded c.landed h
  exact ⟨by simp only [World.advance, hland.now], hland.alertSilences, hland.configs⟩

theorem SameClock.waitAll {w₁ w₂ : World} (h : SameClock w₁ w₂) (calls : List Call) :
    SameClock (w₁.waitAll calls) (w₂.waitAll calls) := by
  induction calls generalizing w₁ w₂ with
  | nil => exact h
  | cons c rest ih => exact ih (h.advance c)

@[simp] theorem waitAll_tenants (w : World) (calls : List Call) :
    (w.waitAll calls).tenants = w.tenants :=
  Runs.foldl_frame World.tenants (fun w c _ => advance_tenants w c) w

@[simp] theorem waitAll_alertRules (w : World) (calls : List Call) :
    (w.waitAll calls).alertRules = w.alertRules :=
  Runs.foldl_frame World.alertRules (fun w c _ => advance_alertRules w c) w

end World

/-! ### Waiting -/

/-- From `w` to `w'` only calls of kind `C` were waited for. -/
structure Waits (C : Call → Prop) (w w' : World) : Prop where
  tenants : w'.tenants = w.tenants
  configs : w'.configs = w.configs
  clock : ∃ calls, (∀ c ∈ calls, C c) ∧ w'.now = (w.waitAll calls).now ∧
    w'.alertSilences = (w.waitAll calls).alertSilences

namespace Waits

variable {C : Call → Prop} {w w₁ w₂ w₃ : World}

/-- A statement that leaves clock, silences, tenants and rules alone. -/
theorem of_same (htenants : w₂.tenants = w₁.tenants) (hconfigs : w₂.configs = w₁.configs)
    (hnow : w₂.now = w₁.now) (hsilences : w₂.alertSilences = w₁.alertSilences) :
    Waits C w₁ w₂ :=
  ⟨htenants, hconfigs, [], by simp, hnow, hsilences⟩

theorem refl (C : Call → Prop) (w : World) : Waits C w w := of_same rfl rfl rfl rfl

theorem advance {c : Call} (hc : C c) (w : World) : Waits C w (w.advance c) :=
  ⟨World.advance_tenants w c, by rw [World.configs, World.advance_alertRules]; rfl, [c],
    by simpa using hc, rfl, rfl⟩

theorem trans (h₁ : Waits C w₁ w₂) (h₂ : Waits C w₂ w₃) : Waits C w₁ w₃ := by
  obtain ⟨first, hfirst, hnow₁, hsil₁⟩ := h₁.clock
  obtain ⟨second, hsecond, hnow₂, hsil₂⟩ := h₂.clock
  have hsame : World.SameClock w₂ (w₁.waitAll first) :=
    ⟨hnow₁, hsil₁, by rw [h₁.configs, World.configs, World.configs, World.waitAll_alertRules]⟩
  have hafter := hsame.waitAll second
  refine ⟨h₂.tenants.trans h₁.tenants, h₂.configs.trans h₁.configs, first ++ second, ?_, ?_, ?_⟩
  · intro c hc
    exact (List.mem_append.1 hc).elim (hfirst c) (hsecond c)
  · rw [World.waitAll_append, hnow₂, hafter.now]
  · rw [World.waitAll_append, hsil₂, hafter.alertSilences]

theorem mono {C' : Call → Prop} (hC : ∀ c, C c → C' c) (h : Waits C w₁ w₂) : Waits C' w₁ w₂ := by
  obtain ⟨calls, hcalls, hclock⟩ := h.clock
  exact ⟨h.tenants, h.configs, calls, fun c hc => hC c (hcalls c hc), hclock⟩

theorem now_le (h : Waits C w₁ w₂) : w₁.now ≤ w₂.now := by
  obtain ⟨calls, -, hnow, -⟩ := h.clock
  rw [hnow]
  exact World.now_le_waitAll w₁ calls

/-- A statement after a wait. -/
theorem then_same (h : Waits C w₁ w₂) (htenants : w₃.tenants = w₂.tenants)
    (hconfigs : w₃.configs = w₂.configs) (hnow : w₃.now = w₂.now)
    (hsilences : w₃.alertSilences = w₂.alertSilences) : Waits C w₁ w₃ :=
  h.trans (of_same htenants hconfigs hnow hsilences)

theorem then_advance (h : Waits C w₁ w₂) {c : Call} (hc : C c) : Waits C w₁ (w₂.advance c) :=
  h.trans (advance hc w₂)

end Waits

@[simp] theorem World.emit_waits (C : Call → Prop) (w : World) (e : Event) :
    Waits C w (w.emit e) :=
  .of_same rfl rfl rfl rfl

theorem World.touchRule_waits (C : Call → Prop) (w : World) (ruleId : Uuid) :
    Waits C w (w.touchRule ruleId) := by
  refine .of_same rfl ?_ rfl rfl
  simp only [World.configs, World.touchRule, List.map_map]
  refine List.map_congr_left fun r _ => ?_
  by_cases hr : r.id = ruleId
  · simp [AlertRule.config, hr]
  · simp [hr]

end Feloxi.Alerting
