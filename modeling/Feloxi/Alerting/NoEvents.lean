import Feloxi.Alerting.Engine

/-!
# Feloxi.Alerting.NoEvents

At which age of the newest event a `no_events` rule fires. Its threshold is a number of minutes,
of 64 bits, as it was given to `create_rule`; the seconds are computed with 64 bits too, and
compared as a double.
-/

namespace Feloxi.Alerting

open F64 (IsDouble roundU64)

/-- A rule of so many minutes fires at the ages beyond them, and at no other. -/
def JudgesExactly (silenceMinutes : Nat) : Prop :=
  ∀ (ctx : EvaluationContext) (age : ℚ), IsDouble age → ctx.secondsSinceLastEvent = .fin age →
    (evaluateCondition (.noEvents silenceMinutes) ctx = true ↔
      ((60 * silenceMinutes : Nat) : ℚ) < age)

/-- The seconds fit 64 bits, and are not rounded up as a double. -/
def FitsThreshold (silenceMinutes : Nat) : Prop :=
  60 * silenceMinutes < 2 ^ 64 ∧ roundU64 (60 * silenceMinutes) ≤ 60 * silenceMinutes

instance (silenceMinutes : Nat) : Decidable (FitsThreshold silenceMinutes) :=
  inferInstanceAs (Decidable (_ ∧ _))

/-- The thresholds of 53 binary digits, among them every one that a form offers. -/
theorem fitsThreshold_of_lt {silenceMinutes : Nat} (h : 60 * silenceMinutes < 2 ^ 53) :
    FitsThreshold silenceMinutes := by
  refine ⟨h.trans (by decide), ?_⟩
  by_cases hzero : 60 * silenceMinutes = 0
  · rw [hzero, F64.roundU64_of_log2 (by decide)]
  · rw [F64.roundU64_of_log2 (Nat.lt_succ_iff.1 ((Nat.log2_lt hzero).2 h))]

theorem silenceSeconds_of_lt {silenceMinutes : Nat} (h : 60 * silenceMinutes < 2 ^ 64) :
    silenceSeconds silenceMinutes = 60 * silenceMinutes := by
  rw [silenceSeconds, Nat.mul_comm, Nat.mod_eq_of_lt h]

theorem evaluateCondition_noEvents {ctx : EvaluationContext} {age : ℚ}
    (h : ctx.secondsSinceLastEvent = .fin age) (silenceMinutes : Nat) :
    evaluateCondition (.noEvents silenceMinutes) ctx = true ↔
      (roundU64 (silenceSeconds silenceMinutes) : ℚ) < age := by
  simp [evaluateCondition, h, F64.gt, F64.lt, F64.ofU64]

/-- A context in which only the age of the newest event is set. -/
def contextOfAge (age : F64) : EvaluationContext :=
  { EvaluationContext.default with secondsSinceLastEvent := age }

/-- A threshold that has wrapped is passed by an age that the minutes are not. -/
theorem exists_age_of_wrapped {silenceMinutes : Nat} (h : 2 ^ 64 ≤ 60 * silenceMinutes) :
    ∃ age : Nat, IsDouble age ∧ roundU64 (silenceSeconds silenceMinutes) < age ∧
      age ≤ 60 * silenceMinutes := by
  have hlt : silenceSeconds silenceMinutes < 2 ^ 64 := Nat.mod_lt _ (by decide)
  have hround : roundU64 (silenceSeconds silenceMinutes) ≤ roundU64 (2 ^ 64) :=
    F64.roundU64_mono hlt.le
  have hmax : roundU64 (2 ^ 64) = 1 * 2 ^ 64 := by decide
  by_cases hsmall : roundU64 (silenceSeconds silenceMinutes) < 1 * 2 ^ 64
  · exact ⟨1 * 2 ^ 64, F64.isDouble_natCast_mul_pow (by decide) (by decide), hsmall, by omega⟩
  · -- the wrapped seconds are so close to the bound that they are rounded to it
    have hfar : 2 ^ 53 ≤ silenceSeconds silenceMinutes := by
      by_contra hnear
      have := F64.roundU64_mono (Nat.le_of_lt (Nat.lt_of_not_le hnear))
      have hexact : roundU64 (2 ^ 53) = 2 ^ 53 := by decide
      omega
    refine ⟨(2 ^ 52 + 1) * 2 ^ 12, F64.isDouble_natCast_mul_pow (by decide) (by decide),
      by omega, ?_⟩
    have hdiv := Nat.div_add_mod (silenceMinutes * 60) (2 ^ 64)
    have hpos : 0 < silenceMinutes * 60 / 2 ^ 64 := Nat.div_pos (by omega) (by decide)
    rw [silenceSeconds] at hfar
    omega

theorem judgesExactly_iff (silenceMinutes : Nat) :
    JudgesExactly silenceMinutes ↔ FitsThreshold silenceMinutes := by
  constructor
  · intro h
    have hfires : ∀ age : Nat, IsDouble age →
        ((roundU64 (silenceSeconds silenceMinutes) : ℚ) < age ↔
          ((60 * silenceMinutes : Nat) : ℚ) < age) := by
      intro age hage
      have hctx : (contextOfAge (.fin age)).secondsSinceLastEvent = .fin age := rfl
      rw [← evaluateCondition_noEvents hctx]
      exact h _ _ hage hctx
    have hlt : 60 * silenceMinutes < 2 ^ 64 := by
      by_contra hge
      obtain ⟨age, hage, hbeyond, hwithin⟩ := exists_age_of_wrapped (Nat.not_lt.1 hge)
      have := Nat.cast_lt.1 ((hfires age hage).1 (Nat.cast_lt.2 hbeyond))
      omega
    refine ⟨hlt, ?_⟩
    -- what the seconds are rounded up to would be an age beyond them, at which the rule is quiet
    by_contra hup
    have hquiet := hfires (roundU64 (60 * silenceMinutes)) (F64.isDouble_roundU64 hlt)
    rw [silenceSeconds_of_lt hlt] at hquiet
    exact lt_irrefl _ (hquiet.2 (Nat.cast_lt.2 (Nat.not_le.1 hup)))
  · intro ⟨hlt, hdown⟩ ctx age hage hctx
    rw [evaluateCondition_noEvents hctx, silenceSeconds_of_lt hlt]
    exact F64.roundU64_lt_iff hdown hage

/-- More minutes that fit 64 bits as seconds do not make a quiet rule fire. -/
theorem noEvents_quiet_mono {m m' : Nat} (h : m ≤ m') (hlt : 60 * m' < 2 ^ 64)
    {ctx : EvaluationContext} (hquiet : evaluateCondition (.noEvents m) ctx = false) :
    evaluateCondition (.noEvents m') ctx = false := by
  have hle : roundU64 (60 * m) ≤ roundU64 (60 * m') :=
    F64.roundU64_mono (Nat.mul_le_mul_left 60 h)
  have hm : silenceSeconds m = 60 * m := silenceSeconds_of_lt (by omega)
  have hm' : silenceSeconds m' = 60 * m' := silenceSeconds_of_lt hlt
  simp only [evaluateCondition, hm, hm', F64.gt, F64.ofU64] at hquiet ⊢
  cases hage : ctx.secondsSinceLastEvent with
  | nan => rfl
  | inf neg =>
      rw [hage] at hquiet
      exact hquiet
  | fin age =>
      rw [hage] at hquiet
      have hcast : (roundU64 (60 * m) : ℚ) ≤ roundU64 (60 * m') := Nat.cast_le.2 hle
      exact decide_eq_false fun hlt => of_decide_eq_false hquiet (hcast.trans_lt hlt)

/-- **The silence threshold.** A rule fires exactly at the ages beyond its minutes if and only if
its seconds fit 64 bits and are not rounded up; and as long as the seconds fit 64 bits, raising
the minutes does not make a quiet rule fire. -/
theorem noEvents_judgesExactly_iff (silenceMinutes : Nat) :
    (JudgesExactly silenceMinutes ↔ FitsThreshold silenceMinutes) ∧
      ∀ raised : Nat, silenceMinutes ≤ raised → 60 * raised < 2 ^ 64 →
        ∀ ctx : EvaluationContext, evaluateCondition (.noEvents silenceMinutes) ctx = false →
          evaluateCondition (.noEvents raised) ctx = false :=
  ⟨judgesExactly_iff silenceMinutes, fun _ h hlt _ hquiet => noEvents_quiet_mono h hlt hquiet⟩

/-- The seconds of `2 ^ 64 / 60` minutes, rounded up, wrap to 44: the rule fires after 45 seconds,
where a rule of one minute is quiet. -/
theorem not_judgesExactly_wrapped :
    evaluateCondition (.noEvents 307445734561825861) (contextOfAge (.fin 45)) = true ∧
      ¬ ((60 * 307445734561825861 : Nat) : ℚ) < 45 ∧
      evaluateCondition (.noEvents 1) (contextOfAge (.fin 45)) = false ∧
      ¬ JudgesExactly 307445734561825861 := by
  refine ⟨by decide, by norm_num, by decide, ?_⟩
  intro h
  have hage : IsDouble 45 := ⟨45, 0, by norm_num⟩
  have := (h (contextOfAge (.fin 45)) 45 hage rfl).1 (by decide)
  norm_num at this

end Feloxi.Alerting
