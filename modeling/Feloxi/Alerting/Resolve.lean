import Feloxi.Alerting.Focus

/-!
# Feloxi.Alerting.Resolve

When an incident resolves. The clear streak of a rule in memory is the replay of
the rule's evaluations and forgets in the trace (`Tracked`), and an incident opens
only at a firing evaluation, which breaks the streak (`OpensFiring`). So a streak
that reaches the threshold consists of clear evaluations made while every incident
now open was already open.
-/

namespace Feloxi.Alerting

/-! ### Replaying the streak -/

/-- What an event means for the clear streak of a rule. -/
inductive Signal where
  /-- A clear evaluation with an incident open. -/
  | clear
  /-- Any other evaluation of the rule, and every forget. -/
  | broken
  deriving Repr, DecidableEq

/-- The signal of an event, if it is an evaluation or a forget of the rule. -/
def Event.signal (ruleId : Uuid) : Event → Option Signal
  | .evaluated _ r fired openSince =>
    if r = ruleId then some (if !fired && openSince.isSome then .clear else .broken) else none
  | .forgot r => if r = ruleId then some .broken else none
  | _ => none

/-- A streak after a signal. -/
def nextClearStreak (streak : Option Nat) : Option Signal → Option Nat
  | none => streak
  | some .clear => some (streak.getD 0 + 1)
  | some .broken => none

/-- The clear streak of a rule, replayed from a trace. -/
def clearStreak (ruleId : Uuid) (trace : List Event) : Option Nat :=
  trace.foldl (fun streak e => nextClearStreak streak (e.signal ruleId)) none

section Replay

variable {r : Uuid}

theorem Event.signal_of_rule_ne {e : Event} (h : e.rule ≠ r) : e.signal r = none := by
  cases e with
  | evaluated t r' fired since => exact if_neg h
  | forgot r' => exact if_neg h
  | silentClose => rfl
  | delivery => rfl
  | opened => rfl
  | resolved => rfl
  | fireRecorded => rfl
  | alertFired => rfl
  | alertResolved => rfl

theorem Event.signal_eq_clear {e : Event} (h : e.signal r = some .clear) :
    ∃ t since, e = .evaluated t r false (some since) := by
  cases e with
  | evaluated t r' fired since =>
      simp only [signal] at h
      split at h
      · rename_i hr
        subst hr
        cases fired <;> cases since <;> simp at h
        exact ⟨t, _, rfl⟩
      · cases h
  | forgot r' =>
      simp only [signal] at h
      split at h <;> cases h
  | silentClose => cases h
  | delivery => cases h
  | opened => cases h
  | resolved => cases h
  | fireRecorded => cases h
  | alertFired => cases h
  | alertResolved => cases h

theorem clearStreak_concat (trace : List Event) (e : Event) :
    clearStreak r (trace ++ [e]) = nextClearStreak (clearStreak r trace) (e.signal r) := by
  rw [clearStreak, List.foldl_append]
  rfl

/-- Events without a signal leave the streak alone. -/
theorem clearStreak_append_of_none (trace : List Event) {events : List Event}
    (h : ∀ e ∈ events, e.signal r = none) : clearStreak r (trace ++ events) = clearStreak r trace := by
  rw [clearStreak, List.foldl_append]
  refine Runs.foldl_frame id (fun streak e he => ?_) _
  rw [h e he]
  rfl

/-- A streak ends in a clear evaluation with no signal after it. -/
theorem exists_last_clear {trace : List Event} {n : Nat} (h : clearStreak r trace = some n) :
    ∃ before t since after, trace = before ++ .evaluated t r false (some since) :: after ∧
      (∀ e ∈ after, e.signal r = none) ∧ n = (clearStreak r before).getD 0 + 1 := by
  induction trace using List.reverseRecOn with
  | nil => cases h
  | append_singleton trace e ih =>
      rw [clearStreak_concat] at h
      cases hsignal : e.signal r with
      | none =>
          rw [hsignal] at h
          obtain ⟨before, t, since, after, htrace, hafter, hn⟩ := ih h
          refine ⟨before, t, since, after ++ [e], by rw [htrace]; simp, fun e' he' => ?_, hn⟩
          rcases List.mem_append.1 he' with hold | hlast
          · exact hafter e' hold
          · rw [List.mem_singleton.1 hlast]
            exact hsignal
      | some signal => cases signal with
        | clear =>
            obtain ⟨t, since, rfl⟩ := Event.signal_eq_clear hsignal
            rw [hsignal] at h
            exact ⟨trace, t, since, [], rfl, by simp, (Option.some.inj h).symm⟩
        | broken =>
            rw [hsignal] at h
            cases h

/-- A clear evaluation with no signal after it leaves a streak. -/
theorem clearStreak_of_last_clear (before : List Event) (t : Uuid) (since : Instant)
    {after : List Event} (h : ∀ e ∈ after, e.signal r = none) :
    clearStreak r (before ++ .evaluated t r false (some since) :: after) =
      some ((clearStreak r before).getD 0 + 1) := by
  rw [List.append_cons, clearStreak_append_of_none _ h, clearStreak_concat]
  simp [Event.signal, nextClearStreak]

end Replay

/-! ### The streak in memory -/

/-- The streaks in memory are those of the trace. -/
def Tracked (w : World) : Prop := ∀ r, w.resolver.clearStreaks r = clearStreak r w.trace

theorem Tracked.of_none {w w' : World} (h : Tracked w) (hresolver : w'.resolver = w.resolver)
    {events : List Event} (htrace : w'.trace = w.trace ++ events)
    (hevents : ∀ e ∈ events, ∀ r, e.signal r = none) : Tracked w' := by
  intro r
  rw [hresolver, htrace, clearStreak_append_of_none _ fun e he => hevents e he r]
  exact h r

theorem Tracked.closed {env : PassEnv} {tenantId ruleId : Uuid} {w w' : World} (h : Tracked w)
    (hclosed : SilentlyClosed env tenantId ruleId w w') : Tracked w' := by
  intro r
  rw [hclosed.resolver, hclosed.trace]
  by_cases hr : r = ruleId
  · subst hr
    rw [ResolveTracker.forget_self, List.append_cons, clearStreak_concat]
    simp [Event.signal, nextClearStreak]
  · rw [ResolveTracker.forget_of_ne _ hr, h r, clearStreak_append_of_none]
    simp [Event.signal, Ne.symm hr]

theorem Tracked.rule {env : PassEnv} {tp : TenantPass} {rule : AlertRule} {fired : Bool}
    {w w' : World} (h : Tracked w) (hstep : RuleStep env tp rule fired w w') : Tracked w' := by
  intro r
  by_cases hr : r = rule.id
  · subst hr
    have hfires : clearStreak rule.id (fires env tp rule w).trace = none := by
      rw [fires_trace, clearStreak_concat]
      simp [Event.signal, nextClearStreak]
    cases hstep with
    | stillFiring => rw [hfires, fires, ResolveTracker.recordFiring_self]
    | throttled => rw [hfires, fires, ResolveTracker.recordFiring_self]
    | raised _ _ _ hraised =>
        rw [hraised.resolver, hraised.trace, clearStreak_append_of_none, hfires, fires,
          ResolveTracker.recordFiring_self]
        intro e he
        simp only [List.mem_append, List.mem_map, List.mem_cons, List.not_mem_nil, or_false] at he
        rcases he with ⟨d, -, rfl⟩ | ⟨h₀, -, rfl⟩ | rfl | rfl
        · rfl
        · rfl
        · rfl
        · rfl
    | waiting _ hopen =>
        rw [counts_trace, clearStreak_concat, counts, ResolveTracker.recordClear_self, hopen]
        simp [Event.signal, nextClearStreak, ResolveTracker.nextStreak, h rule.id]
    | resolved _ _ _ hres =>
        rw [hres.resolver, hres.trace, ResolveTracker.forget_self, List.append_cons,
          List.append_cons, clearStreak_append_of_none, clearStreak_concat]
        · simp [Event.signal, nextClearStreak]
        · intro e he
          simp only [List.mem_append, List.mem_map, List.mem_cons, List.not_mem_nil, or_false] at he
          rcases he with ⟨d, -, rfl⟩ | rfl
          · rfl
          · rfl
    | quiet =>
        rw [forgets_trace, List.append_cons, clearStreak_concat]
        simp [forgets, World.emit, Event.signal, nextClearStreak]
  · obtain ⟨events, htrace, hrule⟩ := hstep.events
    rw [hstep.clearStreaks_of_ne hr, htrace, clearStreak_append_of_none, h r]
    intro e he
    exact Event.signal_of_rule_ne fun heq => hr (heq.symm.trans (hrule e he).1)

/-! ### Incidents open at firing evaluations -/

/-- Every incident of a trace opens while its rule has no clear streak. -/
def OpensFiring (trace : List Event) : Prop :=
  ∀ before t r row firing after, trace = before ++ .opened t r row firing :: after →
    clearStreak r before = none

theorem OpensFiring.append {trace events : List Event} (h : OpensFiring trace)
    (hevents : ∀ before t r row firing after, events = before ++ .opened t r row firing :: after →
      clearStreak r (trace ++ before) = none) : OpensFiring (trace ++ events) := by
  intro before t r row firing after hsplit
  rcases Runs.append_eq_append_cons hsplit with ⟨middle, hold, -⟩ | ⟨first, rfl, hnew⟩
  · exact h before t r row firing middle hold
  · exact hevents first t r row firing after hnew

/-- Events that open nothing. -/
theorem OpensFiring.append_of_ne {trace events : List Event} (h : OpensFiring trace)
    (hevents : ∀ e ∈ events, ∀ t r row firing, e ≠ .opened t r row firing) :
    OpensFiring (trace ++ events) := by
  refine h.append fun before t r row firing after hsplit => ?_
  exact absurd rfl (hevents _ (by rw [hsplit]; simp) t r row firing)

theorem OpensFiring.rule {env : PassEnv} {tp : TenantPass} {rule : AlertRule} {fired : Bool}
    {w w' : World} (h : OpensFiring w.trace) (hstep : RuleStep env tp rule fired w w') :
    OpensFiring w'.trace := by
  have hfires : OpensFiring (fires env tp rule w).trace := by
    rw [fires_trace]
    exact h.append_of_ne (by simp)
  have hcounts : OpensFiring (counts env tp rule w).trace := by
    rw [counts_trace]
    exact h.append_of_ne (by simp)
  cases hstep with
  | stillFiring => exact hfires
  | throttled => exact hfires
  | waiting => exact hcounts
  | quiet =>
      rw [forgets_trace]
      exact h.append_of_ne (by simp)
  | resolved _ _ _ hres =>
      rw [hres.trace]
      refine hcounts.append_of_ne ?_
      intro e he t r row firing
      simp only [List.mem_append, List.mem_map, List.mem_cons, List.not_mem_nil, or_false] at he
      rcases he with rfl | rfl | ⟨d, -, rfl⟩ | rfl <;> simp
  | raised _ _ _ hraised =>
      rw [hraised.trace]
      refine hfires.append fun before t r row firing after hsplit => ?_
      have hnone : ∀ e ∈ before ++ Event.opened t r row firing :: after, ∀ r', e.signal r' = none := by
        rw [← hsplit]
        intro e he r'
        simp only [List.mem_append, List.mem_map, List.mem_cons, List.not_mem_nil, or_false] at he
        rcases he with ⟨d, -, rfl⟩ | ⟨h₀, -, rfl⟩ | rfl | rfl <;> rfl
      have hrule : r = rule.id := by
        have hmem : Event.opened t r row firing ∈ before ++ Event.opened t r row firing :: after := by
          simp
        rw [← hsplit] at hmem
        simp only [List.mem_append, List.mem_map, List.mem_cons, List.not_mem_nil, or_false] at hmem
        rcases hmem with ⟨d, -, hd⟩ | ⟨h₀, -, hopened⟩ | hfired | hrecorded
        · cases hd
        · cases hopened
          rfl
        · cases hfired
        · cases hrecorded
      rw [clearStreak_append_of_none _ fun e he => hnone e (List.mem_append_left _ he) r,
        fires_trace, clearStreak_concat, hrule]
      simp [Event.signal, nextClearStreak]

/-- Every row was there at the start (`ids`) or its opening is in the trace. -/
def Recorded (ids : List Uuid) (history : List AlertHistoryRow) (trace : List Event) : Prop :=
  ∀ h ∈ history, h.id ∈ ids ∨ ∃ firing, .opened h.tenantId h.ruleId h.id firing ∈ trace

theorem Recorded.of_keys {ids : List Uuid} {history history' : List AlertHistoryRow}
    {trace trace' : List Event} (h : Recorded ids history trace)
    (hkeys : history'.map (·.key) = history.map (·.key)) (htrace : trace <+: trace') :
    Recorded ids history' trace' := by
  intro row hrow
  obtain ⟨row₀, hrow₀, hid, htenant, hrule⟩ := exists_key_eq hkeys hrow
  rw [← hid, ← htenant, ← hrule]
  exact (h row₀ hrow₀).imp_right fun ⟨firing, hmem⟩ => ⟨firing, htrace.subset hmem⟩

theorem Recorded.rule {ids : List Uuid} {env : PassEnv} {tp : TenantPass} {rule : AlertRule}
    {fired : Bool} {w w' : World} (h : Recorded ids w.alertHistory w.trace)
    (hstep : RuleStep env tp rule fired w w') : Recorded ids w'.alertHistory w'.trace := by
  have htrace := hstep.follows.trace
  cases hstep with
  | stillFiring => exact h.of_keys (by rw [fires_alertHistory]) htrace
  | throttled => exact h.of_keys (by rw [fires_alertHistory]) htrace
  | waiting => exact h.of_keys (by rw [counts_alertHistory]) htrace
  | quiet => exact h.of_keys (by rw [forgets_alertHistory]) htrace
  | resolved _ _ _ hres =>
      obtain ⟨time, -, hhistory⟩ := hres.alertHistory
      exact h.of_keys (by rw [hhistory, closedHistory_map_key, counts_alertHistory]) htrace
  | raised _ _ _ hraised =>
      rename_i alert ds row _ _ _
      intro new hnew
      rw [hraised.alertHistory, fires_alertHistory] at hnew
      rcases List.mem_append.1 hnew with hold | hin
      · exact h.of_keys rfl htrace new hold
      · refine .inr ⟨(fires env tp rule w).trace.length, ?_⟩
        have hwritten := hraised.written new (by simpa using hin)
        rw [hraised.trace, hwritten.tenantId, hwritten.ruleId]
        simp only [List.mem_append, List.mem_map]
        exact .inr (.inr (.inl ⟨new, hin, rfl⟩))

/-! ### The invariant of a process -/

/-- What holds throughout a process that began with the rows `ids`. -/
structure StreakInvariant (ids : List Uuid) (w : World) : Prop where
  tracked : Tracked w
  opens : OpensFiring w.trace
  recorded : Recorded ids w.alertHistory w.trace

theorem streakInvariant_passInvariant (ids : List Uuid) (p : Platform) (env : PassEnv)
    (start : World) : PassInvariant p env start (StreakInvariant ids) where
  wait w pt h := {
    tracked := fun r => by rw [World.advance_resolver, World.advance_trace]; exact h.tracked r
    opens := by rw [World.advance_trace]; exact h.opens
    recorded := h.recorded.of_keys (by simp) (by simp) }
  gone tenant _ w w' r h _ hclosed := {
    tracked := h.tracked.closed hclosed
    opens := by
      rw [hclosed.trace]
      exact h.opens.append_of_ne (by simp)
    recorded := by
      obtain ⟨time, -, hhistory⟩ := hclosed.alertHistory
      exact h.recorded.of_keys (by rw [hhistory, closedHistory_map_key]) hclosed.follows.trace }
  rule turn _ w' h _ hstep := ⟨h.tracked.rule hstep, h.opens.rule hstep, h.recorded.rule hstep⟩
  cleanup w h := ⟨h.tracked, h.opens, h.recorded⟩

section Steps

variable {p : Platform} {ids : List Uuid} {w : World}

theorem StreakInvariant.drain (h : StreakInvariant ids w) (env : DrainEnv) :
    StreakInvariant ids (drainDeliveryRetries p env w) := by
  have hsame : ∀ w', w'.resolver = w.resolver → w'.alertHistory = w.alertHistory →
      w'.trace = w.trace → StreakInvariant ids w' := by
    intro w' hresolver hhistory htrace
    refine ⟨fun r => ?_, ?_, ?_⟩
    · rw [hresolver, htrace]
      exact h.tracked r
    · rw [htrace]
      exact h.opens
    · rw [hhistory, htrace]
      exact h.recorded
  refine drainDeliveryRetries_induction p env ?_ (fun _ => ?_) ?_
  · exact hsame _ (by simp) (by simp) (by simp)
  · exact hsame _ (by simp [popped, World.popDueDeliveryRetries])
      (by simp [popped, World.popDueDeliveryRetries]) (by simp [popped, World.popDueDeliveryRetries])
  · intro v v' job ds _ hv hretried
    refine ⟨hv.tracked.of_none hretried.resolver hretried.trace ?_, ?_, ?_⟩
    · intro e he r
      obtain ⟨d, -, rfl⟩ := List.mem_map.1 he
      rfl
    · rw [hretried.trace]
      refine hv.opens.append_of_ne fun e he => ?_
      obtain ⟨d, -, rfl⟩ := List.mem_map.1 he
      simp
    · refine hv.recorded.of_keys ?_ ⟨_, hretried.trace.symm⟩
      have hcore := congrArg (List.map AlertHistoryRow.key) hretried.coreHistory
      rw [World.coreHistory, World.coreHistory, List.map_map, List.map_map] at hcore
      exact hcore

theorem StreakInvariant.step (hkeys : WellKeyed w) (h : StreakInvariant ids w) (s : Step) :
    StreakInvariant ids (Alerting.step p w s) := by
  rcases step_cases p w s with ⟨env, rfl⟩ | ⟨env, rfl⟩ | hadmin
  · exact runAlertEvaluation_induction (streakInvariant_passInvariant ids p env w) hkeys h
  · exact h.drain env
  · refine ⟨fun r => ?_, ?_, fun row hrow => ?_⟩
    · rw [hadmin.resolver, hadmin.trace]
      exact h.tracked r
    · rw [hadmin.trace]
      exact h.opens
    · rw [hadmin.trace]
      exact h.recorded row (hadmin.alertHistory.subset hrow)

end Steps

/-- A process that begins without a past. -/
theorem streakInvariant_run (p : Platform) {w : World} (hkeys : WellKeyed w) (htrace : w.trace = [])
    (hresolver : w.resolver = .new) (steps : List Step) :
    WellKeyed (run p w steps) ∧ StreakInvariant (w.alertHistory.map (·.id)) (run p w steps) := by
  have hstart : StreakInvariant (w.alertHistory.map (·.id)) w := by
    refine ⟨fun r => by rw [hresolver, htrace]; rfl, ?_, fun row hrow => ?_⟩
    · intro before t r row firing after hsplit
      rw [htrace] at hsplit
      simp at hsplit
    · exact .inl (List.mem_map_of_mem hrow)
  have hstep : ∀ v s, WellKeyed v ∧ StreakInvariant (w.alertHistory.map (·.id)) v →
      WellKeyed (step p v s) ∧ StreakInvariant (w.alertHistory.map (·.id)) (step p v s) :=
    fun v s hv => ⟨hv.1.step s, hv.2.step hv.1 s⟩
  exact Runs.run_invariant _ hstep ⟨hkeys, hstart⟩ steps

/-! ### The resolve rule -/

/-- A row has been resolved. -/
def ResolvedIn (h : AlertHistoryRow) (w : World) : Prop :=
  ∃ h' ∈ w.alertHistory, h'.id = h.id ∧ h'.resolvedAt.isSome

/-- The incident of a row was open when a trace ended. -/
def OpenedBy (ids : List Uuid) (h : AlertHistoryRow) (trace : List Event) : Prop :=
  h.id ∈ ids ∨ ∃ firing, .opened h.tenantId h.ruleId h.id firing ∈ trace

/-- The pass (`events`) evaluated the rule of a row clear, and so did the
evaluation before (the last in `trace`), made while the incident was open, with
neither an evaluation nor a forget of the rule between the two. -/
def ClearTwice (ids : List Uuid) (h : AlertHistoryRow) (trace events : List Event) : Prop :=
  ∃ before t since after early since' late,
    trace = before ++ .evaluated t h.ruleId false (some since) :: after ∧
    events = early ++ .evaluated h.tenantId h.ruleId false since' :: late ∧
    (∀ e ∈ after ++ early, e.signal h.ruleId = none) ∧ OpenedBy ids h before

/-- The incidents now open were open at the last clear evaluation. -/
theorem StreakInvariant.openedBy {ids : List Uuid} {w : World} (hinv : StreakInvariant ids w)
    {h : AlertHistoryRow} (hh : h ∈ w.alertHistory) {before after : List Event} {t : Uuid}
    {since : Instant}
    (htrace : w.trace = before ++ .evaluated t h.ruleId false (some since) :: after)
    (hafter : ∀ e ∈ after, e.signal h.ruleId = none) : OpenedBy ids h before := by
  rcases hinv.recorded h hh with hold | ⟨firing, hopened⟩
  · exact .inl hold
  · refine .inr ⟨firing, ?_⟩
    rw [htrace] at hopened
    rcases List.mem_append.1 hopened with hin | hin
    · exact hin
    · -- Opened after the clear evaluation: then the rule had a streak.
      exfalso
      rcases List.mem_cons.1 hin with heq | hin
      · cases heq
      obtain ⟨first, second, rfl⟩ := List.append_of_mem hin
      have hnone := hinv.opens (before ++ .evaluated t h.ruleId false (some since) :: first)
        h.tenantId h.ruleId h.id firing second (by rw [htrace]; simp)
      rw [clearStreak_of_last_clear before t since fun e he =>
        hafter e (List.mem_append_left _ he)] at hnone
      cases hnone

section Pass

variable {p : Platform} {env : PassEnv} {ids : List Uuid} {w w' : World} {q : AlertRule}
  {h : AlertHistoryRow}

/-- A row that is still open has not been resolved. -/
theorem not_resolvedIn_of_mem (hkeys : WellKeyed w') {t r : Uuid} (hh : h ∈ w'.openRows t r) :
    ¬ ResolvedIn h w' := by
  rintro ⟨h', hh', hid, hresolved⟩
  obtain ⟨hmem, hopen⟩ := List.mem_filter.1 hh
  obtain rfl := List.inj_on_of_nodup_map hkeys.rows hh' hmem hid
  simp only [AlertHistoryRow.isOpenFor, Bool.and_eq_true, Option.isNone_iff_eq_none] at hopen
  rw [hopen.2] at hresolved
  cases hresolved

/-- A pass in which nothing is said about a rule does not evaluate it. -/
theorem not_clearTwice_of_spares {events : List Event} (hevents : ∀ e ∈ events, e.rule ≠ h.ruleId) :
    ¬ ClearTwice ids h w.trace events := by
  rintro ⟨before, t, since, after, early, since', late, -, heq, -, -⟩
  exact hevents (.evaluated h.tenantId h.ruleId false since') (by rw [heq]; simp) rfl

/-- In a pass that evaluates a rule once, `ClearTwice` is about that evaluation and
the streak before it. -/
theorem clearTwice_iff (hinv : StreakInvariant ids w) (hh : h ∈ w.alertHistory)
    {fired : Bool} {openSince : Option Instant} {first last : List Event}
    (hfirst : ∀ e ∈ first, e.rule ≠ h.ruleId)
    (hlast : ∀ e ∈ last, e.rule ≠ h.ruleId ∨ e.isEvaluation = false) :
    ClearTwice ids h w.trace
        (first ++ .evaluated h.tenantId h.ruleId fired openSince :: last) ↔
      fired = false ∧ (w.resolver.clearStreaks h.ruleId).isSome := by
  constructor
  · rintro ⟨before, t, since, after, early, since', late, htrace, heq, hsilent, -⟩
    -- The evaluation in the pass is the only one of the rule.
    have hnotin : ∀ events : List Event, (∀ e ∈ events, e.rule ≠ h.ruleId ∨ e.isEvaluation = false) →
        Event.evaluated h.tenantId h.ruleId false since' ∉ events := by
      intro events hevents hmem
      rcases hevents _ hmem with hrule | heval
      · exact hrule rfl
      · cases heval
    obtain ⟨-, hsame, -⟩ := (List.append_cons_inj_of_notMem
      (hnotin first fun e he => .inl (hfirst e he)) (hnotin last hlast)).1 heq
    refine ⟨by cases hsame; rfl, ?_⟩
    rw [hinv.tracked h.ruleId, htrace, clearStreak_of_last_clear before t since fun e he =>
      hsilent e (List.mem_append_left _ he)]
    rfl
  · rintro ⟨rfl, hstreak⟩
    obtain ⟨n, hn⟩ := Option.isSome_iff_exists.1 hstreak
    rw [hinv.tracked h.ruleId] at hn
    obtain ⟨before, t, since, after, htrace, hafter, -⟩ := exists_last_clear hn
    refine ⟨before, t, since, after, first, openSince, last, htrace, rfl, fun e he => ?_,
      hinv.openedBy hh htrace hafter⟩
    rcases List.mem_append.1 he with hold | hnew
    · exact hafter e hold
    · exact Event.signal_of_rule_ne (hfirst e hnew)

/-- A streak in memory is at least one. -/
theorem StreakInvariant.two_le_nextStreak_iff (hinv : StreakInvariant ids w) (r : Uuid) :
    clearStreakToResolve ≤ w.resolver.nextStreak r ↔ (w.resolver.clearStreaks r).isSome := by
  unfold ResolveTracker.nextStreak clearStreakToResolve
  cases hstreak : w.resolver.clearStreaks r with
  | none => simp
  | some n =>
      rw [hinv.tracked r] at hstreak
      obtain ⟨before, -, -, -, -, -, hn⟩ := exists_last_clear hstreak
      simp only [Option.getD_some, Option.isSome_some, iff_true]
      omega

/-- Closing the rows of a rule resolves the open ones. -/
theorem exists_resolved_row {t r : Uuid} (hh : h ∈ w.openRows t r) {time : Instant}
    (hhistory : w'.alertHistory = closedHistory false time t r w.alertHistory) :
    ∃ h' ∈ w'.rows t r, h'.id = h.id ∧ h'.resolvedAt.isSome := by
  obtain ⟨hmem, hopen⟩ := List.mem_filter.1 hh
  have hof := hopen
  simp only [AlertHistoryRow.isOpenFor, Bool.and_eq_true, beq_iff_eq] at hof
  refine ⟨{ h with resolvedAt := some time }, List.mem_filter.2 ⟨?_, ?_⟩, rfl, rfl⟩
  · rw [hhistory, closedHistory, if_neg (by simp)]
    exact List.mem_map.2 ⟨h, hmem, by rw [if_pos hopen]⟩
  · simp [AlertHistoryRow.ofRule, hof.1.1, hof.1.2]

/-- The outcome of a rule's turn, for an incident the rule has open. -/
theorem resolvedIn_turn {turn : Turn} {w₂ : World} {t r : Uuid} (ht : turn.pass.tenant.id = t)
    (hr : turn.rule.id = r)
    (hthreshold : clearStreakToResolve ≤ turn.world.resolver.nextStreak r ↔
      (turn.world.resolver.clearStreaks r).isSome)
    (hopen : turn.pass.openSince r ≠ none) (hup : (env.calls (.resolve r)).fails = false)
    (hh : h ∈ turn.world.openRows t r)
    (hstep : RuleStep env turn.pass turn.rule (turn.fires p env) turn.world w₂)
    (hafter : Aside t r w₂ w') (hkeys' : WellKeyed w') :
    ResolvedIn h w' ↔
      turn.fires p env = false ∧ (turn.world.resolver.clearStreaks r).isSome := by
  subst ht
  subst hr
  have hstill : w₂.alertHistory = turn.world.alertHistory → ¬ ResolvedIn h w' := by
    intro hhistory
    have hmem : h ∈ w'.openRows turn.pass.tenant.id turn.rule.id := by
      rw [hafter.openRows, World.openRows, hhistory]
      exact hh
    exact not_resolvedIn_of_mem hkeys' hmem
  cases hstep with
  | stillFiring hfired =>
      rw [hfired]
      simp [hstill (fires_alertHistory ..)]
  | throttled _ hnone => exact absurd hnone hopen
  | raised _ hnone => exact absurd hnone hopen
  | quiet _ hnone => exact absurd hnone hopen
  | waiting hfired _ hstreak =>
      have hnone : ¬ (turn.world.resolver.clearStreaks turn.rule.id).isSome := by
        rw [← hthreshold]
        omega
      simp [hstill (counts_alertHistory ..), hnone]
  | resolved hfired _ hstreak hres =>
      obtain ⟨time, -, hhistory⟩ := hres.alertHistory
      rw [counts_alertHistory, hup] at hhistory
      obtain ⟨h', hh', hid, hsome⟩ := exists_resolved_row hh hhistory
      rw [← hafter.rows] at hh'
      have hresolved : ResolvedIn h w' := ⟨h', List.mem_of_mem_filter hh', hid, hsome⟩
      simp only [hresolved, hfired, hthreshold.1 hstreak, and_self]

/-- A pass resolves an open incident of an enabled rule exactly if it evaluates
the rule clear for the second time in a row. -/
theorem resolvedIn_iff_clearTwice (hkeys : WellKeyed w) (hinv : StreakInvariant ids w)
    (hup : ∀ pt, (env.calls pt).fails = false) {rule : AlertRule} (hrule : rule ∈ w.alertRules)
    (henabled : rule.isEnabled = true) (hh : h ∈ w.openRows rule.tenantId rule.id) :
    ResolvedIn h (runAlertEvaluation p env w) ↔
      ClearTwice ids h w.trace ((runAlertEvaluation p env w).trace.drop w.trace.length) := by
  have hkeys' : WellKeyed (runAlertEvaluation p env w) := hkeys.evaluate env
  have hconfig : rule.config ∈ w.configs := List.mem_map_of_mem hrule
  obtain ⟨hmem, hopen⟩ := List.mem_filter.1 hh
  have hof : h.tenantId = rule.tenantId ∧ h.ruleId = rule.id := by
    simp only [AlertHistoryRow.isOpenFor, Bool.and_eq_true, beq_iff_eq] at hopen
    exact hopen.1
  have hfocus : RulePass p env w rule.config (runAlertEvaluation p env w) :=
    runAlertEvaluation_focus hkeys hconfig
  have hthreshold := hinv.two_le_nextStreak_iff rule.id
  generalize runAlertEvaluation p env w = w' at *
  cases hfocus with
  | aside h' =>
      have haside : Aside rule.tenantId rule.id w w' := h'
      obtain ⟨events, htrace, hspared⟩ := haside.spares
      have hopen' : h ∈ w'.openRows rule.tenantId rule.id := by
        rw [haside.openRows]
        exact hh
      rw [htrace, List.drop_left, iff_false_left (not_resolvedIn_of_mem hkeys' hopen')]
      exact not_clearTwice_of_spares (by rw [hof.2]; exact hspared)
  | closed htenant htid _ hat =>
      -- The rule was read, and it is enabled.
      exfalso
      rcases hat.gone with hfails | hgone
      · rw [hup] at hfails
        cases hfails
      · have hdisabled := hgone rule.config (by rw [hat.follows.configs]; exact hconfig) rfl htid.symm
        rw [show rule.config.isEnabled = true from henabled] at hdisabled
        cases hdisabled
  | @turned turn w₂ _ _ hq h₁ hat hstep h₂ =>
      have hbefore : Aside rule.tenantId rule.id w turn.world := h₁
      have hafter : Aside rule.tenantId rule.id w₂ w' := h₂
      have hid : turn.rule.id = rule.id := by
        have hids : turn.rule.config.id = rule.config.id := by rw [hq]
        exact hids
      have htid : turn.pass.tenant.id = rule.tenantId := by
        have htids : turn.rule.config.tenantId = rule.config.tenantId := by rw [hq]
        exact hat.ofTenant.symm.trans htids
      have hhere : h ∈ turn.world.openRows rule.tenantId rule.id := by
        rw [hbefore.openRows]
        exact hh
      have hsince : turn.pass.openSince rule.id ≠ none := by
        intro hnone
        have hempty := hat.openRows_eq_nil (by rw [hid]; exact hnone) (hup _)
        rw [htid, hid] at hempty
        rw [hempty] at hhere
        cases hhere
      have hstreak : turn.world.resolver.clearStreaks rule.id = w.resolver.clearStreaks rule.id :=
        hbefore.streak
      have hthere : clearStreakToResolve ≤ turn.world.resolver.nextStreak rule.id ↔
          (turn.world.resolver.clearStreaks rule.id).isSome := by
        rw [ResolveTracker.nextStreak, hstreak]
        exact hthreshold
      rw [resolvedIn_turn htid hid hthere hsince (hup _) hhere hstep hafter hkeys', hstreak]
      obtain ⟨first, hfirst, hbeforeRule⟩ := hbefore.spares
      obtain ⟨middle, hmiddle, hturnRule⟩ := hstep.trace
      obtain ⟨last, hlast, hafterRule⟩ := hafter.spares
      have hevents : w'.trace.drop w.trace.length = first ++
          .evaluated h.tenantId h.ruleId (turn.fires p env) (turn.pass.openSince turn.rule.id) ::
            (middle ++ last) := by
        rw [hlast, hmiddle, hfirst, hof.1, hof.2, ← htid, ← hid]
        simp only [List.append_assoc, List.cons_append, List.drop_left]
      rw [hevents, clearTwice_iff hinv hmem (by rw [hof.2]; exact hbeforeRule), hof.2]
      intro e he
      rcases List.mem_append.1 he with hin | hout
      · exact .inr (hturnRule e hin).2.2
      · exact .inl (by rw [hof.2]; exact hafterRule e hout)

end Pass

/-- **The resolve rule.** In every process, a pass whose store calls succeed
resolves an open incident of an enabled rule if and only if it evaluates the rule
clear and so did the evaluation before, made while the incident was open, with no
firing evaluation and no forget between; and no rule's evaluation changes the
streak of another. -/
theorem resolved_iff_two_clears (p : Platform) :
    (∀ (w : World) (steps : List Step) (env : PassEnv), WellKeyed w → w.trace = [] →
      w.resolver = .new → (∀ pt, (env.calls pt).fails = false) →
      ∀ rule ∈ (run p w steps).alertRules, rule.isEnabled = true →
      ∀ h ∈ (run p w steps).openRows rule.tenantId rule.id,
        ResolvedIn h (run p w (steps ++ [.evaluate env])) ↔
          ClearTwice (w.alertHistory.map (·.id)) h (run p w steps).trace
            ((run p w (steps ++ [.evaluate env])).trace.drop (run p w steps).trace.length)) ∧
    ∀ (env : PassEnv) (tp : TenantPass) (rule : AlertRule) (acc : World × AlertContextBuilder)
      (r : Uuid), r ≠ rule.id →
        (evaluateRule p env tp acc rule).1.resolver.clearStreaks r =
          acc.1.resolver.clearStreaks r := by
  refine ⟨fun w steps env hkeys htrace hresolver hup rule hrule henabled h hh => ?_, ?_⟩
  · have hend := streakInvariant_run p hkeys htrace hresolver steps
    have hlast : run p w (steps ++ [.evaluate env]) = runAlertEvaluation p env (run p w steps) :=
      Runs.run_append (step p) w steps [.evaluate env]
    rw [hlast]
    exact resolvedIn_iff_clearTwice hend.1 hend.2 hup hrule henabled hh
  · intro env tp rule acc r hne
    exact (evaluateRule_inv p env tp rule acc).clearStreaks_of_ne hne

instance (h : AlertHistoryRow) (w : World) : Decidable (ResolvedIn h w) :=
  inferInstanceAs (Decidable (∃ h' ∈ w.alertHistory, _))

/-- An incident opens and is clear once. -/
def clearOnce : List Step :=
  [.evaluate (samplePass troubledReads 100), .evaluate (samplePass calmReads 101)]

theorem resolved_iff_two_clears_sample :
    ∃ h ∈ (run samplePlatform (sampleWorld (sampleRule [] 300)) clearOnce).openRows 1 7,
      ClearTwice [] h (run samplePlatform (sampleWorld (sampleRule [] 300)) clearOnce).trace
        ((run samplePlatform (sampleWorld (sampleRule [] 300))
            (clearOnce ++ [.evaluate (samplePass calmReads 102)])).trace.drop
          (run samplePlatform (sampleWorld (sampleRule [] 300)) clearOnce).trace.length) := by
  let w := run samplePlatform (sampleWorld (sampleRule [] 300)) clearOnce
  have hrules : w.alertRules ≠ [] := List.ne_nil_of_length_pos (by decide +kernel)
  have hopen : w.openRows 1 7 ≠ [] := List.ne_nil_of_length_pos (by decide +kernel)
  obtain ⟨rule, hrule⟩ := List.exists_mem_of_ne_nil _ hrules
  obtain ⟨h, hh⟩ := List.exists_mem_of_ne_nil _ hopen
  have hsample : ∀ rule ∈ w.alertRules,
      rule.isEnabled = true ∧ rule.tenantId = 1 ∧ rule.id = 7 := by decide +kernel
  have hresolved : ∀ h ∈ w.openRows 1 7, ResolvedIn h (run samplePlatform
      (sampleWorld (sampleRule [] 300)) (clearOnce ++ [.evaluate (samplePass calmReads 102)])) := by
    decide +kernel
  obtain ⟨henabled, htenant, hid⟩ := hsample rule hrule
  refine ⟨h, hh, ?_⟩
  exact ((resolved_iff_two_clears samplePlatform).1 (sampleWorld (sampleRule [] 300)) clearOnce
    (samplePass calmReads 102) (wellKeyed_sampleWorld _) rfl rfl (fun _ => rfl) rule hrule henabled h
    (by rw [htenant, hid]; exact hh)).1 (hresolved h hh)

end Feloxi.Alerting
