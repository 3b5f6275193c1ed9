import Feloxi.Alerting.FailClosed

/-!
# Feloxi.Alerting.Memoisation

Whether the memo of a builder can be seen. The builder's slots are a memo table
(`readSlot_fetch`), so it answers like a fresh builder as long as whatever is read
under one slot is one query. The slots are the queries themselves, but for the task
overview: its key holds the quantile level in tenths of a basis point, cut off, and
its query holds the level in the same unit, rounded. What an overview slot holds is
the answer to its first reader (`builderAfter_overview`).
-/

namespace Feloxi.Alerting

open AlertContextBuilder

/-! ### The overview query -/

/-- What the overview query finds in a window: its counts, and its runtimes' quantiles by
the text of the level. -/
structure TaskWindow where
  totalTasks : Nat
  failureCount : Nat
  quantile : String → F64

/-- The quantile level as `get_alert_overview_stats` writes it into the query. -/
def levelText (percentile : F64) : String :=
  (if percentile.isFinite then percentile.clamp (.fin (1 / 2)) (.fin (999 / 1000))
    else .fin (95 / 100)).fmtFixed 4

/-- `get_alert_overview_stats`; `rows` is what its query finds, by window and pattern. -/
def getAlertOverviewStats (rows : Nat → String → Except String TaskWindow)
    (windowMinutes : Nat) (taskPattern : String) (percentile : F64) :
    Except String OverviewStats :=
  (rows windowMinutes taskPattern).map fun found =>
    ⟨found.totalTasks, found.failureCount, found.quantile (levelText percentile)⟩

/-- Stores whose overviews come from the query. -/
def StoreReads.querying (reads : StoreReads) (rows : Nat → String → Except String TaskWindow) :
    StoreReads :=
  { reads with overview := getAlertOverviewStats rows }

/-- The window, pattern and level a condition reads the overview with. -/
def overviewRead? (condition : AlertCondition) : Option (Nat × String × F64) :=
  match condition with
  | .taskFailureRate _ w _ => some (clampWindow w, patternOf condition, .fin (95 / 100))
  | .taskFailed _ => some (defaultWindowMinutes, patternOf condition, .fin (95 / 100))
  | .taskDuration _ p _ => some (defaultWindowMinutes, patternOf condition, normalizePercentile p)
  | _ => none

/-- The condition compares a quantile. -/
def ReadsQuantile (condition : AlertCondition) : Prop :=
  ∃ threshold percentile pattern, condition = .taskDuration threshold percentile pattern

/-- The level a condition reads an overview slot with. -/
def levelAt? (condition : AlertCondition) (w : Nat) (p : String) (key : Nat) : Option F64 :=
  (overviewRead? condition).bind fun r =>
    if r.1 = w ∧ r.2.1 = p ∧ levelKey r.2.2 = key then some r.2.2 else none

/-- The level of the first condition that reads an overview slot. -/
def firstLevel? (cs : List (F64 × AlertCondition)) (w : Nat) (p : String) (key : Nat) :
    Option F64 :=
  cs.findSome? fun c => levelAt? c.2 w p key

/-- Every quantile condition asks for the quantile that the first reader of its slot asks
for. -/
def OneQuantile (cs : List (F64 × AlertCondition)) : Prop :=
  ∀ c ∈ cs, ReadsQuantile c.2 → ∀ w p l first, overviewRead? c.2 = some (w, p, l) →
    firstLevel? cs w p (levelKey l) = some first → levelText first = levelText l

/-! ### First readers -/

theorem levelAt?_self {condition : AlertCondition} {w : Nat} {p : String} {l : F64}
    (h : overviewRead? condition = some (w, p, l)) :
    levelAt? condition w p (levelKey l) = some l := by
  rw [levelAt?, h, Option.bind_some, if_pos ⟨rfl, rfl, rfl⟩]

/-- Of one slot, the first reader in a sequence is the first before a reader, or that
reader. -/
theorem firstLevel?_append_reader {c : F64 × AlertCondition} {w : Nat} {p : String} {l : F64}
    (h : overviewRead? c.2 = some (w, p, l)) (before after : List (F64 × AlertCondition)) :
    firstLevel? (before ++ c :: after) w p (levelKey l) =
      some ((firstLevel? before w p (levelKey l)).getD l) := by
  rw [firstLevel?, List.findSome?_append, List.findSome?_cons, levelAt?_self h]
  exact Option.or_some ..

theorem firstLevel?_append_other {c : F64 × AlertCondition} {w : Nat} {p : String} {key : Nat}
    (h : levelAt? c.2 w p key = none) (before : List (F64 × AlertCondition)) :
    firstLevel? (before ++ [c]) w p key = firstLevel? before w p key := by
  rw [firstLevel?, List.findSome?_append, List.findSome?_singleton, h]
  exact Option.or_none ..

namespace AlertContextBuilder

section Builders

variable {sqrt : F64 → F64} {reads : StoreReads} {b b' : AlertContextBuilder}

/-! ### The slots of one query

Outside the overview, a slot is read with one answer. -/

/-- The values the slots of one query settle to. -/
def IsAnswer (sqrt : F64 → F64) (reads : StoreReads) : (read : StoreRead) → read.Value → Prop
  | .overview .., _ => True
  | .queueDepths, v => v = settled .queueDepths reads.queueDepths
  | .beatSchedule, v => v = settled .beatSchedule (reads.beatSchedule.map (·.getD []))
  | .brokerActive, v => v = settled .brokerActive (reads.brokerActive.map (·.any id))
  | .liveWorkers, v => v = settled .liveWorkers reads.liveWorkers
  | .workersLastSeen, v => v = settled .workersLastSeen reads.workersLastSeen
  | .lastEvent, v =>
    v = settled .lastEvent (reads.secondsSinceLastEvent noEventsLookbackMinutes)
  | .throughput w p, v => v = settled (.throughput w p) (throughputAnswer sqrt reads w p)
  | .latency w p, v =>
    v = settled (.latency w p) ((reads.latencyMoments w anomalyBaselineHours p).map fun m =>
      Alerting.latencyZscore m.currentAvg m.currentSamples m.baselineAvg m.baselineStd
        m.baselineSamples)
  | .errorSpike h p, v =>
    v = settled (.errorSpike h p) ((reads.errorRateStats defaultWindowMinutes h p).map fun s =>
      errorSpikeFactor s.currentTotal s.currentFailures s.baselineTotal s.baselineFailures)

/-- The builder has kept nothing but answers of the stores. -/
abbrev Reflects (sqrt : F64 → F64) (reads : StoreReads) (b : AlertContextBuilder) : Prop :=
  Memo.Kept (IsAnswer sqrt reads) b.memo

theorem reflects_new : Reflects sqrt reads new := Memo.kept_empty _

theorem Reflects.readSlot (h : Reflects sqrt reads b) (read : StoreRead)
    (answer : Except String read.Value) (hanswer : IsAnswer sqrt reads read (settled read answer)) :
    IsAnswer sqrt reads read (readSlot read answer b).1 ∧
      Reflects sqrt reads (readSlot read answer b).2 := by
  obtain ⟨hvalue, hmemo⟩ := readSlot_fetch read answer b
  rw [Reflects, hvalue, hmemo]
  exact ⟨Memo.Kept.fetch_fst h hanswer, Memo.Kept.fetch_snd h hanswer⟩

theorem Reflects.workerLiveness (h : Reflects sqrt reads b) :
    (workerLiveness reads b).1 = settled .liveWorkers reads.liveWorkers ∧
      Reflects sqrt reads (workerLiveness reads b).2 :=
  h.readSlot .liveWorkers reads.liveWorkers rfl

theorem Reflects.hasActiveBroker (h : Reflects sqrt reads b) :
    (hasActiveBroker reads b).1 =
        settled .brokerActive (reads.brokerActive.map (List.any · id)) ∧
      Reflects sqrt reads (hasActiveBroker reads b).2 :=
  h.readSlot .brokerActive (reads.brokerActive.map (List.any · id)) rfl

theorem Reflects.workersLastSeen (h : Reflects sqrt reads b) :
    (workersLastSeen reads b).1 = settled .workersLastSeen reads.workersLastSeen ∧
      Reflects sqrt reads (workersLastSeen reads b).2 :=
  h.readSlot .workersLastSeen reads.workersLastSeen rfl

/-- The two builders go the same way, since each read tells them the same. -/
theorem Reflects.workersOffline (h : Reflects sqrt reads b) (h' : Reflects sqrt reads b')
    (now : F64) (grace : Nat) :
    (workersOffline reads now grace b).1 = (workersOffline reads now grace b').1 ∧
      Reflects sqrt reads (workersOffline reads now grace b).2 := by
  obtain ⟨hlive, h₁⟩ := h.workerLiveness
  obtain ⟨hlive', h₁'⟩ := h'.workerLiveness
  obtain ⟨hactive, h₂⟩ := h₁.hasActiveBroker
  obtain ⟨hactive', h₂'⟩ := h₁'.hasActiveBroker
  obtain ⟨hseen, h₃⟩ := h₂.workersLastSeen
  obtain ⟨hseen', -⟩ := h₂'.workersLastSeen
  simp only [AlertContextBuilder.workersOffline]
  rw [hlive, hlive', hactive, hactive', hseen, hseen']
  split
  · exact ⟨rfl, h₁⟩
  · split
    · exact ⟨rfl, h₂⟩
    · split
      · exact ⟨rfl, h₃⟩
      · exact ⟨rfl, h₃⟩

theorem Reflects.secondsSinceLastEvent (h : Reflects sqrt reads b) (h' : Reflects sqrt reads b') :
    (secondsSinceLastEvent reads b).1 = (secondsSinceLastEvent reads b').1 ∧
      Reflects sqrt reads (secondsSinceLastEvent reads b).2 := by
  have hage := fun {b} (h : Reflects sqrt reads b) =>
    h.readSlot .lastEvent (reads.secondsSinceLastEvent noEventsLookbackMinutes) rfl
  obtain ⟨hactive, h₁⟩ := h.hasActiveBroker
  obtain ⟨hactive', h₁'⟩ := h'.hasActiveBroker
  simp only [AlertContextBuilder.secondsSinceLastEvent]
  rw [hactive, hactive', (hage h₁).1, (hage h₁').1]
  split
  · exact ⟨rfl, h₁⟩
  · split
    · exact ⟨rfl, (hage h₁).2⟩
    · exact ⟨rfl, (hage h₁).2⟩

/-- A condition that makes one read, in a slot of one query. -/
theorem Reflects.contextFor_of_single (h : Reflects sqrt reads b) (h' : Reflects sqrt reads b')
    {now : F64} {condition : AlertCondition} (read : StoreRead) (answer : Except String read.Value)
    (context : read.Value → EvaluationContext)
    (hctx : ∀ b, contextFor sqrt reads now condition b =
      (context (AlertContextBuilder.readSlot read answer b).1,
        (AlertContextBuilder.readSlot read answer b).2))
    (hanswer : IsAnswer sqrt reads read = (· = settled read answer)) :
    (contextFor sqrt reads now condition b).1 = (contextFor sqrt reads now condition b').1 ∧
      Reflects sqrt reads (contextFor sqrt reads now condition b).2 := by
  have hsettled : IsAnswer sqrt reads read (settled read answer) := by rw [hanswer]
  obtain ⟨hvalue, hnext⟩ := h.readSlot read answer hsettled
  obtain ⟨hvalue', -⟩ := h'.readSlot read answer hsettled
  rw [hanswer] at hvalue hvalue'
  rw [hctx, hctx]
  exact ⟨congrArg context (hvalue.trans hvalue'.symm), hnext⟩

/-- The context of a condition that reads the overview. -/
def overviewContext (condition : AlertCondition) (stats : OverviewStats) : EvaluationContext :=
  match condition with
  | .taskFailureRate .. =>
    { EvaluationContext.default with
      failureRate := if stats.totalTasks > 0
        then (F64.ofNat stats.failureCount).div (.ofNat stats.totalTasks) else .zero
      recentFailures := stats.failureCount }
  | .taskFailed _ => { EvaluationContext.default with recentFailures := stats.failureCount }
  | .taskDuration .. => { EvaluationContext.default with p95Runtime := stats.p95Runtime }
  | _ => .default

theorem contextFor_of_overviewRead {condition : AlertCondition} {w : Nat} {p : String} {l : F64}
    (h : overviewRead? condition = some (w, p, l)) (now : F64) (b : AlertContextBuilder) :
    contextFor sqrt reads now condition b =
      (overviewContext condition (overview reads w p l b).1, (overview reads w p l b).2) := by
  cases condition with
  | taskFailureRate | taskFailed | taskDuration =>
      obtain ⟨rfl, rfl, rfl⟩ := h
      rfl
  | queueDepth | workerOffline | beatMissed | noEvents => cases h
  | throughputAnomaly | latencyAnomaly | errorRateSpike => cases h

/-- **The builder rule of the memo.** Builders that have kept nothing but answers give a
condition the same context, unless it reads the overview. -/
theorem Reflects.contextFor (h : Reflects sqrt reads b) (h' : Reflects sqrt reads b') (now : F64)
    (condition : AlertCondition) :
    (overviewRead? condition = none →
      (contextFor sqrt reads now condition b).1 = (contextFor sqrt reads now condition b').1) ∧
      Reflects sqrt reads (contextFor sqrt reads now condition b).2 := by
  cases hread : overviewRead? condition with
  | some slot =>
      rw [contextFor_of_overviewRead hread]
      constructor
      · intro hnone
        cases hnone
      · exact (h.readSlot (.overview slot.1 slot.2.1 (levelKey slot.2.2))
          (reads.overview slot.1 slot.2.1 slot.2.2) trivial).2
  | none =>
      refine (And.imp_left fun heq _ => heq) ?_
      cases condition with
      | taskFailureRate | taskFailed | taskDuration => cases hread
      | queueDepth t q =>
          exact h.contextFor_of_single h' .queueDepths reads.queueDepths
            (fun depths => { EvaluationContext.default with
              queueDepth := depthForQueue depths q })
            (fun _ => rfl) rfl
      | workerOffline g =>
          obtain ⟨hvalue, hnext⟩ := h.workersOffline h' now g
          simp only [AlertContextBuilder.contextFor]
          rw [hvalue]
          exact ⟨rfl, hnext⟩
      | beatMissed s =>
          exact h.contextFor_of_single h' .beatSchedule (reads.beatSchedule.map (·.getD []))
            (fun entries => { EvaluationContext.default with
              beatSchedulesMissed := countMissedSchedules entries s now })
            (fun _ => rfl) rfl
      | noEvents m =>
          obtain ⟨hvalue, hnext⟩ := h.secondsSinceLastEvent h'
          simp only [AlertContextBuilder.contextFor]
          rw [hvalue]
          exact ⟨rfl, hnext⟩
      | throughputAnomaly t w p =>
          exact h.contextFor_of_single h' (.throughput (clampWindow w) (patternOf _))
            (throughputAnswer sqrt reads (clampWindow w) (patternOf (.throughputAnomaly t w p)))
            (fun z : ZScore => { EvaluationContext.default with
              throughputZscore := z.zscore
              currentThroughput := z.current.div (.ofNat (clampWindow w))
              baselineThroughput := z.baselineMean.div (.ofNat (clampWindow w)) })
            (fun _ => rfl) rfl
      | latencyAnomaly t w p =>
          exact h.contextFor_of_single h'
            (.latency (clampWindow w) (patternOf (.latencyAnomaly t w p))) _
            (fun z : ZScore => { EvaluationContext.default with
              latencyZscore := z.zscore
              currentLatency := z.current
              baselineLatency := z.baselineMean })
            (fun _ => rfl) rfl
      | errorRateSpike f hours p =>
          exact h.contextFor_of_single h'
            (.errorSpike (clampNat hours 1 maxBaselineHours)
              (patternOf (.errorRateSpike f hours p))) _
            (fun spike : Spike => { EvaluationContext.default with
              errorRateSpikeFactor := spike.factor
              currentErrorRate := spike.currentRate
              baselineErrorRate := spike.baselineRate })
            (fun _ => rfl) rfl

theorem builderAfter_reflects (served : List (F64 × AlertCondition)) :
    Reflects sqrt reads (builderAfter sqrt reads served) := by
  refine Runs.foldl_invariant (Reflects sqrt reads) ?_ reflects_new
  intro b c _ hb
  exact (hb.contextFor hb c.1 c.2).2

/-! ### The slots of the overview -/

/-- A condition that does not read the overview leaves its slots alone. -/
theorem contextFor_memo_overview {condition : AlertCondition}
    (h : overviewRead? condition = none) (now : F64) (w : Nat) (p : String) (key : Nat)
    (b : AlertContextBuilder) :
    (contextFor sqrt reads now condition b).2.memo (.overview w p key) =
      b.memo (.overview w p key) := by
  cases condition with
  | taskFailureRate | taskFailed | taskDuration => cases h
  | workerOffline g =>
      have h₁ : (workerLiveness reads b).2.memo (.overview w p key) =
          b.memo (.overview w p key) :=
        readSlot_memo_other .liveWorkers (by simp) reads.liveWorkers b
      have h₂ := (readSlot_memo_other .brokerActive (by simp)
        (reads.brokerActive.map (List.any · id)) (workerLiveness reads b).2).trans h₁
      have h₃ := (readSlot_memo_other .workersLastSeen (by simp) reads.workersLastSeen
        _).trans h₂
      simp only [AlertContextBuilder.contextFor, AlertContextBuilder.workersOffline]
      split
      · exact h₁
      · split
        · exact h₂
        · split <;> exact h₃
  | noEvents m =>
      have h₁ : (hasActiveBroker reads b).2.memo (.overview w p key) =
          b.memo (.overview w p key) :=
        readSlot_memo_other .brokerActive (by simp) (reads.brokerActive.map (List.any · id)) b
      have h₂ := (readSlot_memo_other .lastEvent (by simp)
        (reads.secondsSinceLastEvent noEventsLookbackMinutes)
        (hasActiveBroker reads b).2).trans h₁
      simp only [AlertContextBuilder.contextFor, AlertContextBuilder.secondsSinceLastEvent]
      split
      · exact h₁
      · split <;> exact h₂
  | queueDepth | beatMissed | throughputAnomaly | latencyAnomaly | errorRateSpike =>
      exact readSlot_memo_other _ (by simp) _ b

/-- An overview slot holds the answer to its first reader. -/
theorem builderAfter_overview (w : Nat) (p : String) (key : Nat)
    (served : List (F64 × AlertCondition)) :
    (builderAfter sqrt reads served).memo (.overview w p key) =
      (firstLevel? served w p key).map fun l =>
        settled (.overview w p key) (reads.overview w p l) := by
  induction served using List.reverseRecOn with
  | nil => rfl
  | append_singleton served c ih =>
      have hstep : builderAfter sqrt reads (served ++ [c]) =
          (contextFor sqrt reads c.1 c.2 (builderAfter sqrt reads served)).2 := by
        rw [builderAfter, List.foldl_append]
        rfl
      rw [hstep]
      cases hread : overviewRead? c.2 with
      | none =>
          have hfirst : firstLevel? (served ++ [c]) w p key = firstLevel? served w p key :=
            firstLevel?_append_other (by simp [levelAt?, hread]) served
          rw [contextFor_memo_overview hread, hfirst, ih]
      | some slot =>
          obtain ⟨w', p', l'⟩ := slot
          rw [contextFor_of_overviewRead hread]
          by_cases hslot : StoreRead.overview w p key = .overview w' p' (levelKey l')
          · cases hslot
            have hmemo := (readSlot_fetch (.overview w p (levelKey l')) (reads.overview w p l')
              (builderAfter sqrt reads served)).2
            rw [firstLevel?_append_reader hread, overview, hmemo, Memo.fetch_self, ih]
            cases firstLevel? served w p (levelKey l') <;> rfl
          · have hother : levelAt? c.2 w p key = none := by
              rw [levelAt?, hread, Option.bind_some, if_neg]
              rintro ⟨rfl, rfl, rfl⟩
              exact hslot rfl
            rw [firstLevel?_append_other hother, ← ih]
            exact readSlot_memo_other _ hslot ..

theorem overview_builderAfter (w : Nat) (p : String) (l : F64)
    (served : List (F64 × AlertCondition)) :
    (overview reads w p l (builderAfter sqrt reads served)).1 =
      settled (.overview w p (levelKey l))
        (reads.overview w p ((firstLevel? served w p (levelKey l)).getD l)) := by
  have hvalue := (readSlot_fetch (.overview w p (levelKey l)) (reads.overview w p l)
    (builderAfter sqrt reads served)).1
  rw [overview, hvalue, Memo.fetch_fst, builderAfter_overview]
  cases firstLevel? served w p (levelKey l) <;> rfl

end Builders

/-! ### Sequences of conditions -/

/-- Whatever the stores hold, one builder gives every condition of the sequence the
context a fresh builder gives it. -/
def Invisible (cs : List (F64 × AlertCondition)) : Prop :=
  ∀ sqrt reads rows before c after, cs = before ++ c :: after →
    (contextFor sqrt (StoreReads.querying reads rows) c.1 c.2
        (builderAfter sqrt (reads.querying rows) before)).1 =
      (contextFor sqrt (StoreReads.querying reads rows) c.1 c.2 new).1

/-- Two queries of one window differ in their quantiles only. -/
theorem overviewContext_eq {condition : AlertCondition}
    {rows : Nat → String → Except String TaskWindow} {w key : Nat} {p : String} {l l' : F64}
    (h : ReadsQuantile condition → levelText l = levelText l') :
    overviewContext condition
        (settled (.overview w p key) (getAlertOverviewStats rows w p l)) =
      overviewContext condition
        (settled (.overview w p key) (getAlertOverviewStats rows w p l')) := by
  by_cases hquantile : ReadsQuantile condition
  · rw [getAlertOverviewStats, h hquantile]
    rfl
  · rw [getAlertOverviewStats, getAlertOverviewStats]
    cases rows w p with
    | error e => rfl
    | ok found =>
        cases condition with
        | taskDuration t q pattern => exact absurd ⟨t, q, pattern, rfl⟩ hquantile
        | _ => rfl

/-- Conditions with one quantile for each slot do not see the memo. -/
theorem invisible_of_oneQuantile {cs : List (F64 × AlertCondition)} (h : OneQuantile cs) :
    Invisible cs := by
  intro sqrt reads rows before c after hcs
  cases hread : overviewRead? c.2 with
  | none => exact ((builderAfter_reflects before).contextFor reflects_new c.1 c.2).1 hread
  | some slot =>
      obtain ⟨w, p, l⟩ := slot
      have hfirst := firstLevel?_append_reader hread before after
      rw [← hcs] at hfirst
      have hnew := @overview_builderAfter sqrt (reads.querying rows) w p l []
      rw [contextFor_of_overviewRead hread, contextFor_of_overviewRead hread,
        overview_builderAfter]
      refine (overviewContext_eq fun hquantile => ?_).trans
        (congrArg (overviewContext c.2) hnew.symm)
      exact h c (hcs ▸ List.mem_append_right _ List.mem_cons_self) hquantile w p l _ hread hfirst

/-- A window whose quantiles tell one level from the others. -/
def singleOut (text : String) : TaskWindow :=
  ⟨0, 0, fun t => if t = text then .fin 1 else .zero⟩

/-- A quantile that is not the first reader's is seen. -/
theorem oneQuantile_of_invisible {cs : List (F64 × AlertCondition)} (h : Invisible cs) :
    OneQuantile cs := by
  rintro c hc ⟨threshold, percentile, pattern, hcond⟩ w p l first hread hfirst
  obtain ⟨before, after, hcs⟩ := List.append_of_mem hc
  have hseen := h id unreadableMarker (fun _ _ => .ok (singleOut (levelText l))) before c after hcs
  rw [hcs, firstLevel?_append_reader hread, Option.some.injEq] at hfirst
  have hnew := @overview_builderAfter id
    (unreadableMarker.querying fun _ _ => .ok (singleOut (levelText l))) w p l []
  rw [contextFor_of_overviewRead hread, contextFor_of_overviewRead hread, overview_builderAfter,
    hfirst, hcond] at hseen
  have hquantile : (if levelText first = levelText l then F64.fin 1 else .zero) =
      if levelText l = levelText l then F64.fin 1 else .zero :=
    congrArg EvaluationContext.p95Runtime
      (hseen.trans (congrArg (overviewContext (.taskDuration threshold percentile pattern)) hnew))
  by_contra hne
  rw [if_neg hne, if_pos rfl] at hquantile
  cases hquantile

/-! ### Which sequences see nothing -/

/-- **The memo is invisible to a sequence exactly when each of its quantile conditions asks
for the quantile of its slot's first reader.** -/
theorem invisible_iff (cs : List (F64 × AlertCondition)) : Invisible cs ↔ OneQuantile cs :=
  ⟨oneQuantile_of_invisible, invisible_of_oneQuantile⟩

/-- Two rules on the 95th percentile, or nearly so: one key, two levels. -/
def nearbyPercentiles : List (F64 × AlertCondition) :=
  [(.zero, .taskDuration (.fin 60) (.fin (95001 / 100000)) "*"),
    (.zero, .taskDuration (.fin 60) (.fin (95009 / 100000)) "*")]

theorem not_invisible_nearbyPercentiles : ¬ Invisible nearbyPercentiles := by
  intro h
  have hseen := h id unreadableMarker (fun _ _ => .ok (singleOut "0.9501"))
    [(.zero, .taskDuration (.fin 60) (.fin (95001 / 100000)) "*")] _ [] rfl
  have hp95 := congrArg EvaluationContext.p95Runtime hseen
  revert hp95
  decide +kernel

end AlertContextBuilder

end Feloxi.Alerting
