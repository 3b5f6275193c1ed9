import Feloxi.Alerting.Context
import Feloxi.Lib.Memo
import Feloxi.Lib.Runs

/-!
# Feloxi.Alerting.FailClosed

What a failed store read does to a rule. Every read leaves its fallback in the
memo when it fails, and all fallbacks but one keep the condition from firing:
the last-seen read of a worker-offline rule falls back to "never seen", which the
rule takes as offline regardless of its grace period.

The argument is an invariant of the builder that each read keeps (`FailSafe`: the
slot of every failed read holds its fallback), and one lemma per group of
conditions saying what the fallback evaluates to.
-/

namespace Feloxi.Alerting

open AlertContextBuilder

/-- The reads the metric of a condition is computed from. -/
def dependsOn (condition : AlertCondition) : List StoreRead :=
  match condition with
  | .taskFailureRate _ w _ =>
    [.overview (clampWindow w) (patternOf condition) (levelKey (.fin (95 / 100)))]
  | .taskFailed _ =>
    [.overview defaultWindowMinutes (patternOf condition) (levelKey (.fin (95 / 100)))]
  | .taskDuration _ p _ =>
    [.overview defaultWindowMinutes (patternOf condition) (levelKey (normalizePercentile p))]
  | .queueDepth _ _ => [.queueDepths]
  | .workerOffline _ => [.liveWorkers, .brokerActive, .workersLastSeen]
  | .beatMissed _ => [.beatSchedule]
  | .noEvents _ => [.brokerActive, .lastEvent]
  | .throughputAnomaly _ w _ => [.throughput (clampWindow w) (patternOf condition)]
  | .latencyAnomaly _ w _ => [.latency (clampWindow w) (patternOf condition)]
  | .errorRateSpike _ h _ => [.errorSpike (clampNat h 1 maxBaselineHours) (patternOf condition)]

/-- The thresholds of a condition are not negative. -/
def ThresholdsNonNeg : AlertCondition → Prop
  | .taskFailureRate threshold _ _ => threshold.NonNeg
  | .taskDuration thresholdSeconds _ _ => thresholdSeconds.NonNeg
  | .throughputAnomaly zscoreThreshold _ _ => zscoreThreshold.NonNeg
  | .latencyAnomaly zscoreThreshold _ _ => zscoreThreshold.NonNeg
  | .errorRateSpike spikeFactor _ _ => spikeFactor.NonNeg
  | _ => True

/-- The builder that has served the given rules, each at its own time. -/
def builderAfter (sqrt : F64 → F64) (reads : StoreReads) (served : List (F64 × AlertCondition)) :
    AlertContextBuilder :=
  served.foldl (fun b c => (contextFor sqrt reads c.1 c.2 b).2) .new

namespace AlertContextBuilder

/-! ### The memo -/

/-- What a read settles to: its answer, or the fallback. -/
def settled (read : StoreRead) : Except String read.Value → read.Value
  | .ok v => v
  | .error _ => read.fallback

/-- The slots of a builder are a memo table of what the reads settle to. -/
theorem readSlot_fetch (read : StoreRead) (answer : Except String read.Value)
    (b : AlertContextBuilder) :
    (readSlot read answer b).1 = (Memo.fetch read (settled read answer) b.memo).1 ∧
      (readSlot read answer b).2.memo = (Memo.fetch read (settled read answer) b.memo).2 := by
  cases hslot : b.memo read with
  | some v =>
      rw [Memo.fetch_of_some hslot]
      simp only [readSlot, hslot]
      exact ⟨trivial, trivial⟩
  | none =>
      rw [Memo.fetch_of_none hslot]
      cases answer <;> simp only [readSlot, hslot, settled] <;> exact ⟨trivial, trivial⟩

/-! ### The builder invariant -/

/-- Every failed read has left its fallback in its slot. -/
def FailSafe (b : AlertContextBuilder) : Prop :=
  ∀ read ∈ b.failedReads, b.memo read = some read.fallback

theorem failSafe_new : FailSafe new := by simp [FailSafe, new]

/-- What a read returns is what its slot holds afterwards. -/
theorem readSlot_memo (read : StoreRead) (answer : Except String read.Value)
    (b : AlertContextBuilder) :
    (readSlot read answer b).2.memo read = some (readSlot read answer b).1 := by
  obtain ⟨hvalue, hmemo⟩ := readSlot_fetch read answer b
  rw [hvalue, hmemo, Memo.fetch_self, Memo.fetch_fst]

/-- A filled slot keeps its value whatever is read. -/
theorem readSlot_kept {b : AlertContextBuilder} {other : StoreRead} {v : other.Value}
    (h : b.memo other = some v) (read : StoreRead) (answer : Except String read.Value) :
    (readSlot read answer b).2.memo other = some v := by
  rw [(readSlot_fetch read answer b).2]
  exact Memo.fetch_kept h ..

/-- A read leaves the other slots as they are. -/
theorem readSlot_memo_other {other : StoreRead} (read : StoreRead) (h : other ≠ read)
    (answer : Except String read.Value) (b : AlertContextBuilder) :
    (readSlot read answer b).2.memo other = b.memo other := by
  rw [(readSlot_fetch read answer b).2]
  exact Memo.fetch_other h ..

theorem FailSafe.readSlot {b : AlertContextBuilder} (h : FailSafe b) (read : StoreRead)
    (answer : Except String read.Value) : FailSafe (readSlot read answer b).2 := by
  intro other hother
  cases hslot : b.memo read with
  | some v =>
      simp only [AlertContextBuilder.readSlot, hslot] at hother ⊢
      exact h other hother
  | none => cases answer with
    | ok v =>
        have hmem : other ∈ b.failedReads := by
          simpa only [AlertContextBuilder.readSlot, hslot] using hother
        exact readSlot_kept (h other hmem) read _
    | error e =>
        have hmem : other = read ∨ other ∈ b.failedReads := by
          simpa only [AlertContextBuilder.readSlot, hslot, List.mem_cons] using hother
        rcases hmem with rfl | hmem
        · simp only [AlertContextBuilder.readSlot, hslot, Function.update_self]
        · exact readSlot_kept (h other hmem) read _

/-- A read that has failed by the end of a call returned its fallback. -/
theorem FailSafe.readSlot_value {b : AlertContextBuilder} (h : FailSafe b) {read : StoreRead}
    {answer : Except String read.Value}
    (hfailed : read ∈ (AlertContextBuilder.readSlot read answer b).2.failedReads) :
    (AlertContextBuilder.readSlot read answer b).1 = read.fallback := by
  have hheld := h.readSlot read answer read hfailed
  rw [readSlot_memo] at hheld
  exact Option.some.inj hheld

/-! ### What the builder issues -/

/-- The queries the builder issues, each with the answer it gets. -/
inductive Issued (reads : StoreReads) :
    (read : StoreRead) → Except String read.Value → Prop
  | overview (w : Nat) (p : String) (level : F64) :
      Issued reads (.overview w p (levelKey level)) (reads.overview w p level)
  | queueDepths : Issued reads .queueDepths reads.queueDepths
  | beatSchedule : Issued reads .beatSchedule (reads.beatSchedule.map (·.getD []))
  | brokerActive : Issued reads .brokerActive (reads.brokerActive.map (·.any id))
  | liveWorkers : Issued reads .liveWorkers reads.liveWorkers
  | workersLastSeen : Issued reads .workersLastSeen reads.workersLastSeen
  | lastEvent : Issued reads .lastEvent (reads.secondsSinceLastEvent noEventsLookbackMinutes)
  | throughput (sqrt : F64 → F64) (w : Nat) (p : String) :
      Issued reads (.throughput w p) (throughputAnswer sqrt reads w p)
  | latency (w : Nat) (p : String) :
      Issued reads (.latency w p) ((reads.latencyMoments w anomalyBaselineHours p).map fun m =>
        Alerting.latencyZscore m.currentAvg m.currentSamples m.baselineAvg m.baselineStd
          m.baselineSamples)
  | errorSpike (h : Nat) (p : String) :
      Issued reads (.errorSpike h p) ((reads.errorRateStats defaultWindowMinutes h p).map
        fun s => errorSpikeFactor s.currentTotal s.currentFailures s.baselineTotal
          s.baselineFailures)

section Issuing

variable {sqrt : F64 → F64} {reads : StoreReads} {P : AlertContextBuilder → Prop}
  (hread : ∀ read answer b, Issued reads read answer → P b → P (readSlot read answer b).2)

include hread

theorem workersOffline_steps (now : F64) (grace : Nat) {b : AlertContextBuilder} (hb : P b) :
    P (workersOffline reads now grace b).2 := by
  have h₁ := hread _ _ b .liveWorkers hb
  have h₂ := hread _ _ _ .brokerActive h₁
  have h₃ := hread _ _ _ .workersLastSeen h₂
  simp only [workersOffline]
  split
  · exact h₁
  · split
    · exact h₂
    · split <;> exact h₃

theorem secondsSinceLastEvent_steps {b : AlertContextBuilder} (hb : P b) :
    P (secondsSinceLastEvent reads b).2 := by
  have h₁ := hread _ _ b .brokerActive hb
  have h₂ := hread _ _ _ .lastEvent h₁
  simp only [secondsSinceLastEvent]
  split
  · exact h₁
  · split <;> exact h₂

/-- **The builder rule.** What every issued read preserves, a call of `contextFor`
preserves. -/
theorem contextFor_steps (now : F64) (condition : AlertCondition) {b : AlertContextBuilder}
    (hb : P b) : P (contextFor sqrt reads now condition b).2 := by
  cases condition with
  | taskFailureRate t w p => exact hread _ _ b (.overview ..) hb
  | taskFailed p => exact hread _ _ b (.overview ..) hb
  | taskDuration t q p => exact hread _ _ b (.overview ..) hb
  | queueDepth t q => exact hread _ _ b .queueDepths hb
  | workerOffline g => exact workersOffline_steps hread now g hb
  | beatMissed s => exact hread _ _ b .beatSchedule hb
  | noEvents m => exact secondsSinceLastEvent_steps hread hb
  | throughputAnomaly t w p => exact hread _ _ b (.throughput ..) hb
  | latencyAnomaly t w p => exact hread _ _ b (.latency ..) hb
  | errorRateSpike f h p => exact hread _ _ b (.errorSpike ..) hb

theorem builderAfter_steps (hnew : P new) (served : List (F64 × AlertCondition)) :
    P (builderAfter sqrt reads served) := by
  unfold builderAfter
  refine Runs.foldl_invariant P ?_ hnew
  intro b c _ hb
  exact contextFor_steps hread c.1 c.2 hb

end Issuing

theorem builderAfter_failSafe (sqrt : F64 → F64) (reads : StoreReads)
    (served : List (F64 × AlertCondition)) : FailSafe (builderAfter sqrt reads served) :=
  builderAfter_steps (fun read answer _ _ h => h.readSlot read answer) failSafe_new served

/-! ### Reads with one answer

The worker reads are issued with the same answer whenever they are issued, so
their slots and their failures are determined by the stores. -/

/-- The slot of `read` reflects `answer`. -/
structure Tracks (read : StoreRead) (answer : Except String read.Value)
    (b : AlertContextBuilder) : Prop where
  value : ∀ v, b.memo read = some v → v = settled read answer
  failed : read ∈ b.failedReads → ∃ e, answer = .error e
  noted : ∀ v e, b.memo read = some v → answer = .error e → read ∈ b.failedReads

theorem tracks_new (read : StoreRead) (answer : Except String read.Value) :
    Tracks read answer new :=
  { value := by simp [new], failed := by simp [new], noted := by simp [new] }

theorem Tracks.self {read : StoreRead} {answer : Except String read.Value}
    {b : AlertContextBuilder} (h : Tracks read answer b) :
    Tracks read answer (readSlot read answer b).2 ∧
      (readSlot read answer b).1 = settled read answer := by
  cases hslot : b.memo read with
  | some v => simpa [readSlot, hslot] using ⟨h, h.value v hslot⟩
  | none => cases answer with
    | ok v =>
        refine ⟨⟨?_, ?_, ?_⟩, by simp [readSlot, hslot, settled]⟩
        · simp [readSlot, hslot, settled]
        · simpa [readSlot, hslot] using h.failed
        · simp
    | error e =>
        refine ⟨⟨?_, ?_, ?_⟩, by simp [readSlot, hslot, settled]⟩ <;>
          simp [readSlot, hslot, settled]

theorem Tracks.other {read other : StoreRead} {answer : Except String read.Value}
    {b : AlertContextBuilder} (h : Tracks read answer b) (hne : read ≠ other)
    (answer' : Except String other.Value) : Tracks read answer (readSlot other answer' b).2 := by
  have hmemo := readSlot_memo_other other hne answer' b
  have hfailed : read ∈ (readSlot other answer' b).2.failedReads ↔ read ∈ b.failedReads := by
    cases hslot : b.memo other <;> cases answer' <;> simp [readSlot, hslot, hne]
  refine ⟨?_, ?_, ?_⟩
  · simpa only [hmemo] using h.value
  · simpa only [hfailed] using h.failed
  · simpa only [hmemo, hfailed] using h.noted

/-- The three reads of a worker-offline rule, tracked together. -/
structure TracksWorkers (reads : StoreReads) (b : AlertContextBuilder) : Prop where
  liveWorkers : Tracks .liveWorkers reads.liveWorkers b
  brokerActive : Tracks .brokerActive (reads.brokerActive.map (·.any id)) b
  workersLastSeen : Tracks .workersLastSeen reads.workersLastSeen b

theorem TracksWorkers.step {reads : StoreReads} {b : AlertContextBuilder}
    (h : TracksWorkers reads b) {read : StoreRead} {answer : Except String read.Value}
    (hissued : Issued reads read answer) : TracksWorkers reads (readSlot read answer b).2 := by
  cases hissued with
  | liveWorkers =>
      exact ⟨h.liveWorkers.self.1, h.brokerActive.other (by simp) _,
        h.workersLastSeen.other (by simp) _⟩
  | brokerActive =>
      exact ⟨h.liveWorkers.other (by simp) _, h.brokerActive.self.1,
        h.workersLastSeen.other (by simp) _⟩
  | workersLastSeen =>
      exact ⟨h.liveWorkers.other (by simp) _, h.brokerActive.other (by simp) _,
        h.workersLastSeen.self.1⟩
  | _ =>
      exact ⟨h.liveWorkers.other (by simp) _, h.brokerActive.other (by simp) _,
        h.workersLastSeen.other (by simp) _⟩

theorem builderAfter_tracksWorkers (sqrt : F64 → F64) (reads : StoreReads)
    (served : List (F64 × AlertCondition)) :
    TracksWorkers reads (builderAfter sqrt reads served) :=
  builderAfter_steps (fun _ _ _ hissued h => h.step hissued)
    ⟨tracks_new _ _, tracks_new _ _, tracks_new _ _⟩ served

/-! ### What the fallbacks evaluate to -/

section Quiet

variable {sqrt : F64 → F64} {reads : StoreReads} {b : AlertContextBuilder}

theorem overview_failed (hb : FailSafe b) {w : Nat} {p : String} {level : F64}
    (hfailed : .overview w p (levelKey level) ∈ (overview reads w p level b).2.failedReads) :
    (overview reads w p level b).1 = OverviewStats.default :=
  hb.readSlot_value hfailed

theorem queueDepths_failed (hb : FailSafe b)
    (hfailed : .queueDepths ∈ (queueDepths reads b).2.failedReads) :
    (queueDepths reads b).1 = [] :=
  hb.readSlot_value hfailed

theorem beatEntries_failed (hb : FailSafe b)
    (hfailed : .beatSchedule ∈ (beatEntries reads b).2.failedReads) :
    (beatEntries reads b).1 = [] :=
  hb.readSlot_value hfailed

theorem throughputZscore_failed (hb : FailSafe b) {w : Nat} {p : String}
    (hfailed : .throughput w p ∈ (throughputZscore sqrt reads w p b).2.failedReads) :
    (throughputZscore sqrt reads w p b).1 = ZScore.default :=
  hb.readSlot_value hfailed

theorem latencyZscore_failed (hb : FailSafe b) {w : Nat} {p : String}
    (hfailed : .latency w p ∈ (latencyZscore reads w p b).2.failedReads) :
    (latencyZscore reads w p b).1 = ZScore.default :=
  hb.readSlot_value hfailed

theorem errorSpike_failed (hb : FailSafe b) {h : Nat} {p : String}
    (hfailed : .errorSpike h p ∈ (errorSpike reads h p b).2.failedReads) :
    (errorSpike reads h p b).1 = Spike.default :=
  hb.readSlot_value hfailed

/-- A failed read of either kind makes a silent tenant look alive. -/
theorem secondsSinceLastEvent_failed (reads : StoreReads) (hb : FailSafe b)
    (hfailed : .brokerActive ∈ (secondsSinceLastEvent reads b).2.failedReads ∨
      .lastEvent ∈ (secondsSinceLastEvent reads b).2.failedReads) :
    (secondsSinceLastEvent reads b).1 = .zero := by
  unfold secondsSinceLastEvent at hfailed ⊢
  cases hactive : (hasActiveBroker reads b).1 with
  | false => simp [hactive]
  | true =>
      have hb₁ : FailSafe (hasActiveBroker reads b).2 := hb.readSlot _ _
      have hb₂ := hb₁.readSlot .lastEvent (reads.secondsSinceLastEvent noEventsLookbackMinutes)
      have hbroker : .brokerActive ∉ (readSlot .lastEvent
          (reads.secondsSinceLastEvent noEventsLookbackMinutes)
          (hasActiveBroker reads b).2).2.failedReads := by
        intro hmem
        have hheld := hb₂ _ hmem
        have hkept := readSlot_kept (readSlot_memo .brokerActive
          (reads.brokerActive.map (·.any id)) b) .lastEvent
          (reads.secondsSinceLastEvent noEventsLookbackMinutes)
        rw [show (readSlot .brokerActive (reads.brokerActive.map (·.any id)) b).2 =
          (hasActiveBroker reads b).2 from rfl, hheld] at hkept
        have hfalse : (hasActiveBroker reads b).1 = false := (Option.some.inj hkept).symm
        rw [hactive] at hfalse
        cases hfalse
      simp only [hactive, Bool.not_true, Bool.false_eq_true, if_false] at hfailed ⊢
      have hlast : .lastEvent ∈ (readSlot .lastEvent
          (reads.secondsSinceLastEvent noEventsLookbackMinutes)
          (hasActiveBroker reads b).2).2.failedReads := by
        split at hfailed <;> exact hfailed.resolve_left hbroker
      rw [hb₁.readSlot_value hlast]
      rfl

end Quiet

/-! ### The worker-offline rule -/

section WorkerOffline

variable {reads : StoreReads} (now : F64) {b : AlertContextBuilder}

/-- The number of offline workers, from what the three reads settle to. -/
def offlineVerdict (reads : StoreReads) (now : F64) (gracePeriodSeconds : Nat) : Nat :=
  let liveness : Nat × Nat := settled .liveWorkers reads.liveWorkers
  let active : Bool := settled .brokerActive (reads.brokerActive.map (·.any id))
  let seen : Option F64 := settled .workersLastSeen reads.workersLastSeen
  if liveness.2 > 0 then 0
  else if !active then 0
  else match seen with
    | some ts => if (now.sub ts).ge (.ofNat gracePeriodSeconds) then offlineCount liveness.1 else 0
    | none => offlineCount liveness.1

theorem workersOffline_value (h : TracksWorkers reads b) (grace : Nat) :
    (workersOffline reads now grace b).1 = offlineVerdict reads now grace := by
  have h₁ : TracksWorkers reads (workerLiveness reads b).2 :=
    h.step .liveWorkers
  have h₂ : TracksWorkers reads (hasActiveBroker reads (workerLiveness reads b).2).2 :=
    h₁.step .brokerActive
  have hlive : (workerLiveness reads b).1 = settled .liveWorkers reads.liveWorkers :=
    h.liveWorkers.self.2
  have hactive : (hasActiveBroker reads (workerLiveness reads b).2).1 =
      settled .brokerActive (reads.brokerActive.map (·.any id)) := h₁.brokerActive.self.2
  have hseen : (workersLastSeen reads (hasActiveBroker reads (workerLiveness reads b).2).2).1 =
      settled .workersLastSeen reads.workersLastSeen := h₂.workersLastSeen.self.2
  simp only [workersOffline, offlineVerdict, hlive, hactive, hseen]
  split
  · rfl
  · split
    · rfl
    · cases (settled .workersLastSeen reads.workersLastSeen : Option F64) <;> rfl

theorem offlineVerdict_live_failed {e : String} (h : reads.liveWorkers = .error e) (grace : Nat) :
    offlineVerdict reads now grace = 0 := by
  simp [offlineVerdict, h, settled, StoreRead.fallback]

theorem offlineVerdict_broker_failed {e : String} (h : reads.brokerActive = .error e)
    (grace : Nat) : offlineVerdict reads now grace = 0 := by
  simp [offlineVerdict, h, settled, StoreRead.fallback, Except.map]

/-- With the last-seen read failed, the rule fires on the other two reads alone. -/
theorem offlineVerdict_unseen {e : String} (h : reads.workersLastSeen = .error e) (grace : Nat) :
    0 < offlineVerdict reads now grace ↔
      ∃ online flags, reads.liveWorkers = .ok (online, 0) ∧ reads.brokerActive = .ok flags ∧
        true ∈ flags ∧ 0 < offlineCount online := by
  cases hlive : reads.liveWorkers with
  | error e => simp [offlineVerdict_live_failed now hlive]
  | ok liveness => cases hbroker : reads.brokerActive with
    | error e => simp [offlineVerdict_broker_failed now hbroker]
    | ok flags =>
        obtain ⟨online, live⟩ := liveness
        by_cases hzero : live = 0
        · by_cases hactive : true ∈ flags
          · simp [offlineVerdict, h, hlive, hbroker, settled, StoreRead.fallback, Except.map,
              hzero, hactive]
          · simp [offlineVerdict, hlive, hbroker, settled, Except.map, hzero, hactive]
        · simp [offlineVerdict, hlive, settled, hzero, Nat.pos_of_ne_zero hzero]

/-- A worker-offline rule that goes past its first two reads makes the third. -/
theorem workersOffline_reads_lastSeen (h : TracksWorkers reads b) {online : Nat}
    {flags : List Bool} {e : String} (hlive : reads.liveWorkers = .ok (online, 0))
    (hbroker : reads.brokerActive = .ok flags) (hactive : true ∈ flags)
    (hseen : reads.workersLastSeen = .error e) (grace : Nat) :
    .workersLastSeen ∈ (workersOffline reads now grace b).2.failedReads := by
  have h₁ : TracksWorkers reads (workerLiveness reads b).2 := h.step .liveWorkers
  have h₂ : TracksWorkers reads (hasActiveBroker reads (workerLiveness reads b).2).2 :=
    h₁.step .brokerActive
  have h₃ : TracksWorkers reads (workersLastSeen reads
      (hasActiveBroker reads (workerLiveness reads b).2).2).2 := h₂.step .workersLastSeen
  have hnoted : .workersLastSeen ∈ (workersLastSeen reads
      (hasActiveBroker reads (workerLiveness reads b).2).2).2.failedReads :=
    h₃.workersLastSeen.noted _ e (readSlot_memo ..) hseen
  have hzero : (workerLiveness reads b).1 = (online, 0) := by
    rw [show (workerLiveness reads b).1 = _ from h.liveWorkers.self.2, hlive]
    rfl
  have htrue : (hasActiveBroker reads (workerLiveness reads b).2).1 = true := by
    rw [show (hasActiveBroker reads (workerLiveness reads b).2).1 = _ from
      h₁.brokerActive.self.2, hbroker]
    simpa [settled, Except.map] using hactive
  simp only [workersOffline, hzero, htrue, Nat.lt_irrefl, Bool.not_true, Bool.false_eq_true,
    gt_iff_lt, if_false]
  split <;> exact hnoted

end WorkerOffline

/-! ### Failing closed -/

/-- A rule asked for its context fails closed: if a read its metric depends on has
failed, the condition evaluates to false. -/
def FailsClosed (sqrt : F64 → F64) (reads : StoreReads) (served : List (F64 × AlertCondition))
    (now : F64) (condition : AlertCondition) : Prop :=
  let answer := contextFor sqrt reads now condition (builderAfter sqrt reads served)
  (∃ read ∈ dependsOn condition, read ∈ answer.2.failedReads) →
    evaluateCondition condition answer.1 = false

/-- A worker-offline rule of a tenant with an active broker and no live worker,
whose last-seen read fails. -/
def OfflineUnseen (reads : StoreReads) : AlertCondition → Prop
  | .workerOffline _ => (∃ e, reads.workersLastSeen = .error e) ∧
      ∃ online flags, reads.liveWorkers = .ok (online, 0) ∧ reads.brokerActive = .ok flags ∧
        true ∈ flags ∧ 0 < offlineCount online
  | _ => False

/-- The conditions whose metric is one read, and the silent-tenant condition. -/
theorem failsClosed_of_ne_workerOffline (sqrt : F64 → F64) (reads : StoreReads)
    (served : List (F64 × AlertCondition)) (now : F64) {condition : AlertCondition}
    (hnn : ThresholdsNonNeg condition) (hkind : ∀ g, condition ≠ .workerOffline g) :
    FailsClosed sqrt reads served now condition := by
  have hb := builderAfter_failSafe sqrt reads served
  rintro ⟨read, hread, hfailed⟩
  cases condition with
  | workerOffline g => exact absurd rfl (hkind g)
  | noEvents m =>
      have hzero := secondsSinceLastEvent_failed reads hb <| by
        simp only [dependsOn, List.mem_cons, List.not_mem_nil, or_false] at hread
        rcases hread with rfl | rfl
        · exact .inl hfailed
        · exact .inr hfailed
      simp [evaluateCondition, contextFor, hzero]
  | taskFailureRate t w p =>
      obtain rfl := List.mem_singleton.1 hread
      have hstats := overview_failed hb hfailed
      have hquiet : F64.gt .zero t = false := hnn
      simp [evaluateCondition, contextFor, hstats, OverviewStats.default, EvaluationContext.default, hquiet]
  | taskFailed p =>
      obtain rfl := List.mem_singleton.1 hread
      have hstats := overview_failed hb hfailed
      simp [evaluateCondition, contextFor, hstats, OverviewStats.default]
  | taskDuration t q p =>
      obtain rfl := List.mem_singleton.1 hread
      have hstats := overview_failed hb hfailed
      have hquiet : F64.gt .zero t = false := hnn
      simp [evaluateCondition, contextFor, hstats, OverviewStats.default, hquiet]
  | queueDepth t q =>
      obtain rfl := List.mem_singleton.1 hread
      have hdepths := queueDepths_failed hb hfailed
      simp [evaluateCondition, contextFor, hdepths, depthForQueue]
  | beatMissed s =>
      obtain rfl := List.mem_singleton.1 hread
      have hentries := beatEntries_failed hb hfailed
      simp [evaluateCondition, contextFor, hentries, countMissedSchedules]
  | throughputAnomaly t w p =>
      obtain rfl := List.mem_singleton.1 hread
      have hz := throughputZscore_failed hb hfailed
      have hquiet : F64.gt .zero t = false := hnn
      simp [evaluateCondition, contextFor, hz, ZScore.default, hquiet]
  | latencyAnomaly t w p =>
      obtain rfl := List.mem_singleton.1 hread
      have hz := latencyZscore_failed hb hfailed
      have hquiet : F64.gt .zero t = false := hnn
      simp [evaluateCondition, contextFor, hz, ZScore.default, hquiet]
  | errorRateSpike f h p =>
      obtain rfl := List.mem_singleton.1 hread
      have hspike := errorSpike_failed hb hfailed
      have hquiet : F64.gt .zero f = false := hnn
      simp [evaluateCondition, contextFor, hspike, Spike.default, hquiet]

/-- A worker-offline rule fails closed unless its last-seen read is the one that
decides. -/
theorem workerOffline_failsClosed_iff (sqrt : F64 → F64) (reads : StoreReads)
    (served : List (F64 × AlertCondition)) (now : F64) (grace : Nat) :
    FailsClosed sqrt reads served now (.workerOffline grace) ↔
      ¬ OfflineUnseen reads (.workerOffline grace) := by
  have htracks := builderAfter_tracksWorkers sqrt reads served
  have hafter : TracksWorkers reads
      (workersOffline reads now grace (builderAfter sqrt reads served)).2 :=
    workersOffline_steps (fun _ _ _ hissued h => h.step hissued) now grace htracks
  have hvalue := workersOffline_value now htracks grace
  have heval : evaluateCondition (.workerOffline grace)
      (contextFor sqrt reads now (.workerOffline grace) (builderAfter sqrt reads served)).1 =
        decide (0 < offlineVerdict reads now grace) := by
    simp [evaluateCondition, contextFor, hvalue]
  constructor
  · rintro hclosed ⟨⟨e, hseen⟩, hrest⟩
    have hfires := (offlineVerdict_unseen now hseen grace).2 hrest
    obtain ⟨online, flags, hlive, hbroker, hactive, -⟩ := hrest
    have hquiet := hclosed ⟨.workersLastSeen, by simp [dependsOn],
      workersOffline_reads_lastSeen now htracks hlive hbroker hactive hseen grace⟩
    rw [heval] at hquiet
    exact absurd hfires (of_decide_eq_false hquiet)
  · rintro hseen ⟨read, hread, hfailed⟩
    rw [heval]
    refine decide_eq_false ?_
    simp only [dependsOn, List.mem_cons, List.not_mem_nil, or_false] at hread
    rcases hread with rfl | rfl | rfl
    · obtain ⟨e, he⟩ := hafter.liveWorkers.failed hfailed
      simp [offlineVerdict_live_failed now he]
    · obtain ⟨e, he⟩ := hafter.brokerActive.failed hfailed
      cases hbroker : reads.brokerActive with
      | error e' => simp [offlineVerdict_broker_failed now hbroker]
      | ok flags => simp [hbroker, Except.map] at he
    · obtain ⟨e, he⟩ := hafter.workersLastSeen.failed hfailed
      intro hfires
      exact hseen ⟨⟨e, he⟩, (offlineVerdict_unseen now he grace).1 hfires⟩

/-- **Failing closed.** A rule with non-negative thresholds fails closed exactly
when it is not a worker-offline rule left with an unreadable last-seen marker. -/
theorem failsClosed_iff (sqrt : F64 → F64) (reads : StoreReads)
    (served : List (F64 × AlertCondition)) (now : F64) (condition : AlertCondition)
    (hnn : ThresholdsNonNeg condition) :
    FailsClosed sqrt reads served now condition ↔ ¬ OfflineUnseen reads condition := by
  by_cases hkind : ∃ g, condition = .workerOffline g
  · obtain ⟨g, rfl⟩ := hkind
    exact workerOffline_failsClosed_iff sqrt reads served now g
  · rw [not_exists] at hkind
    have hseen : ¬ OfflineUnseen reads condition := by
      cases condition <;> first | exact absurd rfl (hkind _) | exact not_false
    exact iff_of_true (failsClosed_of_ne_workerOffline sqrt reads served now hnn hkind) hseen

/-- Stores of a tenant whose brokers are active and whose workers are gone, with
only the last-seen marker unreadable. -/
def unreadableMarker : StoreReads where
  overview _ _ _ := .ok .default
  queueDepths := .ok []
  beatSchedule := .ok none
  brokerActive := .ok [true]
  liveWorkers := .ok (2, 0)
  workersLastSeen := .error "redis: connection reset"
  secondsSinceLastEvent _ := .ok none
  throughputMoments _ _ _ := .ok ⟨.zero, .zero⟩
  recentCompletedCount _ _ := .ok 0
  latencyMoments _ _ _ := .ok ⟨.zero, 0, .zero, .zero, 0⟩
  errorRateStats _ _ _ := .ok ⟨0, 0, 0, 0⟩

theorem failsClosed_iff_unreadableMarker :
    ThresholdsNonNeg (.workerOffline 300) ∧
      (FailsClosed id unreadableMarker [] .zero (.workerOffline 300) ↔
        ¬ OfflineUnseen unreadableMarker (.workerOffline 300)) :=
  ⟨trivial, failsClosed_iff id unreadableMarker [] .zero (.workerOffline 300) trivial⟩

/-- The rule fires on the failed read, whatever its grace period would have said. -/
theorem not_failsClosed_unreadableMarker :
    ¬ FailsClosed id unreadableMarker [] .zero (.workerOffline 300) := by
  intro hclosed
  have hfires : evaluateCondition (.workerOffline 300)
      (contextFor id unreadableMarker .zero (.workerOffline 300) new).1 = true := by decide
  have hquiet := hclosed ⟨.workersLastSeen, by decide, by decide⟩
  exact absurd (hfires.symm.trans hquiet) (by decide)

end AlertContextBuilder

end Feloxi.Alerting
