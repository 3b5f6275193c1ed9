import Feloxi.Alerting.Engine
import Mathlib.Logic.Function.Basic

/-!
# Feloxi.Alerting.Context

The per-pass evaluation context (`crates/api/src/alert_context.rs`). One builder
serves all rules of a tenant for one pass: it fetches only what a condition
reads, keeps each answer in a memo, and replaces a failed read by a fallback
value.

What the stores answer during the pass is the parameter `StoreReads`: one answer
for each query the builder can issue. Because of the memo a query is issued at
most once per pass, so an answer per query is no restriction. `failedReads`
records which reads failed; the source only logs them.
-/

namespace Feloxi.Alerting

/-- Window for conditions that carry no window parameter of their own. -/
def defaultWindowMinutes : Nat := 5

/-- Baseline lookback for the z-score conditions. -/
def anomalyBaselineHours : Nat := 24

/-- Widest supported rule window. -/
def maxWindowMinutes : Nat := 1440

/-- Widest supported spike baseline. -/
def maxBaselineHours : Nat := 24 * 7

/-- How far back to look for the newest event before declaring a tenant silent. -/
def noEventsLookbackMinutes : Nat := 60 * 24 * 30

/-- `clamp` on natural numbers. -/
def clampNat (x lo hi : Nat) : Nat := min (max x lo) hi

def clampWindow (windowMinutes : Nat) : Nat := clampNat windowMinutes 1 maxWindowMinutes

/-- Pick the depth for a queue-depth rule: exact queue name, or the deepest
queue when the rule says `*`/empty. -/
def depthForQueue (depths : List (String × Nat)) (queue : String) : Nat :=
  if queue.isEmpty || queue == "*" then (depths.map Prod.snd).foldl max 0
  else ((depths.find? fun d => d.1 == queue).map Prod.snd).getD 0

/-- Effective task pattern for scoped queries. -/
def patternOf (condition : AlertCondition) : String := (taskPattern condition).getD "*"

/-! ### What the stores answer -/

/-- The overview columns the alert conditions read. -/
structure OverviewStats where
  totalTasks : Nat
  failureCount : Nat
  p95Runtime : F64
deriving Repr, DecidableEq

/-- `OverviewStats::default()`. -/
def OverviewStats.default : OverviewStats := ⟨0, 0, .zero⟩

structure ThroughputMoments where
  bucketSum : F64
  bucketSumsq : F64
deriving Repr, DecidableEq

structure LatencyMoments where
  currentAvg : F64
  currentSamples : Nat
  baselineAvg : F64
  baselineStd : F64
  baselineSamples : Nat
deriving Repr, DecidableEq

structure ErrorRateStats where
  currentTotal : Nat
  currentFailures : Nat
  baselineTotal : Nat
  baselineFailures : Nat
deriving Repr, DecidableEq

/-- The answers of the metric stores of one tenant during one pass. -/
structure StoreReads where
  /-- `get_alert_overview_stats` by window, pattern and quantile level. -/
  overview : Nat → String → F64 → Except String OverviewStats
  /-- `get_queue_depths`. -/
  queueDepths : Except String (List (String × Nat))
  /-- The cached beat schedule; `none` when the key is absent. -/
  beatSchedule : Except String (Option (List BeatScheduleEntry))
  /-- `list_broker_configs`: the `is_active` flag of each row. -/
  brokerActive : Except String (List Bool)
  /-- `count_live_workers`: online set size and live count. -/
  liveWorkers : Except String (Nat × Nat)
  /-- `get_workers_last_seen`. -/
  workersLastSeen : Except String (Option F64)
  /-- `get_seconds_since_last_event` by lookback. -/
  secondsSinceLastEvent : Nat → Except String (Option F64)
  /-- `get_throughput_moments` by window, baseline hours and pattern. -/
  throughputMoments : Nat → Nat → String → Except String ThroughputMoments
  /-- `get_recent_completed_count` by window and pattern. -/
  recentCompletedCount : Nat → String → Except String Nat
  /-- `get_latency_moments` by window, baseline hours and pattern. -/
  latencyMoments : Nat → Nat → String → Except String LatencyMoments
  /-- `get_error_rate_stats` by window, baseline hours and pattern. -/
  errorRateStats : Nat → Nat → String → Except String ErrorRateStats

/-- The reads a builder can make, named by their memo slot. -/
inductive StoreRead where
  | overview (window : Nat) (pattern : String) (level : Nat)
  | queueDepths
  | beatSchedule
  | brokerActive
  | liveWorkers
  | workersLastSeen
  | lastEvent
  | throughput (window : Nat) (pattern : String)
  | latency (window : Nat) (pattern : String)
  | errorSpike (baselineHours : Nat) (pattern : String)
deriving Repr, DecidableEq

/-- What a read yields. -/
def StoreRead.Value : StoreRead → Type
  | .overview .. => OverviewStats
  | .queueDepths => List (String × Nat)
  | .beatSchedule => List BeatScheduleEntry
  | .brokerActive => Bool
  | .liveWorkers => Nat × Nat
  | .workersLastSeen => Option F64
  | .lastEvent => Option F64
  | .throughput .. => ZScore
  | .latency .. => ZScore
  | .errorSpike .. => Spike

/-- What a failed read is replaced by. -/
def StoreRead.fallback : (read : StoreRead) → read.Value
  | .overview .. => OverviewStats.default
  | .queueDepths => ([] : List (String × Nat))
  | .beatSchedule => ([] : List BeatScheduleEntry)
  | .brokerActive => false
  -- fail closed: pretend one live worker
  | .liveWorkers => ((0, 1) : Nat × Nat)
  | .workersLastSeen => (none : Option F64)
  -- fail closed: pretend an event just arrived
  | .lastEvent => some F64.zero
  | .throughput .. => ZScore.default
  | .latency .. => ZScore.default
  | .errorSpike .. => Spike.default

/-! ### The builder -/

/-- The memo, one slot per read, and the reads that failed so far. -/
structure AlertContextBuilder where
  memo : (read : StoreRead) → Option read.Value
  failedReads : List StoreRead

namespace AlertContextBuilder

/-- `AlertContextBuilder::new`. -/
def new : AlertContextBuilder := { memo := fun _ => none, failedReads := [] }

/-- A read through its memo slot: the kept value, else the store's answer, else
the fallback, which is kept as well. -/
def readSlot (read : StoreRead) (answer : Except String read.Value) (b : AlertContextBuilder) :
    read.Value × AlertContextBuilder :=
  match b.memo read, answer with
  | some v, _ => (v, b)
  | none, .ok v => (v, { b with memo := Function.update b.memo read (some v) })
  | none, .error _ => (read.fallback,
      { memo := Function.update b.memo read (some read.fallback)
        failedReads := read :: b.failedReads })

/-- The memo key of a quantile level: tenths of a basis point. -/
def levelKey (percentile : F64) : Nat := (percentile.mul (.fin 10000)).toU32

/-- `overview`. -/
def overview (reads : StoreReads) (window : Nat) (pattern : String) (percentile : F64) :
    AlertContextBuilder → OverviewStats × AlertContextBuilder :=
  readSlot (.overview window pattern (levelKey percentile))
    (reads.overview window pattern percentile)

/-- `queue_depths`. -/
def queueDepths (reads : StoreReads) :
    AlertContextBuilder → List (String × Nat) × AlertContextBuilder :=
  readSlot .queueDepths reads.queueDepths

/-- `beat_entries`. -/
def beatEntries (reads : StoreReads) :
    AlertContextBuilder → List BeatScheduleEntry × AlertContextBuilder :=
  readSlot .beatSchedule (reads.beatSchedule.map (·.getD []))

/-- `has_active_broker`. -/
def hasActiveBroker (reads : StoreReads) : AlertContextBuilder → Bool × AlertContextBuilder :=
  readSlot .brokerActive (reads.brokerActive.map (·.any id))

/-- The liveness read of `workers_offline`. -/
def workerLiveness (reads : StoreReads) :
    AlertContextBuilder → (Nat × Nat) × AlertContextBuilder :=
  readSlot .liveWorkers reads.liveWorkers

/-- The last-seen read of `workers_offline`. -/
def workersLastSeen (reads : StoreReads) :
    AlertContextBuilder → Option F64 × AlertContextBuilder :=
  readSlot .workersLastSeen reads.workersLastSeen

/-- `usize as u32` of the number of workers reported offline. -/
def offlineCount (online : Nat) : Nat := max online 1 % 2 ^ 32

/-- `workers_offline`. -/
def workersOffline (reads : StoreReads) (now : F64) (gracePeriodSeconds : Nat)
    (b : AlertContextBuilder) : Nat × AlertContextBuilder :=
  let (liveness, b) := workerLiveness reads b
  if liveness.2 > 0 then
    (0, b)
  else
    let (active, b) := hasActiveBroker reads b
    if !active then
      (0, b)
    else
      let (seen, b) := workersLastSeen reads b
      match seen with
      | some ts =>
        let age := now.sub ts
        (if age.ge (.ofNat gracePeriodSeconds) then offlineCount liveness.1 else 0, b)
      -- No worker ever seen: an active broker with no live worker is offline
      -- regardless of grace.
      | none => (offlineCount liveness.1, b)

/-- `seconds_since_last_event`. -/
def secondsSinceLastEvent (reads : StoreReads) (b : AlertContextBuilder) :
    F64 × AlertContextBuilder :=
  let (active, b) := hasActiveBroker reads b
  if !active then
    (.zero, b)
  else
    let (age, b) :=
      readSlot .lastEvent (reads.secondsSinceLastEvent noEventsLookbackMinutes) b
    match age with
    | some age => (age, b)
    | none => (.ofNat (noEventsLookbackMinutes * 60), b)

/-- The z-score of the two throughput reads, which are issued together. -/
def throughputAnswer (sqrt : F64 → F64) (reads : StoreReads) (window : Nat) (pattern : String) :
    Except String ZScore :=
  match reads.throughputMoments window anomalyBaselineHours pattern,
    reads.recentCompletedCount window pattern with
  | .ok m, .ok cur =>
    .ok (Alerting.throughputZscore sqrt (.ofNat cur) m.bucketSum m.bucketSumsq
      (.ofNat (anomalyBaselineHours * 60 / max window 1)))
  | .error e, _ => .error e
  | _, .error e => .error e

/-- `throughput_zscore`. -/
def throughputZscore (sqrt : F64 → F64) (reads : StoreReads) (window : Nat) (pattern : String) :
    AlertContextBuilder → ZScore × AlertContextBuilder :=
  readSlot (.throughput window pattern) (throughputAnswer sqrt reads window pattern)

/-- `latency_zscore`. -/
def latencyZscore (reads : StoreReads) (window : Nat) (pattern : String) :
    AlertContextBuilder → ZScore × AlertContextBuilder :=
  readSlot (.latency window pattern)
    ((reads.latencyMoments window anomalyBaselineHours pattern).map fun m =>
      Alerting.latencyZscore m.currentAvg m.currentSamples m.baselineAvg m.baselineStd
        m.baselineSamples)

/-- `error_spike`. -/
def errorSpike (reads : StoreReads) (baselineHours : Nat) (pattern : String) :
    AlertContextBuilder → Spike × AlertContextBuilder :=
  readSlot (.errorSpike baselineHours pattern)
    ((reads.errorRateStats defaultWindowMinutes baselineHours pattern).map fun s =>
      errorSpikeFactor s.currentTotal s.currentFailures s.baselineTotal s.baselineFailures)

/-- Build the evaluation context for one rule, fetching only the metrics its
condition type reads. -/
def contextFor (sqrt : F64 → F64) (reads : StoreReads) (now : F64) (condition : AlertCondition)
    (b : AlertContextBuilder) : EvaluationContext × AlertContextBuilder :=
  let ctx := EvaluationContext.default
  match condition with
  | .taskFailureRate _ windowMinutes _ =>
    let (stats, b) :=
      overview reads (clampWindow windowMinutes) (patternOf condition) (.fin (95 / 100)) b
    let rate := if stats.totalTasks > 0
      then (F64.ofNat stats.failureCount).div (.ofNat stats.totalTasks) else ctx.failureRate
    ({ ctx with failureRate := rate, recentFailures := stats.failureCount }, b)
  | .taskFailed _ =>
    let (stats, b) :=
      overview reads defaultWindowMinutes (patternOf condition) (.fin (95 / 100)) b
    ({ ctx with recentFailures := stats.failureCount }, b)
  | .taskDuration _ percentile _ =>
    let (stats, b) := overview reads defaultWindowMinutes (patternOf condition)
      (normalizePercentile percentile) b
    -- Holds the rule's percentile, not necessarily P95.
    ({ ctx with p95Runtime := stats.p95Runtime }, b)
  | .queueDepth _ queue =>
    let (depths, b) := queueDepths reads b
    ({ ctx with queueDepth := depthForQueue depths queue }, b)
  | .workerOffline gracePeriodSeconds =>
    let (n, b) := workersOffline reads now gracePeriodSeconds b
    ({ ctx with workersWentOffline := n }, b)
  | .beatMissed scheduleName =>
    let (entries, b) := beatEntries reads b
    ({ ctx with beatSchedulesMissed := countMissedSchedules entries scheduleName now }, b)
  | .noEvents _ =>
    let (age, b) := secondsSinceLastEvent reads b
    ({ ctx with secondsSinceLastEvent := age }, b)
  | .throughputAnomaly _ windowMinutes _ =>
    let (z, b) :=
      throughputZscore sqrt reads (clampWindow windowMinutes) (patternOf condition) b
    -- Display values are per-minute rates.
    let w := F64.ofNat (clampWindow windowMinutes)
    ({ ctx with
      throughputZscore := z.zscore
      currentThroughput := z.current.div w
      baselineThroughput := z.baselineMean.div w }, b)
  | .latencyAnomaly _ windowMinutes _ =>
    let (z, b) := latencyZscore reads (clampWindow windowMinutes) (patternOf condition) b
    ({ ctx with
      latencyZscore := z.zscore
      currentLatency := z.current
      baselineLatency := z.baselineMean }, b)
  | .errorRateSpike _ baselineHours _ =>
    let hours := clampNat baselineHours 1 maxBaselineHours
    let (spike, b) := errorSpike reads hours (patternOf condition) b
    ({ ctx with
      errorRateSpikeFactor := spike.factor
      currentErrorRate := spike.currentRate
      baselineErrorRate := spike.baselineRate }, b)

end AlertContextBuilder

end Feloxi.Alerting
