import Feloxi.Alerting.Models
import Feloxi.Alerting.Stats
import Feloxi.Lib.Significands

/-!
# Feloxi.Alerting.Engine

The condition evaluator and the texts of a fired alert
(`crates/alerting/src/engine.rs`).
-/

namespace Feloxi.Alerting

/-- The task-name pattern a condition is scoped to, if any. -/
def taskPattern : AlertCondition → Option String
  | .taskFailed taskName | .taskFailureRate _ _ taskName | .taskDuration _ _ taskName => some taskName
  | .throughputAnomaly _ _ taskName | .latencyAnomaly _ _ taskName => some taskName
  | .errorRateSpike _ _ taskName => some taskName
  | _ => none

/-- Context data gathered for alert evaluation. -/
structure EvaluationContext where
  failureRate : F64
  queueDepth : Nat
  workersWentOffline : Nat
  p95Runtime : F64
  beatSchedulesMissed : Nat
  recentFailures : Nat
  secondsSinceLastEvent : F64
  throughputZscore : F64
  latencyZscore : F64
  errorRateSpikeFactor : F64
  currentThroughput : F64
  baselineThroughput : F64
  currentLatency : F64
  baselineLatency : F64
  currentErrorRate : F64
  baselineErrorRate : F64
deriving Repr, DecidableEq

/-- `EvaluationContext::default()`: every metric zero. -/
def EvaluationContext.default : EvaluationContext where
  failureRate := .zero
  queueDepth := 0
  workersWentOffline := 0
  p95Runtime := .zero
  beatSchedulesMissed := 0
  recentFailures := 0
  secondsSinceLastEvent := .zero
  throughputZscore := .zero
  latencyZscore := .zero
  errorRateSpikeFactor := .zero
  currentThroughput := .zero
  baselineThroughput := .zero
  currentLatency := .zero
  baselineLatency := .zero
  currentErrorRate := .zero
  baselineErrorRate := .zero

/-- A `no_events` threshold in seconds: the product wraps at 64 bits. -/
def silenceSeconds (silenceMinutes : Nat) : Nat := silenceMinutes * 60 % 2 ^ 64

/-- Evaluate an alert condition. -/
def evaluateCondition (condition : AlertCondition) (context : EvaluationContext) : Bool :=
  match condition with
  | .taskFailureRate threshold _ _ => context.failureRate.gt threshold
  | .queueDepth threshold _ => decide (context.queueDepth > threshold)
  | .workerOffline _ => decide (context.workersWentOffline > 0)
  | .taskDuration thresholdSeconds _ _ => context.p95Runtime.gt thresholdSeconds
  | .beatMissed _ => decide (context.beatSchedulesMissed > 0)
  | .taskFailed _ => decide (context.recentFailures > 0)
  | .noEvents silenceMinutes =>
    context.secondsSinceLastEvent.gt (.ofU64 (silenceSeconds silenceMinutes))
  | .throughputAnomaly zscoreThreshold _ _ => context.throughputZscore.abs.gt zscoreThreshold
  | .latencyAnomaly zscoreThreshold _ _ => context.latencyZscore.gt zscoreThreshold
  | .errorRateSpike spikeFactor _ _ => context.errorRateSpikeFactor.gt spikeFactor

/-- Determine alert severity from condition type and severity of breach. -/
def determineSeverity : AlertCondition → String
  | .workerOffline _ => "critical"
  | .beatMissed _ => "critical"
  | .taskFailureRate threshold _ _ => if threshold.gt (.fin (1 / 2)) then "critical" else "warning"
  | .queueDepth _ _ => "warning"
  | .taskDuration _ _ _ => "warning"
  | .taskFailed _ => "warning"
  | .noEvents _ => "critical"
  | .throughputAnomaly zscoreThreshold _ _ =>
    if zscoreThreshold.gt (.fin 3) then "critical" else "warning"
  | .latencyAnomaly zscoreThreshold _ _ =>
    if zscoreThreshold.gt (.fin 3) then "critical" else "warning"
  | .errorRateSpike spikeFactor _ _ => if spikeFactor.gt (.fin 5) then "critical" else "warning"

/-- Generate a human-readable summary for a fired alert. -/
def generateSummary (condition : AlertCondition) (context : EvaluationContext) : String :=
  match condition with
  | .taskFailureRate threshold _ taskName =>
    "Task failure rate for '" ++ taskName ++ "' is " ++
      (context.failureRate.mul (.fin 100)).fmtFixed 1 ++ "% (threshold: " ++
      (threshold.mul (.fin 100)).fmtFixed 1 ++ "%)"
  | .queueDepth threshold queue =>
    "Queue '" ++ queue ++ "' depth is " ++ toString context.queueDepth ++ " (threshold: " ++
      toString threshold ++ ")"
  | .workerOffline _ => toString context.workersWentOffline ++ " worker(s) went offline"
  | .taskDuration thresholdSeconds percentile taskName =>
    "Task '" ++ taskName ++ "' P" ++ ((normalizePercentile percentile).mul (.fin 100)).fmtFixed 0 ++
      " runtime is " ++ context.p95Runtime.fmtFixed 1 ++ "s (threshold: " ++
      thresholdSeconds.fmtFixed 1 ++ "s)"
  | .beatMissed scheduleName => "Beat schedule '" ++ scheduleName ++ "' missed its expected run"
  | .taskFailed taskName =>
    "Task '" ++ taskName ++ "' failed (" ++ toString context.recentFailures ++ " recent failures)"
  | .noEvents silenceMinutes =>
    "No events received for " ++ (context.secondsSinceLastEvent.div (.fin 60)).fmtFixed 0 ++
      " minutes (threshold: " ++ toString silenceMinutes ++ " minutes)"
  | .throughputAnomaly _ _ taskName =>
    "Throughput anomaly for '" ++ taskName ++ "': " ++ context.currentThroughput.fmtFixed 1 ++
      " tasks/min (baseline: " ++ context.baselineThroughput.fmtFixed 1 ++ ", Z-score: " ++
      context.throughputZscore.fmtFixed 1 ++ ")"
  | .latencyAnomaly _ _ taskName =>
    "Latency anomaly for '" ++ taskName ++ "': " ++ context.currentLatency.fmtFixed 2 ++
      "s (baseline: " ++ context.baselineLatency.fmtFixed 2 ++ "s, Z-score: " ++
      context.latencyZscore.fmtFixed 1 ++ ")"
  | .errorRateSpike _ _ taskName =>
    "Error rate spike for '" ++ taskName ++ "': " ++
      (context.currentErrorRate.mul (.fin 100)).fmtFixed 1 ++ "% (baseline: " ++
      (context.baselineErrorRate.mul (.fin 100)).fmtFixed 1 ++ "%, " ++
      context.errorRateSpikeFactor.fmtFixed 1 ++ "x increase)"

/-- The serde tag of a condition. -/
def conditionTypeStr : AlertCondition → String
  | .taskFailureRate .. => "task_failure_rate"
  | .queueDepth .. => "queue_depth"
  | .workerOffline .. => "worker_offline"
  | .taskDuration .. => "task_duration"
  | .beatMissed .. => "beat_missed"
  | .taskFailed .. => "task_failed"
  | .noEvents .. => "no_events"
  | .throughputAnomaly .. => "throughput_anomaly"
  | .latencyAnomaly .. => "latency_anomaly"
  | .errorRateSpike .. => "error_rate_spike"

/-- A float as `json!` stores it: `null` unless finite. -/
def jsonF64 (x : F64) : Json := if x.isFinite then .float x else .null

/-- Generate condition-specific details for an alert. -/
def generateDetails (condition : AlertCondition) (ctx : EvaluationContext) : Json :=
  match condition with
  | .taskFailureRate threshold windowMinutes taskName =>
    .ofEntries [("task_name", .str taskName), ("failure_rate", jsonF64 ctx.failureRate),
      ("threshold", jsonF64 threshold), ("window_minutes", .int windowMinutes),
      ("recent_failures", .int ctx.recentFailures)]
  | .queueDepth threshold queue =>
    .ofEntries [("queue", .str queue), ("current_depth", .int ctx.queueDepth),
      ("threshold", .int threshold)]
  | .workerOffline gracePeriodSeconds =>
    .ofEntries [("workers_offline_count", .int ctx.workersWentOffline),
      ("grace_period_seconds", .int gracePeriodSeconds)]
  | .taskDuration thresholdSeconds percentile taskName =>
    .ofEntries [("task_name", .str taskName), ("p95_runtime", jsonF64 ctx.p95Runtime),
      ("threshold_seconds", jsonF64 thresholdSeconds), ("percentile", jsonF64 percentile)]
  | .beatMissed scheduleName => .ofEntries [("schedule_name", .str scheduleName)]
  | .taskFailed taskName =>
    .ofEntries [("task_name", .str taskName), ("recent_failures", .int ctx.recentFailures)]
  | .noEvents silenceMinutes =>
    .ofEntries [("silence_minutes", .int silenceMinutes),
      ("seconds_since_last_event", jsonF64 ctx.secondsSinceLastEvent)]
  | .throughputAnomaly zscoreThreshold windowMinutes taskName =>
    .ofEntries [("task_name", .str taskName),
      ("current_throughput", jsonF64 ctx.currentThroughput),
      ("baseline_throughput", jsonF64 ctx.baselineThroughput),
      ("zscore", jsonF64 ctx.throughputZscore), ("zscore_threshold", jsonF64 zscoreThreshold),
      ("window_minutes", .int windowMinutes)]
  | .latencyAnomaly zscoreThreshold windowMinutes taskName =>
    .ofEntries [("task_name", .str taskName), ("current_latency", jsonF64 ctx.currentLatency),
      ("baseline_latency", jsonF64 ctx.baselineLatency),
      ("zscore", jsonF64 ctx.latencyZscore), ("zscore_threshold", jsonF64 zscoreThreshold),
      ("window_minutes", .int windowMinutes)]
  | .errorRateSpike spikeFactor baselineHours taskName =>
    .ofEntries [("task_name", .str taskName),
      ("current_error_rate", jsonF64 ctx.currentErrorRate),
      ("baseline_error_rate", jsonF64 ctx.baselineErrorRate),
      ("spike_factor", jsonF64 ctx.errorRateSpikeFactor), ("spike_threshold", jsonF64 spikeFactor),
      ("baseline_hours", .int baselineHours)]

end Feloxi.Alerting
