import Feloxi.Lib.F64

/-!
# Feloxi.Alerting.Stats

Pure arithmetic behind the anomaly and spike conditions
(`crates/alerting/src/stats.rs`). The square root of the z-score floor is a
parameter: nothing here depends on how it is rounded.
-/

namespace Feloxi.Alerting

/-- Minimum runtime samples in the current window before a latency z-score. -/
def minCurrentSamples : Nat := 3

/-- Minimum baseline runtime samples before a latency z-score. -/
def minBaselineSamples : Nat := 20

/-- Minimum tasks in the current window before an error-rate spike. -/
def minSpikeSamples : Nat := 5

/-- Cap on the reported spike factor. -/
def spikeFactorCap : F64 := .fin 999

/-- How long past `next_run_at` a beat schedule may run before it is missed. -/
def beatToleranceSecs : F64 := .fin 60

/-- A z-score together with the display values of alert summaries. -/
structure ZScore where
  zscore : F64
  current : F64
  baselineMean : F64
deriving Repr, DecidableEq

/-- `ZScore::default()`. -/
def ZScore.default : ZScore := ⟨.zero, .zero, .zero⟩

/-- Z-score of the current bucket count against per-bucket moments. -/
def throughputZscore (sqrt : F64 → F64) (current bucketSum bucketSumsq nTotal : F64) : ZScore :=
  if nTotal.lt (.fin 1) then
    ⟨.zero, current, .zero⟩
  else
    let mean := bucketSum.div nTotal
    let var := ((bucketSumsq.div nTotal).sub (mean.mul mean)).max .zero
    let std := ((sqrt var).max (sqrt mean)).max (.fin 1)
    ⟨(current.sub mean).div std, current, mean⟩

/-- Z-score of the current average latency against the baseline. -/
def latencyZscore (currentAvg : F64) (currentSamples : Nat) (baselineAvg baselineStd : F64)
    (baselineSamples : Nat) : ZScore :=
  if currentSamples < minCurrentSamples || baselineSamples < minBaselineSamples then
    .default
  else if !currentAvg.isFinite || !baselineAvg.isFinite then
    .default
  else
    let std := (baselineStd.max (baselineAvg.abs.mul (.fin (5 / 100)))).max (.fin (1 / 1000))
    ⟨(currentAvg.sub baselineAvg).div std, currentAvg, baselineAvg⟩

/-- An error-rate spike factor with the rates of alert summaries. -/
structure Spike where
  factor : F64
  currentRate : F64
  baselineRate : F64
deriving Repr, DecidableEq

/-- `Spike::default()`. -/
def Spike.default : Spike := ⟨.zero, .zero, .zero⟩

/-- Ratio of the current failure rate to the baseline failure rate. -/
def errorSpikeFactor (currentTotal currentFailures baselineTotal baselineFailures : Nat) :
    Spike :=
  if currentTotal < minSpikeSamples then
    .default
  else
    let currentRate := (F64.ofNat currentFailures).div (.ofNat currentTotal)
    if baselineTotal = 0 then
      ⟨if currentFailures > 0 then spikeFactorCap else .zero, currentRate, .zero⟩
    else
      let baselineRate := (F64.ofNat baselineFailures).div (.ofNat baselineTotal)
      let effective := baselineRate.max ((F64.fin (1 / 2)).div (.ofNat baselineTotal))
      ⟨(currentRate.div effective).min spikeFactorCap, currentRate, baselineRate⟩

/-- Normalize a rule's percentile to a quantile level: fractions are kept,
percents divided by a hundred, anything unusable becomes `0.95`. -/
def normalizePercentile (p : F64) : F64 :=
  let p := if p.gt (.fin 1) then p.div (.fin 100) else p
  if !p.isFinite || p.le .zero then .fin (95 / 100)
  else p.clamp (.fin (1 / 2)) (.fin (999 / 1000))

/-- One schedule of the scheduler, as cached for the Beat page. -/
structure BeatScheduleEntry where
  scheduleName : String
  nextRunAt : Option F64
deriving Repr, DecidableEq

/-- Count beat schedules that are past `next_run_at` by more than the tolerance. -/
def countMissedSchedules (entries : List BeatScheduleEntry) (filter : String) (now : F64) : Nat :=
  (((entries.filter fun e => filter.isEmpty || filter == "*" || e.scheduleName == filter).filter
    fun e => match e.nextRunAt with
      | some next => (now.sub next).gt beatToleranceSecs
      | none => false).length) % 2 ^ 32

end Feloxi.Alerting
