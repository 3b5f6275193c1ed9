import Feloxi.Alerting.Channels
import Mathlib.Logic.Function.Basic

/-!
# Feloxi.Alerting.Recovery

The policy of the alert loop that lives in the process: the clear streaks of open
incidents and the retry policy (`crates/alerting/src/recovery.rs`), and the
cooldown map (`crates/alerting/src/throttle.rs`).
-/

namespace Feloxi.Alerting

/-! ### Resolve tracker -/

/-- Consecutive clear evaluations before an open incident resolves. -/
def clearStreakToResolve : Nat := 2

/-- Tracks consecutive clear evaluations for open incidents. -/
structure ResolveTracker where
  clearStreaks : Uuid → Option Nat

namespace ResolveTracker

def new : ResolveTracker := ⟨fun _ => none⟩

/-- The rule fired: any clear streak is broken. -/
def recordFiring (t : ResolveTracker) (ruleId : Uuid) : ResolveTracker :=
  ⟨Function.update t.clearStreaks ruleId none⟩

/-- The length of a streak with one more clear evaluation. -/
def nextStreak (t : ResolveTracker) (ruleId : Uuid) : Nat := (t.clearStreaks ruleId).getD 0 + 1

/-- The rule has an open incident but evaluated clear; true when the streak
reaches the resolve threshold. (The counter is a `u32`; it never passes the
threshold, where the caller forgets the rule.) -/
def recordClear (t : ResolveTracker) (ruleId : Uuid) : Bool × ResolveTracker :=
  (decide (clearStreakToResolve ≤ t.nextStreak ruleId),
    ⟨Function.update t.clearStreaks ruleId (some (t.nextStreak ruleId))⟩)

/-- Forget a rule once its incident is resolved or the rule disappeared. -/
def forget (t : ResolveTracker) (ruleId : Uuid) : ResolveTracker :=
  ⟨Function.update t.clearStreaks ruleId none⟩

section

variable (t : ResolveTracker) (ruleId other : Uuid)

@[simp] theorem new_clearStreaks : new.clearStreaks ruleId = none := rfl

@[simp] theorem recordFiring_self : (t.recordFiring ruleId).clearStreaks ruleId = none := by
  simp [recordFiring]

@[simp] theorem recordClear_self :
    (t.recordClear ruleId).2.clearStreaks ruleId = some (t.nextStreak ruleId) := by
  simp [recordClear]

@[simp] theorem forget_self : (t.forget ruleId).clearStreaks ruleId = none := by
  simp [forget]

variable {ruleId other}

@[simp] theorem recordFiring_of_ne (h : other ≠ ruleId) :
    (t.recordFiring ruleId).clearStreaks other = t.clearStreaks other := by
  simp [recordFiring, h]

@[simp] theorem recordClear_of_ne (h : other ≠ ruleId) :
    (t.recordClear ruleId).2.clearStreaks other = t.clearStreaks other := by
  simp [recordClear, h]

@[simp] theorem forget_of_ne (h : other ≠ ruleId) :
    (t.forget ruleId).clearStreaks other = t.clearStreaks other := by
  simp [forget, h]

end

end ResolveTracker

/-! ### Routing and retry policy -/

/-- Severity rank for channel routing; unknown strings rank as info. -/
def severityRank (severity : String) : Nat :=
  match severity with
  | "critical" => 2
  | "warning" => 1
  | _ => 0

/-- Whether a channel with the given severity floor accepts an alert of
`severity`. -/
def channelAccepts (minSeverity : Option String) (severity : String) : Bool :=
  match minSeverity with
  | none => true
  | some min => decide (severityRank severity ≥ severityRank min)

/-- Delivery attempts per channel per incident, including the initial send. -/
def maxDeliveryAttempts : Nat := 3

/-- Whether a failed delivery is worth retrying. -/
def isRetryable (result : SendResult) : Bool :=
  if result.success then false
  else match result.status with
    | none => true
    | some s => s == 429 || decide (s ≥ 500)

/-- Seconds until the next attempt; a provider hint wins when longer. -/
def backoffSecs (attempt : Nat) (retryAfter : Option F64) : F64 :=
  let base := match attempt with
    | 1 => F64.fin 60
    | 2 => F64.fin 300
    | _ => F64.fin 900
  match retryAfter with
  | some ra => if ra.isFinite && ra.gt base then ra.min (.fin 3600) else base
  | none => base

/-! ### Throttle -/

/-- In-memory throttle for alert de-duplication. -/
structure AlertThrottle where
  lastFired : Uuid → Option Instant

/-- `Duration::from_secs(cooldown_secs as u64)`: a negative column value wraps. -/
def cooldown (cooldownSecs : Int) : Nat := fromSecs (cooldownSecs % 2 ^ 64).toNat

namespace AlertThrottle

def new : AlertThrottle := ⟨fun _ => none⟩

/-- Check if an alert rule is currently throttled. -/
def isThrottled (t : AlertThrottle) (now : Instant) (ruleId : Uuid) (cooldown : Nat) : Bool :=
  match t.lastFired ruleId with
  | some last => decide (now - last < cooldown)
  | none => false

/-- Record that an alert was fired. -/
def recordFired (t : AlertThrottle) (now : Instant) (ruleId : Uuid) : AlertThrottle :=
  ⟨Function.update t.lastFired ruleId (some now)⟩

/-- Clean up expired entries. -/
def cleanup (t : AlertThrottle) (now : Instant) (maxCooldown : Nat) : AlertThrottle :=
  ⟨fun ruleId => (t.lastFired ruleId).filter fun last => decide (now - last < maxCooldown)⟩

@[simp] theorem recordFired_self (t : AlertThrottle) (now : Instant) (ruleId : Uuid) :
    (t.recordFired now ruleId).lastFired ruleId = some now := by
  simp [recordFired]

@[simp] theorem recordFired_of_ne (t : AlertThrottle) (now : Instant) {ruleId other : Uuid}
    (h : other ≠ ruleId) : (t.recordFired now ruleId).lastFired other = t.lastFired other := by
  simp [recordFired, h]

end AlertThrottle

end Feloxi.Alerting
