import Feloxi.Lib.Json
import Feloxi.Lib.Uuid

/-!
# Feloxi.Alerting.Models

The alert types shared by the database layer, the evaluation engine and the
dispatcher (`crates/db/src/postgres/models.rs`): conditions, notification
channels, rules, history rows, silences and integrations.

Columns no modelled function reads (descriptions, audit columns) are left out.
Timestamps are nanoseconds on one clock.
-/

namespace Feloxi.Alerting

/-- A point on the clock, in nanoseconds. -/
abbrev Instant := Nat

/-- One second in clock units. -/
def nanosPerSec : Nat := 10 ^ 9

/-- `Duration::from_secs`. -/
def fromSecs (secs : Nat) : Nat := secs * nanosPerSec

/-- Alert condition types. -/
inductive AlertCondition where
  | taskFailureRate (threshold : F64) (windowMinutes : Nat) (taskName : String)
  | queueDepth (threshold : Nat) (queue : String)
  | workerOffline (gracePeriodSeconds : Nat)
  | taskDuration (thresholdSeconds percentile : F64) (taskName : String)
  | beatMissed (scheduleName : String)
  | taskFailed (taskName : String)
  | noEvents (silenceMinutes : Nat)
  | throughputAnomaly (zscoreThreshold : F64) (windowMinutes : Nat) (taskName : String)
  | latencyAnomaly (zscoreThreshold : F64) (windowMinutes : Nat) (taskName : String)
  | errorRateSpike (spikeFactor : F64) (baselineHours : Nat) (taskName : String)
deriving Repr, DecidableEq

/-- Alert notification channel configuration. The `*Connection` variants
reference a stored integration; the others carry their secret inline. -/
inductive AlertChannel where
  | slack (webhookUrl : String) (minSeverity : Option String)
  | email (recipients : List String) (minSeverity : Option String)
  | webhook (url : String) (headers : Option (List (String × String)))
      (minSeverity : Option String)
  | pagerDuty (routingKey : String) (minSeverity : Option String)
  | slackConnection (integrationId : Uuid) (channelId channelName : String)
      (minSeverity : Option String)
  | discordConnection (integrationId : Uuid) (minSeverity : Option String)
  | pagerDutyConnection (integrationId : Uuid) (minSeverity : Option String)
  | webhookConnection (integrationId : Uuid) (minSeverity : Option String)
deriving Repr, DecidableEq

/-- The channel's severity floor, if configured. -/
def AlertChannel.minSeverity : AlertChannel → Option String
  | .slack _ m | .email _ m | .webhook _ _ m | .pagerDuty _ m => m
  | .slackConnection _ _ _ m | .discordConnection _ m => m
  | .pagerDutyConnection _ m | .webhookConnection _ m => m

/-- The integration a channel references, if any. -/
def AlertChannel.integrationId : AlertChannel → Option Uuid
  | .slackConnection i _ _ _ | .discordConnection i _ => some i
  | .pagerDutyConnection i _ | .webhookConnection i _ => some i
  | _ => none

/-- Delivery status for a single notification channel. -/
structure ChannelDeliveryStatus where
  success : Bool
  error : Option String
deriving Repr, DecidableEq

/-- A connected notification service. -/
structure Integration where
  id : Uuid
  tenantId : Uuid
  status : String
  config : Json
  secretEnc : Option String
deriving Repr

structure Tenant where
  id : Uuid
  name : String
  slug : String
  settings : Json
  isActive : Bool
  createdAt : Instant
deriving Repr

structure AlertRule where
  id : Uuid
  tenantId : Uuid
  name : String
  isEnabled : Bool
  condition : AlertCondition
  channels : List AlertChannel
  /-- An `i32` column. -/
  cooldownSecs : Int
  severityOverride : Option String
  lastFiredAt : Option Instant
deriving Repr

/-- A maintenance window; `ruleId = none` covers every rule of the tenant. -/
structure AlertSilence where
  id : Uuid
  tenantId : Uuid
  ruleId : Option Uuid
  startsAt : Instant
  endsAt : Instant
deriving Repr, DecidableEq

structure AlertHistoryRow where
  id : Uuid
  tenantId : Uuid
  ruleId : Uuid
  firedAt : Instant
  resolvedAt : Option Instant
  severity : String
  summary : String
  details : Json
  channelsSent : List (String × ChannelDeliveryStatus)
deriving Repr

/-- An alert that has been triggered. -/
structure FiredAlert where
  id : Uuid
  ruleId : Uuid
  tenantId : Uuid
  ruleName : String
  conditionType : Option String
  severity : String
  summary : String
  details : Json
  firedAt : F64
deriving Repr, DecidableEq

/-- The tenant an alert belongs to, rendered into every outbound notification. -/
structure AlertTenant where
  id : Uuid
  name : String
  slug : String
deriving Repr, DecidableEq

/-- `From<&Tenant>`. -/
def AlertTenant.ofTenant (tenant : Tenant) : AlertTenant :=
  { id := tenant.id, name := tenant.name, slug := tenant.slug }

end Feloxi.Alerting
