import Feloxi.Common
import Feloxi.Alerting.Evaluation
import Feloxi.Lib.Runs

/-!
# Feloxi.Alerting.System

Rule management (`crates/api/src/routes/alerts.rs`) and the runs of the alert
subsystem: evaluation passes, drain passes and API requests in any order. A run
is one process: it ends with a restart, which would start the throttle and the
resolve tracker anew.
-/

namespace Feloxi.Alerting

/-! ### Rule management -/

structure CreateAlertRuleRequest where
  name : String
  condition : AlertCondition
  channels : List AlertChannel
  cooldownSecs : Option Int
  severityOverride : Option String
  deriving Repr

structure UpdateAlertRuleRequest where
  name : String
  condition : AlertCondition
  channels : List AlertChannel
  cooldownSecs : Int
  isEnabled : Bool
  severityOverride : Option String
  deriving Repr

def severities : List String := ["info", "warning", "critical"]

/-- Reject unknown severity strings on rule overrides and channel floors. -/
def validateSeverities (severityOverride : Option String) (channels : List AlertChannel) :
    Except AppError Unit :=
  let named := severityOverride.toList ++ channels.filterMap (·.minSeverity)
  match named.find? fun s => !severities.contains s with
  | some s => .error (.badRequest ("unknown severity '" ++ s ++ "' (expected one of: " ++
      ", ".intercalate severities ++ ")"))
  | none => .ok ()

/-- Reject channels that reference an integration the tenant does not own. -/
def validateChannelIntegrations (w : World) (tenantId : Uuid) (channels : List AlertChannel) :
    Except AppError Unit :=
  let owned := (w.mapIntegrations tenantId).map (·.id)
  match (channels.filterMap (·.integrationId)).find? fun id => !owned.contains id with
  | some missing =>
    .error (.badRequest ("channel references unknown integration: " ++ missing.display))
  | none => .ok ()

/-- `create_rule`; `id` is the id drawn for the row. -/
def createRule (w : World) (tenantId id : Uuid) (req : CreateAlertRuleRequest) :
    Except AppError World := do
  validateChannelIntegrations w tenantId req.channels
  validateSeverities req.severityOverride req.channels
  if w.alertRules.any fun r => r.id == id then
    throw (.conflict "A record with this value already exists")
  return { w with alertRules := w.alertRules ++ [{
    id, tenantId
    name := req.name
    isEnabled := true
    condition := req.condition
    channels := req.channels
    cooldownSecs := req.cooldownSecs.getD 300
    severityOverride := req.severityOverride
    lastFiredAt := none }] }

/-- The row of a rule after an update. -/
def AlertRule.applyUpdate (r : AlertRule) (req : UpdateAlertRuleRequest) : AlertRule :=
  { r with
    name := req.name
    isEnabled := req.isEnabled
    condition := req.condition
    channels := req.channels
    cooldownSecs := req.cooldownSecs
    severityOverride := req.severityOverride }

/-- `update_rule`. -/
def updateRule (w : World) (tenantId id : Uuid) (req : UpdateAlertRuleRequest) :
    Except AppError World := do
  validateChannelIntegrations w tenantId req.channels
  validateSeverities req.severityOverride req.channels
  if w.alertRules.all fun r => r.id != id || r.tenantId != tenantId then
    throw (.notFound "Resource not found")
  return { w with alertRules := w.alertRules.map fun r =>
    if r.id == id && r.tenantId == tenantId then r.applyUpdate req else r }

/-- `delete_rule`; history rows and silences of the rule go with it. -/
def deleteRule (w : World) (tenantId id : Uuid) : World :=
  if w.alertRules.any fun r => r.id == id && r.tenantId == tenantId then
    { w with
      alertRules := w.alertRules.filter fun r => !(r.id == id && r.tenantId == tenantId)
      alertHistory := w.alertHistory.filter fun h => h.ruleId != id
      alertSilences := w.alertSilences.filter fun s => s.ruleId != some id }
  else w

/-! ### Runs -/

/-- A step of the subsystem. -/
inductive Step where
  | evaluate (env : PassEnv)
  | drain (env : DrainEnv)
  | createRule (tenantId id : Uuid) (req : CreateAlertRuleRequest)
  | updateRule (tenantId id : Uuid) (req : UpdateAlertRuleRequest)
  | deleteRule (tenantId id : Uuid)
  /-- The API creates or expires a silence between two passes. -/
  | silence (op : SilenceOp)
  /-- Time passes. -/
  | wait (duration : Nat)

/-- A request that fails leaves the state unchanged. -/
def orUnchanged (w : World) : Except AppError World → World
  | .ok w' => w'
  | .error _ => w

/-- One step. -/
def step (p : Platform) (w : World) : Step → World
  | .evaluate env => runAlertEvaluation p env w
  | .drain env => drainDeliveryRetries p env w
  | .createRule tenantId id req => orUnchanged w (Alerting.createRule w tenantId id req)
  | .updateRule tenantId id req => orUnchanged w (Alerting.updateRule w tenantId id req)
  | .deleteRule tenantId id => Alerting.deleteRule w tenantId id
  | .silence op => w.applySilenceOp op
  | .wait duration => { w with now := w.now + duration }

/-- The state after a run. -/
abbrev run (p : Platform) : World → List Step → World := Runs.run (step p)

/-! ### A small deployment

One tenant with one rule that fires while tasks fail: what the concrete runs of
this development start from. -/

def samplePlatform : Platform := { sqrt := id, decryptStr := .ok, jobRank := fun _ => 0 }

/-- Stores of a healthy tenant. -/
def calmReads : StoreReads where
  overview _ _ _ := .ok .default
  queueDepths := .ok []
  beatSchedule := .ok none
  brokerActive := .ok [true]
  liveWorkers := .ok (1, 1)
  workersLastSeen := .ok none
  secondsSinceLastEvent _ := .ok (some .zero)
  throughputMoments _ _ _ := .ok ⟨.zero, .zero⟩
  recentCompletedCount _ _ := .ok 0
  latencyMoments _ _ _ := .ok ⟨.zero, 0, .zero, .zero, 0⟩
  errorRateStats _ _ _ := .ok ⟨0, 0, 0, 0⟩

/-- Stores of a tenant with a failed task. -/
def troubledReads : StoreReads :=
  { calmReads with overview := fun _ _ _ => .ok { OverviewStats.default with failureCount := 1 } }

/-- A call that succeeds at once; `id` is the id it draws. -/
def sampleCall (id : Uuid) : Call where
  fails := false
  delay := 0
  landed := []
  reply := .response 200 "OK" none (.ok .null)
  uuid := id

/-- A pass in which every call succeeds at once. -/
def samplePass (reads : StoreReads) (id : Uuid) : PassEnv :=
  { calls := fun _ => sampleCall id, stores := fun _ => reads }

/-- The same pass with one call failing. -/
def PassEnv.failing (env : PassEnv) (pt : Point) : PassEnv :=
  { env with calls := fun q => { env.calls q with fails := (env.calls q).fails || q == pt } }

/-- The same pass with one send answered by an error of the provider. -/
def PassEnv.refusing (env : PassEnv) (pt : Point) : PassEnv :=
  { env with calls := fun q => if q = pt then { env.calls q with
      reply := .response 503 "Service Unavailable" none (.ok .null) } else env.calls q }

def sampleTenant : Tenant where
  id := 1
  name := "Acme"
  slug := "acme"
  settings := .obj []
  isActive := true
  createdAt := 0

def sampleHook : AlertChannel := .webhook "https://hooks.acme.test/alerts" none none

def sampleRule (channels : List AlertChannel) (cooldownSecs : Int) : AlertRule where
  id := 7
  tenantId := 1
  name := "Task failed"
  isEnabled := true
  condition := .taskFailed "*"
  channels := channels
  cooldownSecs := cooldownSecs
  severityOverride := none
  lastFiredAt := none

/-- A process that has just started. -/
def sampleWorld (rule : AlertRule) : World where
  now := 0
  tenants := [sampleTenant]
  alertRules := [rule]
  alertHistory := []
  historyIds := []
  alertSilences := []
  integrations := []
  deliveryRetry := []
  throttle := .new
  resolver := .new
  trace := []

end Feloxi.Alerting
