import Feloxi.Alerting.Dispatch

/-!
# Feloxi.Alerting.Evaluation

One pass of the alert loop (`run_alert_evaluation` in `crates/api/src/main.rs`).

Per tenant the pass loads the enabled rules, the open incidents, the
integrations and the active silences, closes the incidents whose rule is not in
the list, and then takes every rule through the incident state machine: still
firing, new incident, open but clear, quiet. Each of the four cases is a
definition of its own.
-/

namespace Feloxi.Alerting

/-- The awaited calls of a pass. -/
inductive Point where
  | listTenants
  | listRules (tenant : Uuid)
  | listOpen (tenant : Uuid)
  | silentClose (tenant rule : Uuid)
  | integrations (tenant : Uuid)
  | silences (tenant : Uuid)
  | context (rule : Uuid)
  /-- Not a wait: draws the id of an alert. -/
  | alertId (rule : Uuid)
  | fire (rule : Uuid) (channel : Nat)
  | fireRevoke (rule : Uuid) (channel : Nat)
  | insertHistory (rule : Uuid)
  | touchRule (rule : Uuid)
  | schedule (rule : Uuid) (failure : Nat)
  /-- Not a wait: time between the last call of a firing and its record. -/
  | recordFired (rule : Uuid)
  | resolve (rule : Uuid)
  | notice (rule : Uuid) (channel : Nat)
  | noticeRevoke (rule : Uuid) (channel : Nat)
  /-- Not a wait: time before the throttle is cleaned up. -/
  | cleanup
  deriving Repr, DecidableEq

/-- The outcomes of one pass: the awaited calls, and what the metric stores of
each tenant answer. -/
structure PassEnv where
  calls : Point → Call
  stores : Uuid → StoreReads

/-- What a pass has loaded for a tenant. -/
structure TenantPass where
  tenant : Tenant
  /-- The enabled rules. -/
  rules : List AlertRule
  /-- The open incidents by rule, with their start. -/
  openAlerts : List (Uuid × Instant)
  integrations : List Integration
  silences : List AlertSilence

/-- `open_alerts.get(&rule_id)`. -/
def TenantPass.openSince (tp : TenantPass) (ruleId : Uuid) : Option Instant :=
  (tp.openAlerts.find? fun o => o.1 == ruleId).map Prod.snd

/-- Whether a list of silences covers a rule. -/
def isSilenced (silences : List AlertSilence) (ruleId : Uuid) : Bool :=
  silences.any fun s => s.ruleId == none || s.ruleId == some ruleId

/-- The severity incidents of a rule are routed by. -/
def AlertRule.fireSeverity (rule : AlertRule) : String :=
  rule.severityOverride.getD (determineSeverity rule.condition)

/-- The channels of a rule whose severity floor accepts its incidents. -/
def AlertRule.acceptingChannels (rule : AlertRule) : List AlertChannel :=
  rule.channels.filter fun c => channelAccepts c.minSeverity rule.fireSeverity

/-- `format_duration_secs`. -/
def formatDurationSecs (secs : F64) : String :=
  if secs.lt (.fin (1 / 1000)) then (secs.mul (.fin 1000000)).fmtFixed 0 ++ "μs"
  else if secs.lt (.fin 1) then (secs.mul (.fin 1000)).fmtFixed 1 ++ "ms"
  else if secs.lt (.fin 60) then secs.fmtFixed 2 ++ "s"
  else if secs.lt (.fin 3600) then
    let mins := (secs.div (.fin 60)).floor
    let remaining := secs.sub (mins.mul (.fin 60))
    mins.fmtFixed 0 ++ "m " ++ remaining.fmtFixed 0 ++ "s"
  else
    let hours := (secs.div (.fin 3600)).floor
    let remaining := secs.sub (hours.mul (.fin 3600))
    let mins := (remaining.div (.fin 60)).floor
    hours.fmtFixed 0 ++ "h " ++ mins.fmtFixed 0 ++ "m"

section Rule

variable (p : Platform) (env : PassEnv) (tp : TenantPass)

/-! ### New incident -/

/-- The details of a fired alert, marked when the rule is silenced. -/
def firedDetails (condition : AlertCondition) (ctx : EvaluationContext) (silenced : Bool) : Json :=
  let details := generateDetails condition ctx
  if silenced then details.set "silenced" (.bool true) else details

/-- The alert of a new incident. -/
def firedAlert (rule : AlertRule) (ctx : EvaluationContext) (now : Instant) : FiredAlert where
  id := (env.calls (.alertId rule.id)).uuid
  ruleId := rule.id
  tenantId := tp.tenant.id
  ruleName := rule.name
  conditionType := some (conditionTypeStr rule.condition)
  severity := rule.fireSeverity
  summary := generateSummary rule.condition ctx
  details := firedDetails rule.condition ctx (isSilenced tp.silences rule.id)
  firedAt := timestampF64 now

/-- The delivery log of a firing, keyed per delivery. -/
def deliveryLog (results : List (AlertChannel × SendResult)) :
    List (String × ChannelDeliveryStatus) :=
  results.foldl (fun log r => insertLog r.2.deliveryKey
    { success := r.2.success, error := r.2.error } log) []

/-- `record_alert_fired`: two statements; an error of the second leaves the
effect of the first. -/
def recordAlertFired (rule : AlertRule) (firing : Nat) (alert : FiredAlert)
    (log : List (String × ChannelDeliveryStatus)) (w : World) : Option Uuid × World :=
  let insert := env.calls (.insertHistory rule.id)
  let w := w.advance insert
  if insert.fails || w.historyIds.contains insert.uuid then (none, w)
  else
    let w := (w.insertHistory {
      id := insert.uuid
      tenantId := tp.tenant.id
      ruleId := rule.id
      firedAt := w.now
      resolvedAt := none
      severity := alert.severity
      summary := alert.summary
      details := alert.details
      channelsSent := log }).emit (.opened tp.tenant.id rule.id insert.uuid firing)
    let touch := env.calls (.touchRule rule.id)
    let w := w.advance touch
    if touch.fails then (none, w) else (some insert.uuid, w.touchRule rule.id)

/-- Queue the retries of a firing against its history row. -/
def scheduleRetries (rule : AlertRule) (alert : FiredAlert) (historyId : Uuid)
    (failed : List (AlertChannel × SendResult)) (w : World) : World :=
  failed.zipIdx.foldl (fun w f => maybeScheduleRetry (env.calls (.schedule rule.id f.2))
    tp.tenant.id historyId 1 f.1.1 alert f.1.2 w) w

/-- Raise an incident: notify, record, queue retries, start the cooldown. -/
def raiseIncident (rule : AlertRule) (ctx : EvaluationContext) (w : World) : World :=
  let firing := w.trace.length
  let alert := firedAlert env tp rule ctx w.now
  let channels := if isSilenced tp.silences rule.id then [] else rule.acceptingChannels
  let (results, w) := deliverAll p (fun i => env.calls (.fire rule.id i))
    (fun i => env.calls (.fireRevoke rule.id i)) tp.tenant tp.integrations (.fire firing) alert
    channels 0 w
  let (row, w) := recordAlertFired env tp rule firing alert (deliveryLog results) w
  let w := match row with
    | some historyId =>
      scheduleRetries env tp rule alert historyId (results.filter fun r => !r.2.success) w
    | none => w
  let w := w.emit (.alertFired tp.tenant.id rule.id rule.name alert.severity alert.summary)
  let w := w.advance (env.calls (.recordFired rule.id))
  { w with throttle := w.throttle.recordFired w.now rule.id }.emit
    (.fireRecorded rule.id w.now rule.cooldownSecs)

/-- New incident, unless the rule is inside the flap cooldown. -/
def newIncident (rule : AlertRule) (ctx : EvaluationContext) (w : World) : World :=
  let w := { w with resolver := w.resolver.recordFiring rule.id }
  if w.throttle.isThrottled w.now rule.id (cooldown rule.cooldownSecs) then w
  else raiseIncident p env tp rule ctx w

/-! ### Resolving -/

/-- The notice of a resolved incident. -/
def resolvedNotice (rule : AlertRule) (since now : Instant) : FiredAlert :=
  let firingSecs := F64.ofNat ((now - since) / nanosPerSec)
  { id := (env.calls (.alertId rule.id)).uuid
    ruleId := rule.id
    tenantId := tp.tenant.id
    ruleName := rule.name
    conditionType := some (conditionTypeStr rule.condition)
    severity := "resolved"
    summary := "Alert '" ++ rule.name ++ "' resolved (was firing for " ++
      formatDurationSecs firingSecs ++ ")"
    details := .ofEntries [("firing_duration_seconds", jsonF64 firingSecs)]
    firedAt := timestampF64 now }

/-- Resolve an incident: close its rows, forget the streak, send the notice. -/
def resolveIncident (rule : AlertRule) (since : Instant) (w : World) : World :=
  let resolve := env.calls (.resolve rule.id)
  let w := w.advance resolve
  let incident := (w.openRows tp.tenant.id rule.id).map (·.id)
  -- The error of the statement is dropped.
  let w := if resolve.fails then w else w.resolveAlertsForRule tp.tenant.id rule.id
  let w := w.emit (.resolved tp.tenant.id rule.id (if resolve.fails then [] else incident))
  let w := { w with resolver := w.resolver.forget rule.id }.emit (.forgot rule.id)
  let notice := resolvedNotice env tp rule since w.now
  -- Routed by the severity of the rule as it is now, not "resolved".
  let channels := if isSilenced tp.silences rule.id then [] else rule.acceptingChannels
  let (_, w) := deliverAll p (fun i => env.calls (.notice rule.id i))
    (fun i => env.calls (.noticeRevoke rule.id i)) tp.tenant tp.integrations (.resolved incident)
    notice channels 0 w
  w.emit (.alertResolved tp.tenant.id rule.id rule.name notice.summary)

/-- Open incident evaluating clear: resolve at the end of the streak. -/
def openClear (rule : AlertRule) (since : Instant) (w : World) : World :=
  let (reached, resolver) := w.resolver.recordClear rule.id
  let w := { w with resolver }
  if reached then resolveIncident p env tp rule since w else w

/-! ### One rule -/

/-- Still firing: already notified when the incident opened. -/
def stillFiring (rule : AlertRule) (w : World) : World :=
  { w with resolver := w.resolver.recordFiring rule.id }

/-- Quiet and nothing open: drop any leftover streak state. -/
def quiet (rule : AlertRule) (w : World) : World :=
  { w with resolver := w.resolver.forget rule.id }.emit (.forgot rule.id)

/-- The incident state machine. -/
def dispatchRule (rule : AlertRule) (ctx : EvaluationContext) (fired : Bool) (w : World) : World :=
  match fired, tp.openSince rule.id with
  | true, some _ => stillFiring rule w
  | true, none => newIncident p env tp rule ctx w
  | false, some since => openClear p env tp rule since w
  | false, none => quiet rule w

/-- The metrics of a rule at its turn, and the builder after fetching them. -/
def ruleContext (acc : World × AlertContextBuilder) (rule : AlertRule) :
    EvaluationContext × AlertContextBuilder :=
  let w := acc.1.advance (env.calls (.context rule.id))
  AlertContextBuilder.contextFor p.sqrt (env.stores tp.tenant.id) (toUnixF64 w.now)
    rule.condition acc.2

/-- Evaluate one rule. -/
def evaluateRule (acc : World × AlertContextBuilder) (rule : AlertRule) :
    World × AlertContextBuilder :=
  let w := acc.1.advance (env.calls (.context rule.id))
  let (ctx, builder) := ruleContext p env tp acc rule
  let fired := evaluateCondition rule.condition ctx
  let w := w.emit (.evaluated tp.tenant.id rule.id fired (tp.openSince rule.id))
  (dispatchRule p env tp rule ctx fired w, builder)

end Rule

/-! ### One tenant, one pass -/

section Pass

variable (p : Platform) (env : PassEnv)

/-- Close an incident whose rule was deleted or disabled. -/
def silentClose (tenantId : Uuid) (w : World) (ruleId : Uuid) : World :=
  let call := env.calls (.silentClose tenantId ruleId)
  let w := w.advance call
  let closed := if call.fails then [] else (w.openRows tenantId ruleId).map (·.id)
  let w := if call.fails then w else w.resolveAlertsForRule tenantId ruleId
  let w := w.emit (.silentClose tenantId ruleId closed)
  { w with resolver := w.resolver.forget ruleId }.emit (.forgot ruleId)

/-- The enabled rules a pass loads; a failed read counts as none. -/
def loadRules (tenantId : Uuid) (w : World) : List AlertRule :=
  if (env.calls (.listRules tenantId)).fails then [] else w.listEnabledAlertRules tenantId

/-- The open incidents a pass loads; a failed read counts as none. -/
def loadOpenAlerts (tenantId : Uuid) (w : World) : List (Uuid × Instant) :=
  if (env.calls (.listOpen tenantId)).fails then [] else w.listOpenAlerts tenantId

/-- The integrations a pass loads; a failed read counts as none. -/
def loadIntegrations (tenantId : Uuid) (w : World) : List Integration :=
  if (env.calls (.integrations tenantId)).fails then [] else w.mapIntegrations tenantId

/-- The silences a pass loads; a failed read counts as none. -/
def loadSilences (tenantId : Uuid) (w : World) : List AlertSilence :=
  if (env.calls (.silences tenantId)).fails then [] else w.listActiveSilences tenantId

/-- The rules with an open incident that are not in the enabled list. -/
def goneRules (rules : List AlertRule) (openAlerts : List (Uuid × Instant)) : List Uuid :=
  (openAlerts.map Prod.fst).filter fun r => !(rules.map (·.id)).contains r

/-- Load what the evaluation of a tenant's rules needs, closing on the way the
incidents whose rule is not in the list; `none` when there is nothing to do. -/
def loadTenantPass (w : World) (tenant : Tenant) : Option TenantPass × World :=
  let w := w.advance (env.calls (.listRules tenant.id))
  let rules := loadRules env tenant.id w
  let w := w.advance (env.calls (.listOpen tenant.id))
  let openAlerts := loadOpenAlerts env tenant.id w
  if rules.isEmpty && openAlerts.isEmpty then (none, w)
  else
    let w := (goneRules rules openAlerts).foldl (silentClose env tenant.id) w
    let w := w.advance (env.calls (.integrations tenant.id))
    let integrations := loadIntegrations env tenant.id w
    let w := w.advance (env.calls (.silences tenant.id))
    let silences := loadSilences env tenant.id w
    (some { tenant, rules, openAlerts, integrations, silences }, w)

/-- Evaluate the rules of one tenant. -/
def evaluateTenant (w : World) (tenant : Tenant) : World :=
  match loadTenantPass env w tenant with
  | (none, w) => w
  | (some tp, w) => (tp.rules.foldl (evaluateRule p env tp) (w, .new)).1

/-- How many tenants a pass takes. -/
def tenantLimit : Nat := 1000

/-- The horizon of the throttle cleanup, in seconds. -/
def maxCooldownSecs : Nat := 3600

/-- One evaluation pass; it ends early when the tenants cannot be listed. -/
def runAlertEvaluation (w : World) : World :=
  let w := w.advance (env.calls .listTenants)
  if (env.calls .listTenants).fails then w
  else
    let w := (w.listTenants tenantLimit).foldl (evaluateTenant p env) w
    let w := w.advance (env.calls .cleanup)
    { w with throttle := w.throttle.cleanup w.now (fromSecs maxCooldownSecs) }

end Pass

end Feloxi.Alerting
