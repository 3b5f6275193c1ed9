import Feloxi.Alerting.System
import Feloxi.Auth.Rbac
import Feloxi.Lib.Queries
import Feloxi.Lib.Tables
import Feloxi.Lib.Handlers

/-!
# Feloxi.Alerting.Requests

The requests about rules, silences, history and integrations (`routes/alerts.rs`,
`routes/integrations.rs`), the end of an OAuth callback, the passes of the alert engine and those
over the retries, all at the same time over the tables of `crates/db/src/postgres/`. One statement
is one step.

What a pass decides is a function of what it reads of the tables (`Plan`); its queries to the metric
stores are part of that function, and what a provider answers is part of a `Delivery`. The tenants
themselves are not among the tables, and JSON is stored as it is. A loop over a `HashMap` goes in
the order of the rows.
-/

namespace Feloxi.Alerting.Requests

open Handlers
open Auth (CurrentUser checkPermission)
open Queries (OrderBy)
open Tables (storeText storeVarchar)

/-! ### Rows -/

structure RuleRow extends AlertRule where
  description : Option String
  createdAt : Instant
  updatedAt : Instant
  deriving Repr

structure SilenceRow extends AlertSilence where
  reason : Option String
  createdBy : Option Uuid
  createdAt : Instant
  deriving Repr

structure IntegrationRow extends Integration where
  kind : String
  name : String
  createdBy : Option Uuid
  createdAt : Instant
  updatedAt : Instant
  deriving Repr

structure Store where
  now : Instant
  alertRules : List RuleRow
  alertSilences : List SilenceRow
  alertHistory : List AlertHistoryRow
  integrations : List IntegrationRow
  /-- The ids that `gen_random_uuid` gave out, each with the tenant of its row. -/
  issued : List (Uuid × Uuid)

def Store.empty : Store :=
  { now := 0, alertRules := [], alertSilences := [], alertHistory := [], integrations := [],
    issued := [] }

structure Env where
  /-- What a failed call of the database says. -/
  databaseError : String
  rulesOrder : OrderBy fun r : RuleRow => -(r.createdAt : Int)
  historyOrder : OrderBy fun h : AlertHistoryRow => -(h.firedAt : Int)
  /-- The active silences end later than the others. -/
  silencesOrder : OrderBy fun s : SilenceRow => -(s.endsAt : Int)
  integrationsOrder : OrderBy fun i : IntegrationRow => -(i.createdAt : Int)

/-! ### Statements -/

structure CreateRule extends CreateAlertRuleRequest where
  description : Option String

structure UpdateRule extends UpdateAlertRuleRequest where
  description : Option String

structure NewSilence where
  tenantId : Uuid
  ruleId : Option Uuid
  reason : Option String
  endsAt : Instant
  createdBy : Option Uuid

structure NewHistory where
  tenantId : Uuid
  ruleId : Uuid
  severity : String
  summary : String
  details : Json
  channelsSent : List (String × ChannelDeliveryStatus)

structure NewIntegration where
  tenantId : Uuid
  kind : String
  name : String
  config : Json
  secretEnc : String
  createdBy : Option Uuid

/-- The two indexes that an upsert can meet. -/
inductive Service where
  | slack
  | discord

def Service.kind : Service → String
  | .slack => "slack"
  | .discord => "discord"

def Service.key : Service → String
  | .slack => "team_id"
  | .discord => "channel_id"

inductive Op where
  | clock
  | createAlertRule (tenantId : Uuid) (input : CreateRule)
  | getAlertRule (id : Uuid)
  | listAlertRules (tenantId : Uuid)
  | listEnabledAlertRules (tenantId : Uuid)
  | updateAlertRule (tenantId id : Uuid) (input : UpdateRule)
  | deleteAlertRule (tenantId id : Uuid)
  /-- The first statement of `record_alert_fired`. -/
  | insertHistory (input : NewHistory)
  /-- Its second statement. -/
  | touchRule (ruleId : Uuid)
  | listOpenAlerts (tenantId : Uuid)
  | resolveAlertsForRule (tenantId ruleId : Uuid)
  | updateDeliveryStatus (tenantId historyId : Uuid) (key : String) (status : ChannelDeliveryStatus)
  | countAlertHistory (tenantId : Uuid)
  | listAlertHistory (tenantId : Uuid) (limit offset : Nat)
  | createSilence (input : NewSilence)
  | listActiveSilences (tenantId : Uuid)
  | listSilences (tenantId : Uuid) (limit : Nat)
  | expireSilence (tenantId id : Uuid)
  | listIntegrations (tenantId : Uuid)
  | getIntegration (tenantId id : Uuid)
  | upsertOnConfigKey (input : NewIntegration) (service : Service)
  | setIntegrationStatus (tenantId id : Uuid) (status : String)
  | deleteIntegration (tenantId id : Uuid)

abbrev Op.Reply : Op → Type
  | .clock => Instant
  | .createAlertRule _ _ => Except AppError RuleRow
  | .getAlertRule _ => Option RuleRow
  | .listAlertRules _ => List RuleRow
  | .listEnabledAlertRules _ => List RuleRow
  | .updateAlertRule _ _ _ => Except AppError RuleRow
  | .insertHistory _ => Except AppError AlertHistoryRow
  | .listOpenAlerts _ => List (Uuid × Instant)
  | .countAlertHistory _ => Nat
  | .listAlertHistory _ _ _ => List AlertHistoryRow
  | .createSilence _ => Except AppError SilenceRow
  | .listActiveSilences _ => List SilenceRow
  | .listSilences _ _ => List SilenceRow
  | .expireSilence _ _ => Bool
  | .listIntegrations _ => List IntegrationRow
  | .getIntegration _ _ => Option IntegrationRow
  | .upsertOnConfigKey _ _ => Except AppError IntegrationRow
  | .deleteIntegration _ _ => Bool
  | _ => Unit

/-- A nullable `TEXT` column. -/
def storeOptional : Option String → Option (Option String)
  | none => some none
  | some s => (storeText s).map some

def CreateRule.row (input : CreateRule) (tenantId id : Uuid) (now : Instant) : Option RuleRow :=
  match storeVarchar 255 input.name, storeOptional input.description with
  | some name, some description =>
    some { id, tenantId, name, isEnabled := true, condition := input.condition,
           channels := input.channels, cooldownSecs := input.cooldownSecs.getD 300,
           severityOverride := input.severityOverride, lastFiredAt := none, description,
           createdAt := now, updatedAt := now }
  | _, _ => none

/-- The `SET` of `update_alert_rule`, for texts that can be stored. -/
def UpdateRule.set (input : UpdateRule) (now : Instant) : Option (RuleRow → RuleRow) :=
  match storeVarchar 255 input.name, storeOptional input.description with
  | some name, some description =>
    some fun r =>
      { r with
        toAlertRule := r.toAlertRule.applyUpdate { input.toUpdateAlertRuleRequest with name }
        description
        updatedAt := now }
  | _, _ => none

def NewSilence.row (input : NewSilence) (id : Uuid) (now : Instant) : Option SilenceRow :=
  (storeOptional input.reason).map fun reason =>
    { id, tenantId := input.tenantId, ruleId := input.ruleId, startsAt := now,
      endsAt := input.endsAt, reason, createdBy := input.createdBy, createdAt := now }

def NewHistory.row (input : NewHistory) (id : Uuid) (now : Instant) : Option AlertHistoryRow :=
  match storeVarchar 20 input.severity, storeText input.summary with
  | some severity, some summary =>
    some { id, tenantId := input.tenantId, ruleId := input.ruleId, firedAt := now,
           resolvedAt := none, severity, summary, details := input.details,
           channelsSent := input.channelsSent }
  | _, _ => none

/-- `config ->> key`; both callers store a text there. -/
def configText (key : String) (config : Json) : Option String :=
  match config.get key with
  | some (.str s) => some s
  | _ => none

/-- The row that an upsert conflicts with. -/
def NewIntegration.conflicts (input : NewIntegration) (service : Service) (i : IntegrationRow) :
    Bool :=
  i.tenantId == input.tenantId && i.kind == service.kind && input.kind == service.kind &&
    (configText service.key i.config).isSome &&
    configText service.key i.config == configText service.key input.config

def NewIntegration.row (input : NewIntegration) (id : Uuid) (now : Instant) :
    Option IntegrationRow :=
  match storeVarchar 32 input.kind, storeVarchar 255 input.name with
  | some kind, some name =>
    some { id, tenantId := input.tenantId, status := "active", config := input.config,
           secretEnc := some input.secretEnc, kind, name, createdBy := input.createdBy,
           createdAt := now, updatedAt := now }
  | _, _ => none

/-- `DO UPDATE`. -/
def IntegrationRow.reconnect (i row : IntegrationRow) : IntegrationRow :=
  { i with name := row.name, config := row.config, secretEnc := row.secretEnc, status := "active",
           updatedAt := row.updatedAt }

namespace Store

/-- The rows of a tenant. -/
def rulesOf (tenantId : Uuid) (s : Store) : List RuleRow :=
  s.alertRules.filter (·.tenantId == tenantId)

def silencesOf (tenantId : Uuid) (s : Store) : List SilenceRow :=
  s.alertSilences.filter (·.tenantId == tenantId)

def historyOf (tenantId : Uuid) (s : Store) : List AlertHistoryRow :=
  s.alertHistory.filter (·.tenantId == tenantId)

def integrationsOf (tenantId : Uuid) (s : Store) : List IntegrationRow :=
  s.integrations.filter (·.tenantId == tenantId)

def hasRule (id : Uuid) (s : Store) : Bool := s.alertRules.any (·.id == id)

/-- An id for a new row: none is given out twice. -/
def draw (id tenantId : Uuid) (s : Store) : Option Store :=
  if (s.issued.map Prod.fst).contains id then none
  else some { s with issued := (id, tenantId) :: s.issued }

/-- An `INSERT`, with the errors of what cannot be stored. -/
def insert {β : Type} (env : Env) (id tenantId : Uuid) (row : Option β)
    (put : β → Store → Store) (s : Store) : Store × Except AppError β :=
  match row with
  | none => (s, .error (.database env.databaseError))
  | some row =>
    match s.draw id tenantId with
    | none => (s, .error (.conflict "A record with this value already exists"))
    | some s => (put row s, .ok row)

def putRule (row : RuleRow) (s : Store) : Store := { s with alertRules := s.alertRules ++ [row] }

def putSilence (row : SilenceRow) (s : Store) : Store :=
  { s with alertSilences := s.alertSilences ++ [row] }

def putHistory (row : AlertHistoryRow) (s : Store) : Store :=
  { s with alertHistory := s.alertHistory ++ [row] }

def putIntegration (row : IntegrationRow) (s : Store) : Store :=
  { s with integrations := s.integrations ++ [row] }

/-- `update_alert_rule`. -/
def updateRule (env : Env) (tenantId id : Uuid) (input : UpdateRule) (s : Store) :
    Store × Except AppError RuleRow :=
  match input.set s.now with
  | none => (s, .error (.database env.databaseError))
  | some set =>
    match (s.rulesOf tenantId).find? (·.id == id) with
    -- `fetch_one` finds no row
    | none => (s, .error (.notFound "Resource not found"))
    | some row =>
      ({ s with alertRules := s.alertRules.map fun r =>
          if r.id = id ∧ r.tenantId = tenantId then set r else r }, .ok (set row))

/-- `delete_alert_rule`; `ON DELETE CASCADE` takes the silences and the history of the rule. -/
def deleteRule (tenantId id : Uuid) (s : Store) : Store :=
  if (s.rulesOf tenantId).any (·.id == id) then
    { s with
      alertRules := s.alertRules.filter fun r => !(r.id == id && r.tenantId == tenantId)
      alertHistory := s.alertHistory.filter (·.ruleId != id)
      alertSilences := s.alertSilences.filter (·.ruleId != some id) }
  else s

/-- `list_open_alerts`. -/
def openAlerts (tenantId : Uuid) (s : Store) : List (Uuid × Instant) :=
  let unresolved := (s.historyOf tenantId).filter (·.resolvedAt.isNone)
  ((unresolved.map (·.ruleId)).dedup).filterMap fun id =>
    (((unresolved.filter (·.ruleId == id)).map (·.firedAt)).min?).map (Prod.mk id)

/-- `resolve_alerts_for_rule`. -/
def resolveAlerts (tenantId ruleId : Uuid) (s : Store) : Store :=
  { s with alertHistory := s.alertHistory.map fun h =>
      if h.isOpenFor tenantId ruleId then { h with resolvedAt := some s.now } else h }

/-- `update_delivery_status`. -/
def updateDelivery (tenantId historyId : Uuid) (key : String) (status : ChannelDeliveryStatus)
    (s : Store) : Store :=
  { s with alertHistory := s.alertHistory.map fun h =>
      if h.tenantId = tenantId ∧ h.id = historyId
        then { h with channelsSent := insertLog key status h.channelsSent } else h }

/-- A silence that `expire_silence` ends. -/
def expires (tenantId id : Uuid) (now : Instant) (x : SilenceRow) : Bool :=
  x.tenantId == tenantId && x.id == id && decide (now < x.endsAt)

/-- `upsert_on_config_key`. -/
def upsert (env : Env) (input : NewIntegration) (service : Service) (id : Uuid) (s : Store) :
    Store × Except AppError IntegrationRow :=
  match input.row id s.now with
  | none => (s, .error (.database env.databaseError))
  | some row =>
    match (s.integrationsOf input.tenantId).find? (input.conflicts service) with
    | none => s.insert env id input.tenantId (some row) putIntegration
    | some old =>
      ({ s with integrations := s.integrations.map fun i =>
          if input.conflicts service i then i.reconnect row else i }, .ok (old.reconnect row))

end Store

/-- What a statement does; the nonce is the id that a new row gets. -/
def exec (env : Env) : (op : Op) → Uuid → Store → Store × op.Reply
  | .clock, _, s => (s, s.now)
  | .createAlertRule tenantId input, id, s =>
    s.insert env id tenantId (input.row tenantId id s.now) Store.putRule
  | .getAlertRule id, _, s => (s, s.alertRules.find? (·.id == id))
  | .listAlertRules tenantId, _, s => (s, env.rulesOrder.sort (s.rulesOf tenantId))
  | .listEnabledAlertRules tenantId, _, s => (s, (s.rulesOf tenantId).filter (·.isEnabled))
  | .updateAlertRule tenantId id input, _, s => s.updateRule env tenantId id input
  | .deleteAlertRule tenantId id, _, s => (s.deleteRule tenantId id, ())
  | .insertHistory input, id, s =>
    -- the foreign key
    if s.hasRule input.ruleId then
      s.insert env id input.tenantId (input.row id s.now) Store.putHistory
    else (s, .error (.database env.databaseError))
  | .touchRule ruleId, _, s =>
    ({ s with alertRules := s.alertRules.map fun r =>
        if r.id = ruleId then { r with lastFiredAt := some s.now } else r }, ())
  | .listOpenAlerts tenantId, _, s => (s, s.openAlerts tenantId)
  | .resolveAlertsForRule tenantId ruleId, _, s => (s.resolveAlerts tenantId ruleId, ())
  | .updateDeliveryStatus tenantId historyId key status, _, s =>
    (s.updateDelivery tenantId historyId key status, ())
  | .countAlertHistory tenantId, _, s => (s, (s.historyOf tenantId).length)
  | .listAlertHistory tenantId limit offset, _, s =>
    (s, ((env.historyOrder.sort (s.historyOf tenantId)).drop offset).take limit)
  | .createSilence input, id, s =>
    if input.ruleId.all s.hasRule then
      s.insert env id input.tenantId (input.row id s.now) Store.putSilence
    else (s, .error (.database env.databaseError))
  | .listActiveSilences tenantId, _, s =>
    (s, (s.silencesOf tenantId).filter fun x => x.toAlertSilence.activeAt s.now)
  | .listSilences tenantId limit, _, s =>
    (s, (env.silencesOrder.sort (s.silencesOf tenantId)).take limit)
  | .expireSilence tenantId id, _, s =>
    ({ s with alertSilences := s.alertSilences.map fun x =>
        if Store.expires tenantId id s.now x then { x with endsAt := s.now } else x },
      (s.silencesOf tenantId).any (Store.expires tenantId id s.now))
  | .listIntegrations tenantId, _, s =>
    (s, env.integrationsOrder.sort (s.integrationsOf tenantId))
  | .getIntegration tenantId id, _, s => (s, (s.integrationsOf tenantId).find? (·.id == id))
  | .upsertOnConfigKey input service, id, s => s.upsert env input service id
  | .setIntegrationStatus tenantId id status, _, s =>
    ({ s with integrations := s.integrations.map fun i =>
        if i.id = id ∧ i.tenantId = tenantId then { i with status, updatedAt := s.now }
        else i }, ())
  | .deleteIntegration tenantId id, _, s =>
    ({ s with integrations :=
        s.integrations.filter fun i => !(i.id == id && i.tenantId == tenantId) },
      (s.integrationsOf tenantId).any (·.id == id))

/-! ### Requests -/

/-- `IntegrationView`. -/
structure IntegrationView where
  id : Uuid
  kind : String
  name : String
  status : String
  config : Json
  createdAt : Instant
  updatedAt : Instant
  deriving Repr

def IntegrationRow.toView (i : IntegrationRow) : IntegrationView :=
  { id := i.id, kind := i.kind, name := i.name, status := i.status, config := i.config,
    createdAt := i.createdAt, updatedAt := i.updatedAt }

inductive Answer where
  | rules (rows : List RuleRow)
  | rule (row : RuleRow)
  | history (rows : List AlertHistoryRow) (hasMore : Bool) (total : Nat)
  | silences (rows : List SilenceRow)
  | silence (row : SilenceRow)
  | integrations (views : List IntegrationView)
  | connected (id : Uuid)
  | notConnected (message : String)
  | tested (success : Bool) (error : Option String)
  | deleted
  | expired
  /-- The end of a pass, with what it read. -/
  | passed (rules : List RuleRow) (openAlerts : List (Uuid × Instant))
      (integrations : List IntegrationRow) (silences : List SilenceRow)
  | done
  deriving Repr

abbrev Endpoint := Handler Op Op.Reply (Except AppError Answer)

def refuse (e : AppError) : Endpoint := .answer (.error e)

/-- A query, with `?` on its result. -/
def query (env : Env) (op : Op) (next : op.Reply → Endpoint) : Endpoint :=
  .call op next (refuse (.database env.databaseError))

/-- A query with `unwrap_or_default`, or one whose result is ignored. -/
def queryOr (op : Op) (default : op.Reply) (next : op.Reply → Endpoint) : Endpoint :=
  .call op next (next default)

/-- A handler behind `check_permission`. -/
def permitted (user : CurrentUser) (permission : String) (handler : Endpoint) : Endpoint :=
  match checkPermission user permission with
  | .error e => refuse e
  | .ok () => handler

/-- The answer of an `INSERT` or `UPDATE`. -/
def orRefuse {β : Type} (answer : β → Answer) : Except AppError β → Endpoint
  | .error e => refuse e
  | .ok row => .answer (.ok (answer row))

/-- `validate_channel_integrations`. -/
def validateChannels (env : Env) (tenantId : Uuid) (channels : List AlertChannel)
    (next : Endpoint) : Endpoint :=
  let referenced := channels.filterMap (·.integrationId)
  if referenced.isEmpty then next
  else query env (.listIntegrations tenantId) fun rows =>
    match referenced.find? fun id => !(rows.map (·.id)).contains id with
    | some missing =>
      refuse (.badRequest ("channel references unknown integration: " ++ missing.display))
    | none => next

def validated (severityOverride : Option String) (channels : List AlertChannel)
    (next : Endpoint) : Endpoint :=
  match validateSeverities severityOverride channels with
  | .error e => refuse e
  | .ok () => next

/-- `list_rules`. -/
def listRules (env : Env) (user : CurrentUser) : Endpoint :=
  permitted user "alerts_read" <|
    query env (.listAlertRules user.tenantId) fun rows => .answer (.ok (.rules rows))

/-- `create_rule`. -/
def createRule (env : Env) (user : CurrentUser) (req : CreateRule) : Endpoint :=
  -- the channels before the severities
  permitted user "alerts_write" <| validateChannels env user.tenantId req.channels <|
    validated req.severityOverride req.channels <|
      query env (.createAlertRule user.tenantId req) (orRefuse .rule)

/-- `get_alert_rule`, whose rule it is checked after it. -/
def ownRule (env : Env) (user : CurrentUser) (id : Uuid) (next : RuleRow → Endpoint) : Endpoint :=
  query env (.getAlertRule id) fun
    | none => refuse (.notFound "Resource not found")
    | some rule =>
      if rule.tenantId ≠ user.tenantId then refuse (.notFound "Alert rule not found")
      else next rule

/-- `get_rule`. -/
def getRule (env : Env) (user : CurrentUser) (id : Uuid) : Endpoint :=
  permitted user "alerts_read" <| ownRule env user id fun rule => .answer (.ok (.rule rule))

/-- `update_rule`. -/
def updateRule (env : Env) (user : CurrentUser) (id : Uuid) (req : UpdateRule) : Endpoint :=
  permitted user "alerts_write" <| validateChannels env user.tenantId req.channels <|
    validated req.severityOverride req.channels <|
      query env (.updateAlertRule user.tenantId id req) (orRefuse .rule)

/-- `delete_rule`. -/
def deleteRule (env : Env) (user : CurrentUser) (id : Uuid) : Endpoint :=
  permitted user "alerts_write" <|
    -- the same answer if there was none
    query env (.deleteAlertRule user.tenantId id) fun _ => .answer (.ok .deleted)

/-- `list_history`; the sum of the release build wraps. -/
def listHistory (env : Env) (user : CurrentUser) (limit offset : Option Int) : Endpoint :=
  permitted user "alerts_read" <|
    let limit := max 1 (min (limit.getD 50) 200)
    let offset := max 0 (offset.getD 0)
    query env (.countAlertHistory user.tenantId) fun total =>
      query env (.listAlertHistory user.tenantId limit.toNat offset.toNat) fun rows =>
        .answer (.ok (.history rows (decide (Int.bmod (offset + limit) (2 ^ 64) < total)) total))

/-- `list_silences`. -/
def listSilences (env : Env) (user : CurrentUser) : Endpoint :=
  permitted user "alerts_read" <|
    query env (.listSilences user.tenantId 50) fun rows => .answer (.ok (.silences rows))

/-- The end of `create_silence`. -/
def insertSilence (env : Env) (user : CurrentUser) (ruleId : Option Uuid) (reason : Option String)
    (minutes : Nat) : Endpoint :=
  .act .clock fun now =>
    query env (.createSilence
      { tenantId := user.tenantId, ruleId, reason := reason.filter fun r => !isBlank r,
        endsAt := now + fromSecs (minutes * 60), createdBy := some user.userId })
      (orRefuse .silence)

/-- `create_silence`. -/
def createSilence (env : Env) (user : CurrentUser) (ruleId : Option Uuid) (reason : Option String)
    (durationMinutes : Int) : Endpoint :=
  permitted user "alerts_write" <|
    let minutes := (max 1 (min durationMinutes (60 * 24 * 30))).toNat
    match ruleId with
    | none => insertSilence env user none reason minutes
    | some id => ownRule env user id fun _ => insertSilence env user (some id) reason minutes

/-- `expire_silence`. -/
def expireSilence (env : Env) (user : CurrentUser) (id : Uuid) : Endpoint :=
  permitted user "alerts_write" <|
    query env (.expireSilence user.tenantId id) fun expired =>
      if expired then .answer (.ok .expired)
      else refuse (.notFound "Active silence not found")

/-- `list_integrations`. -/
def listIntegrations (env : Env) (user : CurrentUser) : Endpoint :=
  permitted user "settings_read" <|
    query env (.listIntegrations user.tenantId) fun rows =>
      .answer (.ok (.integrations (rows.map (·.toView))))

/-- `delete_integration`; the cache of its channels is not looked at. -/
def deleteIntegration (env : Env) (user : CurrentUser) (id : Uuid) : Endpoint :=
  permitted user "settings_write" <|
    query env (.deleteIntegration user.tenantId id) fun deleted =>
      if deleted then .answer (.ok .done) else refuse (.notFound "Integration not found")

/-- The `Display` of `AppError`. -/
def errorText : AppError → String
  | .notFound message => "Not found: " ++ message
  | .badRequest message => "Bad request: " ++ message
  | .unauthorized message => "Unauthorized: " ++ message
  | .forbidden message => "Forbidden: " ++ message
  | .conflict message => "Conflict: " ++ message
  | .rateLimited => "Rate limited"
  | .tenantNotFound => "Tenant not found"
  | .internal message => "Internal error: " ++ message
  | .database message => "Database error: " ++ message
  | .validation message => "Validation error: " ++ message

/-- The end of an OAuth callback. -/
def connect (env : Env) (input : NewIntegration) (service : Service) : Endpoint :=
  let failed (e : AppError) : Endpoint :=
    .answer (.ok (.notConnected ("failed to save integration: " ++ errorText e)))
  .call (.upsertOnConfigKey input service)
    (fun
      | .error e => failed e
      | .ok row => .answer (.ok (.connected row.id)))
    (failed (.database env.databaseError))

/-! ### Deliveries -/

/-- What `deliver_channel` comes to. -/
structure Delivery where
  key : String
  status : ChannelDeliveryStatus
  /-- The integration that the provider no longer knows. -/
  revoked : Option Uuid

/-- `mark_integration_revoked`, if that is called. -/
def markRevoked (tenantId : Uuid) (revoked : Option Uuid) (next : Endpoint) : Endpoint :=
  match revoked with
  | none => next
  | some id => queryOr (.setIntegrationStatus tenantId id "revoked") () fun _ => next

/-- The channel that `test_integration` sends to. -/
def testChannel (kind : String) (id : Uuid) (channelId : Option String) :
    Except AppError AlertChannel :=
  match kind with
  | "slack" =>
    match channelId with
    | none => .error (.badRequest "channel_id is required to test a Slack integration")
    | some channelId => .ok (.slackConnection id channelId "" none)
  | "discord" => .ok (.discordConnection id none)
  | "pagerduty" => .ok (.pagerDutyConnection id none)
  | "webhook" => .ok (.webhookConnection id none)
  | other => .error (.badRequest ("unknown integration kind: " ++ other))

/-- `test_integration`; `throttled` is what Redis says of the tenant and the integration. -/
def testIntegration (env : Env) (user : CurrentUser) (id : Uuid) (channelId : Option String)
    (throttled : Bool) (deliver : IntegrationRow → AlertChannel → Delivery) : Endpoint :=
  permitted user "settings_write" <|
    query env (.getIntegration user.tenantId id) fun
      | none => refuse (.notFound "Integration not found")
      | some integration =>
        if throttled then refuse .rateLimited
        else
          match testChannel integration.kind id channelId with
          | .error e => refuse e
          | .ok channel =>
            let delivery := deliver integration channel
            markRevoked user.tenantId delivery.revoked
              (.answer (.ok (.tested delivery.status.success delivery.status.error)))

/-! ### Passes -/

/-- What a pass writes. -/
inductive Write where
  /-- `record_alert_fired`, for the rule at `i` of those that were read. -/
  | fired (i : Nat) (severity summary : String) (details : Json)
      (channelsSent : List (String × ChannelDeliveryStatus))
  | resolved (ruleId : Uuid)
  | revoked (integrationId : Uuid)

/-- What it writes, for what it read. -/
abbrev Plan := List RuleRow → List (Uuid × Instant) → List IntegrationRow → List SilenceRow →
  List Write

/-- Close the incidents whose rule is not among the enabled ones. -/
def closeGone (tenantId : Uuid) (enabled : List Uuid) (next : Endpoint) : List Uuid → Endpoint
  | [] => next
  | ruleId :: rest =>
    if enabled.contains ruleId then closeGone tenantId enabled next rest
    else queryOr (.resolveAlertsForRule tenantId ruleId) () fun _ =>
      closeGone tenantId enabled next rest

def writes (tenantId : Uuid) (rules : List RuleRow) (next : Endpoint) : List Write → Endpoint
  | [] => next
  | .fired i severity summary details channelsSent :: rest =>
    match rules[i]? with
    | none => writes tenantId rules next rest
    | some rule =>
      .call
        (.insertHistory { tenantId, ruleId := rule.id, severity, summary, details, channelsSent })
        (fun
          | .error _ => writes tenantId rules next rest
          -- if this one fails, the row of the history stays
          | .ok _ => queryOr (.touchRule rule.id) () fun _ => writes tenantId rules next rest)
        (writes tenantId rules next rest)
  | .resolved ruleId :: rest =>
    queryOr (.resolveAlertsForRule tenantId ruleId) () fun _ => writes tenantId rules next rest
  | .revoked id :: rest =>
    queryOr (.setIntegrationStatus tenantId id "revoked") () fun _ =>
      writes tenantId rules next rest

/-- The part of `run_alert_evaluation` for one tenant. -/
def pass (tenantId : Uuid) (plan : Plan) : Endpoint :=
  queryOr (.listEnabledAlertRules tenantId) [] fun rules =>
    queryOr (.listOpenAlerts tenantId) [] fun openAlerts =>
      if rules.isEmpty && openAlerts.isEmpty then .answer (.ok .done)
      else closeGone tenantId (rules.map (·.id))
        (queryOr (.listIntegrations tenantId) [] fun integrations =>
          queryOr (.listActiveSilences tenantId) [] fun silences =>
            writes tenantId rules (.answer (.ok (.passed rules openAlerts integrations silences)))
              (plan rules openAlerts integrations silences))
        (openAlerts.map Prod.fst)

/-- A job of `drain_delivery_retries`: the row of the history, and what its delivery comes to. -/
abbrev Retry := Uuid × (List IntegrationRow → Delivery)

def deliveries (tenantId : Uuid) (integrations : List IntegrationRow) : List Retry → Endpoint
  | [] => .answer (.ok .done)
  | (historyId, deliver) :: rest =>
    let delivery := deliver integrations
    markRevoked tenantId delivery.revoked <|
      queryOr (.updateDeliveryStatus tenantId historyId delivery.key delivery.status) () fun _ =>
        deliveries tenantId integrations rest

/-- The jobs of one tenant in a pass of `drain_delivery_retries`. -/
def retried (tenantId : Uuid) (jobs : List Retry) : Endpoint :=
  queryOr (.listIntegrations tenantId) [] fun integrations => deliveries tenantId integrations jobs

inductive Request where
  | listRules (user : CurrentUser)
  | createRule (user : CurrentUser) (req : CreateRule)
  | getRule (user : CurrentUser) (id : Uuid)
  | updateRule (user : CurrentUser) (id : Uuid) (req : UpdateRule)
  | deleteRule (user : CurrentUser) (id : Uuid)
  | listHistory (user : CurrentUser) (limit offset : Option Int)
  | listSilences (user : CurrentUser)
  | createSilence (user : CurrentUser) (ruleId : Option Uuid) (reason : Option String)
      (durationMinutes : Int)
  | expireSilence (user : CurrentUser) (id : Uuid)
  | listIntegrations (user : CurrentUser)
  | deleteIntegration (user : CurrentUser) (id : Uuid)
  | testIntegration (user : CurrentUser) (id : Uuid) (channelId : Option String) (throttled : Bool)
      (deliver : IntegrationRow → AlertChannel → Delivery)
  | connect (input : NewIntegration) (service : Service)
  | pass (tenantId : Uuid) (plan : Plan)
  | retried (tenantId : Uuid) (jobs : List Retry)

def Request.tenantId : Request → Uuid
  | .listRules user | .createRule user _ | .getRule user _ | .updateRule user _ _ => user.tenantId
  | .deleteRule user _ | .listHistory user _ _ | .listSilences user => user.tenantId
  | .createSilence user _ _ _ | .expireSilence user _ | .listIntegrations user => user.tenantId
  | .deleteIntegration user _ | .testIntegration user _ _ _ _ => user.tenantId
  | .connect input _ => input.tenantId
  | .pass tenantId _ | .retried tenantId _ => tenantId

def Request.program (env : Env) : Request → Endpoint
  | .listRules user => Requests.listRules env user
  | .createRule user req => Requests.createRule env user req
  | .getRule user id => Requests.getRule env user id
  | .updateRule user id req => Requests.updateRule env user id req
  | .deleteRule user id => Requests.deleteRule env user id
  | .listHistory user limit offset => Requests.listHistory env user limit offset
  | .listSilences user => Requests.listSilences env user
  | .createSilence user ruleId reason minutes =>
    Requests.createSilence env user ruleId reason minutes
  | .expireSilence user id => Requests.expireSilence env user id
  | .listIntegrations user => Requests.listIntegrations env user
  | .deleteIntegration user id => Requests.deleteIntegration env user id
  | .testIntegration user id channelId throttled deliver =>
    Requests.testIntegration env user id channelId throttled deliver
  | .connect input service => Requests.connect env input service
  | .pass tenantId plan => Requests.pass tenantId plan
  | .retried tenantId jobs => Requests.retried tenantId jobs

/-- The server; between steps time passes. -/
def machine (env : Env) : Machine Op Op.Reply (Except AppError Answer) Request Store Uuid Nat where
  exec := exec env
  program := Request.program env
  world d s := { s with now := s.now + d }

/-- The server just started, before there is any row. -/
def start : Pool Op Op.Reply (Except AppError Answer) Request Store :=
  { state := .empty, threads := [], log := [] }

end Feloxi.Alerting.Requests
