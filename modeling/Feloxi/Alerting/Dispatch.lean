import Feloxi.Alerting.Store

/-!
# Feloxi.Alerting.Dispatch

Channel delivery and its retries (`crates/api/src/alert_dispatch.rs`).

A delivery is a pure part, what is sent where and what the answer is taken for
(`sendToChannel`), and its effects on the world (`deliverChannel`). Custom request
headers and the Slack channel cache are left out: they change no outcome.
-/

namespace Feloxi.Alerting

/-- What the loops use and this repository does not define. -/
structure Platform where
  sqrt : F64 → F64
  /-- `Encryptor::decrypt_str`. -/
  decryptStr : String → Except String String
  /-- The byte order of the serialized retry jobs. -/
  jobRank : DeliveryRetryJob → Nat

/-! ### SMTP settings -/

/-- A field of a struct decoded by serde, by name from an object and by position
from an array. -/
def structField (position : Nat) (name : String) : Json → Option Json
  | .arr items => items[position]?
  | value => value.get name

/-- Whether serde accepts the value for a struct with this many fields. -/
def structShape (fields : Nat) : Json → Bool
  | .obj _ => true
  | .arr items => decide (items.length ≤ fields)
  | _ => false

/-- A field that falls back to its default when absent must have its type when
present. -/
def fieldHas (check : Json → Bool) (field : Option Json) : Bool := field.all check

/-- A number that fits the unsigned type of this width. -/
def isUnsigned (bits : Nat) : Json → Bool
  | .int n => decide (0 ≤ n ∧ n < 2 ^ bits)
  | _ => false

def isString (value : Json) : Bool := value.asStr.isSome

def isBool (value : Json) : Bool := value.asBool.isSome

/-- Whether a value decodes as `SmtpSettings`. -/
def decodesAsSmtp (smtp : Json) : Bool :=
  structShape 6 smtp && fieldHas isString (structField 0 "host" smtp) &&
    fieldHas (isUnsigned 16) (structField 1 "port" smtp) &&
    fieldHas isString (structField 2 "username" smtp) &&
    fieldHas isString (structField 3 "password" smtp) &&
    fieldHas isString (structField 4 "from_address" smtp) &&
    fieldHas isBool (structField 5 "tls" smtp)

/-- Whether a value decodes as `WebhookDefaults`. -/
def decodesAsWebhookDefaults (defaults : Json) : Bool :=
  structShape 2 defaults && fieldHas (isUnsigned 32) (structField 0 "timeout_seconds" defaults) &&
    fieldHas (isUnsigned 32) (structField 1 "retry_count" defaults)

/-- The host of `tenant_smtp_config`; a blob that does not decode as
`NotificationSettings` gives the default, an empty host. -/
def tenantSmtpHost (tenant : Tenant) : String :=
  match tenant.settings.get "notifications" with
  | none => ""
  | some notif =>
    let smtp := structField 0 "smtp" notif
    if structShape 2 notif && fieldHas decodesAsSmtp smtp &&
        fieldHas decodesAsWebhookDefaults (structField 1 "webhook_defaults" notif) then
      ((smtp.bind (structField 0 "host")).bind Json.asStr).getD ""
    else ""

/-! ### Delivery -/

/-- A send: where the request went, how its answer was taken, and the
integration found dead, if any. -/
structure Sending where
  endpoint : Option String
  result : SendResult
  revoked : Option Uuid := none

/-- Look up an integration in the per-tenant map and decrypt its secret. -/
def decryptIntegrationSecret (p : Platform) (integrations : List Integration) (id : Uuid)
    (channelType : String) : Except SendResult String :=
  let err := fun msg => Except.error ((SendResult.err channelType msg).withIntegrationId id)
  match integrations.find? fun i => i.id == id with
  | none => err "integration not found"
  | some integration =>
    if integration.status ≠ "active" then err ("integration is " ++ integration.status)
    else match integration.secretEnc with
      | none => err "integration has no stored secret"
      | some blob => match p.decryptStr blob with
        | .ok secret => .ok secret
        | .error e => err ("secret decrypt failed: " ++ e)

/-- Without a secret the delivery has failed. -/
theorem decryptIntegrationSecret_error (p : Platform) (integrations : List Integration) (id : Uuid)
    (channelType : String) {e : SendResult}
    (h : decryptIntegrationSecret p integrations id channelType = .error e) : e.success = false := by
  unfold decryptIntegrationSecret at h
  simp only at h
  split at h
  · rw [← Except.error.inj h]
    rfl
  · split at h
    · rw [← Except.error.inj h]
      rfl
    · split at h
      · rw [← Except.error.inj h]
        rfl
      · split at h
        · cases h
        · rw [← Except.error.inj h]
          rfl

/-- Deliver to a connected integration: a secret that cannot be had is the
result, and nothing is sent. -/
def sendConnected (p : Platform) (integrations : List Integration) (id : Uuid)
    (channelType : String) (result : SendResult) (dead : Bool) : Sending :=
  match decryptIntegrationSecret p integrations id channelType with
  | .error e => { endpoint := none, result := e }
  | .ok secret =>
    { endpoint := some secret, result := result.withIntegrationId id,
      revoked := if dead then some id else none }

/-- Route one alert to one channel. -/
def sendToChannel (p : Platform) (tenant : Tenant) (integrations : List Integration)
    (channel : AlertChannel) (reply : ProviderReply) : Sending :=
  match channel with
  | .slack webhookUrl _ => { endpoint := some webhookUrl, result := sendSlackAlert reply }
  | .webhook url _ _ => { endpoint := some url, result := sendWebhookAlert reply }
  | .pagerDuty routingKey _ => { endpoint := some routingKey, result := sendPagerdutyAlert reply }
  | .email recipients _ =>
    let host := tenantSmtpHost tenant
    { endpoint := if recipients.isEmpty || host.isEmpty then none else some host,
      result := sendEmailAlert recipients host reply }
  | .slackConnection id _ _ _ =>
    let result := sendSlackBotAlert reply
    sendConnected p integrations id "slack" result (result.error.any isWorkspaceRevoked)
  | .discordConnection id _ =>
    let result := sendDiscordAlert reply
    sendConnected p integrations id "discord" result (isWebhookRevoked result)
  | .pagerDutyConnection id _ =>
    sendConnected p integrations id "pagerduty" (sendPagerdutyAlert reply) false
  | .webhookConnection id _ =>
    sendConnected p integrations id "webhook" (sendWebhookAlert reply) false

/-- The delivery key of a channel, whatever comes back: its type, and the integration
it references. -/
def AlertChannel.logKey : AlertChannel → String
  | .slack .. => "slack"
  | .webhook .. => "webhook"
  | .pagerDuty .. => "pagerduty"
  | .email .. => "email"
  | .slackConnection id _ _ _ => "slack" ++ ":" ++ id.display
  | .discordConnection id _ => "discord" ++ ":" ++ id.display
  | .pagerDutyConnection id _ => "pagerduty" ++ ":" ++ id.display
  | .webhookConnection id _ => "webhook" ++ ":" ++ id.display

section Keys

variable (p : Platform) (integrations : List Integration)

/-- A failed lookup is keyed like a delivery. -/
theorem decryptIntegrationSecret_deliveryKey (id : Uuid) (channelType : String) {e : SendResult}
    (h : decryptIntegrationSecret p integrations id channelType = .error e) :
    e.deliveryKey = channelType ++ ":" ++ id.display := by
  unfold decryptIntegrationSecret at h
  simp only at h
  split at h
  · rw [← Except.error.inj h]
    rfl
  · split at h
    · rw [← Except.error.inj h]
      rfl
    · split at h
      · rw [← Except.error.inj h]
        rfl
      · split at h
        · cases h
        · rw [← Except.error.inj h]
          rfl

theorem sendConnected_deliveryKey (id : Uuid) {channelType : String} {result : SendResult}
    (hresult : result.channelType = channelType) (dead : Bool) :
    (sendConnected p integrations id channelType result dead).result.deliveryKey =
      channelType ++ ":" ++ id.display := by
  unfold sendConnected
  cases hsecret : decryptIntegrationSecret p integrations id channelType with
  | ok secret => rw [← hresult]; rfl
  | error e => exact decryptIntegrationSecret_deliveryKey p integrations id channelType hsecret

/-- **Keys are stable.** The key of a delivery depends on its channel alone. -/
theorem sendToChannel_deliveryKey (tenant : Tenant) (channel : AlertChannel)
    (reply : ProviderReply) :
    (sendToChannel p tenant integrations channel reply).result.deliveryKey = channel.logKey := by
  have hpost : ∀ channelType, (postResult channelType reply).channelType = channelType ∧
      (postResult channelType reply).integrationId = none := by
    intro channelType
    unfold postResult
    split
    · exact ⟨rfl, rfl⟩
    · split <;> exact ⟨rfl, rfl⟩
  have hinline : ∀ channelType, (postResult channelType reply).deliveryKey = channelType := by
    intro channelType
    rw [SendResult.deliveryKey, (hpost channelType).2]
    exact (hpost channelType).1
  cases channel with
  | slack => exact hinline "slack"
  | webhook => exact hinline "webhook"
  | pagerDuty => exact hinline "pagerduty"
  | email recipients _ =>
      simp only [sendToChannel, sendEmailAlert]
      split
      · rfl
      · split
        · rfl
        · split <;> rfl
  | slackConnection id =>
      refine sendConnected_deliveryKey p integrations id ?_ _
      unfold sendSlackBotAlert
      split
      · rfl
      · rfl
      · split <;> rfl
  | discordConnection id =>
      refine sendConnected_deliveryKey p integrations id ?_ _
      unfold sendDiscordAlert
      split
      · rfl
      · split
        · rfl
        · simp only
          split <;> rfl
  | pagerDutyConnection id =>
      exact sendConnected_deliveryKey p integrations id (hpost "pagerduty").1 _
  | webhookConnection id =>
      exact sendConnected_deliveryKey p integrations id (hpost "webhook").1 _

end Keys

/-- `mark_integration_revoked`. -/
def markIntegrationRevoked (call : Call) (tenantId id : Uuid) (w : World) : World :=
  let w := w.advance call
  if call.fails then w else w.setIntegrationStatus tenantId id "revoked"

/-- The record of a send made in `w`. -/
def deliveryRecord (sending : Sending) (tenant : Tenant) (notice : Notice)
    (channel : AlertChannel) (alert : FiredAlert) (w : World) : Delivery where
  notice := notice
  source := .ofTenant tenant
  channel := channel
  alert := alert
  endpoint := sending.endpoint
  result := sending.result
  time := w.now
  silences := w.alertSilences

/-- Deliver one alert to one channel. -/
def deliverChannel (p : Platform) (send revoke : Call) (tenant : Tenant)
    (integrations : List Integration) (notice : Notice) (channel : AlertChannel)
    (alert : FiredAlert) (w : World) : SendResult × World :=
  let w := w.advance send
  let sending := sendToChannel p tenant integrations channel send.reply
  let w := w.emit (.delivery (deliveryRecord sending tenant notice channel alert w))
  match sending.revoked with
  | some id => (sending.result, markIntegrationRevoked revoke tenant.id id w)
  | none => (sending.result, w)

/-- One delivery after the other; `index` numbers the calls. -/
def deliverAll (p : Platform) (send revoke : Nat → Call) (tenant : Tenant)
    (integrations : List Integration) (notice : Notice) (alert : FiredAlert) :
    List AlertChannel → Nat → World → List (AlertChannel × SendResult) × World
  | [], _, w => ([], w)
  | channel :: rest, index, w =>
    let (result, w) :=
      deliverChannel p (send index) (revoke index) tenant integrations notice channel alert w
    let (results, w) :=
      deliverAll p send revoke tenant integrations notice alert rest (index + 1) w
    ((channel, result) :: results, w)

/-! ### Retries -/

/-- Queue a retry for a failed delivery, if the failure is transient and the
attempt budget allows. -/
def maybeScheduleRetry (call : Call) (tenantId historyId : Uuid) (attempt : Nat)
    (channel : AlertChannel) (alert : FiredAlert) (result : SendResult) (w : World) : World :=
  if !isRetryable result || decide (attempt ≥ maxDeliveryAttempts) then w
  else
    let job := { tenantId, historyId, attempt := attempt + 1, channel, alert }
    let at' := (toUnixF64 w.now).add (backoffSecs attempt result.retryAfter)
    let w := w.advance call
    if call.fails then w else w.scheduleDeliveryRetry job at'

/-- How many due retries one drain pass processes. -/
def retryDrainBatch : Nat := 50

/-- The awaited calls of a drain pass, numbered by job. -/
inductive DrainPoint where
  | pop
  | tenant (job : Nat)
  | integrations (job : Nat)
  | send (job : Nat)
  | revoke (job : Nat)
  | updateStatus (job : Nat)
  | schedule (job : Nat)
  deriving Repr, DecidableEq

/-- The outcomes of one drain pass. -/
abbrev DrainEnv := DrainPoint → Call

/-- One tenant and integrations load per tenant per pass. -/
abbrev TenantCache := Uuid → Option (Tenant × List Integration)

/-- The tenant of a job with its integrations, from the cache or the stores;
`none` drops the job. -/
def loadTenant (env : DrainEnv) (index : Nat) (tenantId : Uuid) (w : World) (cache : TenantCache) :
    Option (Tenant × List Integration) × World × TenantCache :=
  match cache tenantId with
  | some loaded => (some loaded, w, cache)
  | none =>
    let w := w.advance (env (.tenant index))
    match if (env (.tenant index)).fails then none else w.getTenantById tenantId with
    | none => (none, w, cache)
    | some tenant =>
      let w := w.advance (env (.integrations index))
      let integrations := if (env (.integrations index)).fails then []
        else w.mapIntegrations tenantId
      (some (tenant, integrations), w,
        Function.update cache tenantId (some (tenant, integrations)))

/-- Re-send one due job, record the outcome and requeue a transient failure. -/
def retryJob (p : Platform) (env : DrainEnv) (index : Nat) (job : DeliveryRetryJob)
    (loaded : Tenant × List Integration) (w : World) : World :=
  let (result, w) := deliverChannel p (env (.send index)) (env (.revoke index)) loaded.1 loaded.2
    (.retry job.historyId job.attempt) job.channel job.alert w
  let w := w.advance (env (.updateStatus index))
  let w := if (env (.updateStatus index)).fails then w
    else w.updateDeliveryStatus job.tenantId job.historyId result.deliveryKey
      { success := result.success, error := result.error }
  if result.success then w
  else maybeScheduleRetry (env (.schedule index)) job.tenantId job.historyId job.attempt
    job.channel job.alert result w

def drainJob (p : Platform) (env : DrainEnv) (acc : World × TenantCache)
    (job : DeliveryRetryJob × Nat) : World × TenantCache :=
  match loadTenant env job.2 job.1.tenantId acc.1 acc.2 with
  | (none, w, cache) => (w, cache)
  | (some loaded, w, cache) => (retryJob p env job.2 job.1 loaded w, cache)

/-- Drain due delivery retries. -/
def drainDeliveryRetries (p : Platform) (env : DrainEnv) (w : World) : World :=
  let now := toUnixF64 w.now
  let w := w.advance (env .pop)
  if (env .pop).fails then w
  else
    let (due, w) := w.popDueDeliveryRetries p.jobRank now retryDrainBatch
    (due.zipIdx.foldl (drainJob p env) (w, fun _ => none)).1

end Feloxi.Alerting
