import Feloxi.Alerting.Models

/-!
# Feloxi.Alerting.Channels

The notification senders (`crates/alerting/src/channels/`). A sender posts a
payload and turns what comes back into a `SendResult`; what comes back is the
parameter `ProviderReply`.

The payload of a PagerDuty event is modelled here, since PagerDuty acts on it;
the Discord embed and the mail have modules of their own. The texts and layouts
of the other payloads only reach human readers and are left out.
-/

namespace Feloxi.Alerting

/-- Result of sending an alert notification. -/
structure SendResult where
  channelType : String
  success : Bool
  error : Option String
  /-- HTTP status returned by the provider, when applicable. -/
  status : Option Nat
  /-- Provider-requested wait before retrying, in seconds. -/
  retryAfter : Option F64
  /-- The integration this delivery used, when the channel references one. -/
  integrationId : Option Uuid
  deriving Repr, DecidableEq

namespace SendResult

def ok (channelType : String) : SendResult :=
  { channelType, success := true, error := none, status := none, retryAfter := none,
    integrationId := none }

def err (channelType error : String) : SendResult :=
  { channelType, success := false, error := some error, status := none, retryAfter := none,
    integrationId := none }

def withStatus (r : SendResult) (status : Nat) : SendResult := { r with status := some status }

def withRetryAfter (r : SendResult) (retryAfter : F64) : SendResult :=
  { r with retryAfter := some retryAfter }

def withIntegrationId (r : SendResult) (integrationId : Uuid) : SendResult :=
  { r with integrationId := some integrationId }

/-- Stable key for the delivery log. -/
def deliveryKey (r : SendResult) : String :=
  match r.integrationId with
  | some id => r.channelType ++ ":" ++ id.display
  | none => r.channelType

end SendResult

/-- What comes back from a provider: a transport error, or a response. -/
inductive ProviderReply where
  | failed (error : String)
  /-- `reason` is the canonical phrase of the status, `retryAfterHeader` the
  `Retry-After` header when it parses as a number, `body` the decoded JSON. -/
  | response (status : Nat) (reason : String) (retryAfterHeader : Option F64)
      (body : Except String Json)
  deriving Repr

/-- `StatusCode::is_success`. -/
def isSuccess (status : Nat) : Bool := decide (200 ≤ status) && decide (status < 300)

/-- `s.contains(pattern)`. -/
def containsText (s pattern : String) : Bool := decide (pattern.toList <:+: s.toList)

/-! ### Incoming webhooks, PagerDuty and e-mail -/

/-- The senders that look at nothing but the status line: `slack`, `webhook` and
`pagerduty`. -/
def postResult (channelType : String) : ProviderReply → SendResult
  | .failed error => .err channelType error
  | .response status reason _ _ =>
    if isSuccess status then .ok channelType
    else .err channelType ("HTTP " ++ toString status ++ " " ++ reason)

/-- `send_slack_alert`. -/
def sendSlackAlert (reply : ProviderReply) : SendResult := postResult "slack" reply

/-- `send_webhook_alert`. -/
def sendWebhookAlert (reply : ProviderReply) : SendResult := postResult "webhook" reply

/-- `send_pagerduty_alert`. -/
def sendPagerdutyAlert (reply : ProviderReply) : SendResult := postResult "pagerduty" reply

/-- `char::is_whitespace`. -/
def isWhiteSpace (c : Char) : Bool :=
  decide (c.val ∈ [0x20, 0x85, 0xA0, 0x1680, 0x2028, 0x2029, 0x202F, 0x205F, 0x3000]) ||
    decide (0x09 ≤ c.val ∧ c.val ≤ 0x0D) || decide (0x2000 ≤ c.val ∧ c.val ≤ 0x200A)

/-- `s.trim().is_empty()`. -/
def isBlank (s : String) : Bool := s.toList.all isWhiteSpace

/-- The dedup key of a PagerDuty event: rule and tenant of the alert. -/
def dedupKey (alert : FiredAlert) : String :=
  "fp-" ++ alert.ruleId.display ++ "-" ++ alert.tenantId.display

/-- Build the Events API v2 trigger. -/
def buildPayload (routingKey : String) (alert : FiredAlert) (tenant : AlertTenant) : Json :=
  let severity := match alert.severity with
    | "critical" => "critical"
    | "warning" => "warning"
    | _ => "info"
  let conditionType := alert.conditionType.getD "alert"
  -- `source` is required and must be non-empty.
  let source := if isBlank tenant.name then "Feloxi" else tenant.name
  let customDetails := (alert.details.set "tenant" (.str tenant.name)).set "tenant_slug"
    (.str tenant.slug)
  .ofEntries [
    ("routing_key", .str routingKey),
    ("event_action", .str "trigger"),
    ("payload", .ofEntries [
      ("summary", .str alert.summary),
      ("severity", .str severity),
      ("source", .str source),
      ("component", .str alert.ruleName),
      ("group", .str conditionType),
      ("class", .str conditionType),
      ("custom_details", customDetails)]),
    ("dedup_key", .str (dedupKey alert))]

/-- Whatever the alert, the event is a trigger. -/
@[simp] theorem buildPayload_event_action (routingKey : String) (alert : FiredAlert)
    (tenant : AlertTenant) :
    (buildPayload routingKey alert tenant).get "event_action" = some (.str "trigger") :=
  Json.get_ofEntries [("routing_key", .str routingKey)] "event_action" (.str "trigger") (by simp)

@[simp] theorem buildPayload_dedup_key (routingKey : String) (alert : FiredAlert)
    (tenant : AlertTenant) :
    (buildPayload routingKey alert tenant).get "dedup_key" = some (.str (dedupKey alert)) :=
  Json.get_ofEntries [_, _, _] "dedup_key" (.str (dedupKey alert)) (by simp)

/-- `send_email`: the recipients and the SMTP host are checked before the mail
library is asked. -/
def sendEmailAlert (recipients : List String) (smtpHost : String) (reply : ProviderReply) :
    SendResult :=
  if recipients.isEmpty then .err "email" "No recipients specified"
  else if smtpHost.isEmpty then .err "email" "SMTP not configured"
  else match reply with
    | .failed error => .err "email" error
    | .response .. => .ok "email"

/-! ### Slack bot -/

def actionableMessage (code : String) : String :=
  match code with
  | "not_in_channel" =>
    code ++ ": invite the Feloxi bot to this channel (`/invite @Feloxi`), then retry."
  | "channel_not_found" =>
    code ++ ": can't see this channel — if it's private, invite the Feloxi bot " ++
      "(`/invite @Feloxi`) and Refresh; otherwise it may be archived or renamed."
  | "account_inactive" | "invalid_auth" | "token_revoked" | "token_expired" =>
    code ++ ": Slack connection is no longer valid — reconnect the workspace."
  | other => other

/-- Whether a Slack error means the whole install is dead. -/
def isWorkspaceRevoked (error : String) : Bool :=
  containsText error "account_inactive" || containsText error "invalid_auth" ||
    containsText error "token_revoked" || containsText error "token_expired"

/-- `send_slack_bot_alert`: success is the `ok` field, not the HTTP status. -/
def sendSlackBotAlert (reply : ProviderReply) : SendResult :=
  match reply with
  | .failed error => .err "slack" error
  | .response status _ _ (.error e) =>
    (SendResult.err "slack" ("invalid Slack response: " ++ e)).withStatus status
  | .response status _ _ (.ok body) =>
    if ((body.get "ok").bind Json.asBool).getD false then (SendResult.ok "slack").withStatus status
    else
      let code := ((body.get "error").bind Json.asStr).getD "unknown_error"
      (SendResult.err "slack" (actionableMessage code)).withStatus status

/-! ### Discord -/

/-- Whether a Discord send result indicates the webhook no longer exists. -/
def isWebhookRevoked (result : SendResult) : Bool := result.status == some 404

/-- `send_discord_alert`. -/
def sendDiscordAlert (reply : ProviderReply) : SendResult :=
  match reply with
  | .failed error => .err "discord" error
  | .response status _ header body =>
    if isSuccess status then (SendResult.ok "discord").withStatus status
    else
      let body := body.toOption.getD .null
      if status = 429 then
        -- Rate limited: prefer the body's `retry_after`, fall back to the header.
        let retryAfter := (((body.get "retry_after").bind Json.asF64).orElse fun _ => header).getD
          (.fin 1)
        ((SendResult.err "discord" "rate limited").withStatus status).withRetryAfter retryAfter
      else
        let code := (body.get "code").bind Json.asI64
        let msg := match (body.get "message").bind Json.asStr with
          | some m => "HTTP " ++ toString status ++ ": " ++ m
          | none => "HTTP " ++ toString status
        -- A 404 or 10015 is what the dispatch layer treats as revoked.
        (SendResult.err "discord" msg).withStatus
          (if status = 404 ∨ code = some 10015 then 404 else status)

end Feloxi.Alerting
