import Feloxi.Alerting.Steps
import Feloxi.Alerting.System

/-!
# Feloxi.Alerting.Failures

Which failed deliveries are tried again.

A delivery fails for good when its integration cannot be used or when the
endpoint refuses the request; it fails for now when nobody answers, when the
endpoint is overloaded or when it breaks down. `isRetryable` sees none of this: it
sees the status of the `SendResult`, or that there is none. What a status stands
for is decided by the senders and by `decryptIntegrationSecret`, and not every one
of them reports it.
-/

namespace Feloxi.Alerting

/-! ### Causes of a failure -/

/-- The request was refused: asking again will not help. -/
def Refusal (status : Nat) : Prop := 400 ≤ status ∧ status < 500 ∧ status ≠ 429

/-- The endpoint is overloaded or broken for now. -/
def Outage (status : Nat) : Prop := status = 429 ∨ 500 ≤ status ∧ status < 600

theorem isSuccess_of_refusal {status : Nat} (h : Refusal status) : isSuccess status = false := by
  have hlow := h.1
  simp [isSuccess]
  omega

theorem isSuccess_of_outage {status : Nat} (h : Outage status) : isSuccess status = false := by
  rcases h with rfl | ⟨hlow, -⟩
  · rfl
  · simp [isSuccess]
    omega

/-- The HTTP status of an answer; the mail library reports none. -/
def AlertChannel.httpStatus : AlertChannel → ProviderReply → Option Nat
  | .email .., _ => none
  | _, .failed _ => none
  | _, .response status _ _ _ => some status

/-- Whether the sender puts the status of a refused request into its result. -/
def AlertChannel.reportsStatus : AlertChannel → Bool
  | .slackConnection .. | .discordConnection .. => true
  | _ => false

/-- The error code in the body of a Discord answer. -/
def discordCode (body : Except String Json) : Option Int :=
  ((body.toOption.getD .null).get "code").bind Json.asI64

/-- An outage that Discord's sender reports as a 404, since the body says that the
webhook is unknown. -/
def AlertChannel.Masks (channel : AlertChannel) (reply : ProviderReply) : Prop :=
  (∃ id minSeverity, channel = .discordConnection id minSeverity) ∧
    ∃ status reason header body, reply = .response status reason header body ∧
      500 ≤ status ∧ status < 600 ∧ discordCode body = some 10015

section Causes

variable (p : Platform) (integrations : List Integration)

/-- Why the secret of an integration cannot be had. -/
inductive Unusable (id : Uuid) : Prop where
  | missing (hfind : integrations.find? (fun i => i.id == id) = none)
  | inactive {integration : Integration}
      (hfind : integrations.find? (fun i => i.id == id) = some integration)
      (hstatus : integration.status ≠ "active")
  | noSecret {integration : Integration}
      (hfind : integrations.find? (fun i => i.id == id) = some integration)
      (hsecret : integration.secretEnc = none)
  | undecryptable {integration : Integration} {blob e : String}
      (hfind : integrations.find? (fun i => i.id == id) = some integration)
      (hsecret : integration.secretEnc = some blob) (hdecrypt : p.decryptStr blob = .error e)

/-- The delivery failed, and it will fail again. -/
def PermanentFailure (tenant : Tenant) (channel : AlertChannel) (reply : ProviderReply) : Prop :=
  let sending := sendToChannel p tenant integrations channel reply
  sending.result.success = false ∧
    ((∃ id, channel.integrationId = some id ∧ Unusable p integrations id) ∨
      sending.endpoint.isSome ∧ ∃ status, channel.httpStatus reply = some status ∧ Refusal status)

/-- The delivery was sent and failed, for a reason that may pass. -/
def TransientFailure (tenant : Tenant) (channel : AlertChannel) (reply : ProviderReply) : Prop :=
  let sending := sendToChannel p tenant integrations channel reply
  sending.result.success = false ∧ sending.endpoint.isSome ∧
    ((∃ error, reply = .failed error) ∨
      ∃ status, channel.httpStatus reply = some status ∧ Outage status)

variable {p integrations} {id : Uuid} (channelType : String)

/-- The failed lookup of an unusable integration carries no status. -/
theorem decryptIntegrationSecret_of_unusable (h : Unusable p integrations id) :
    ∃ msg, decryptIntegrationSecret p integrations id channelType =
      .error ((SendResult.err channelType msg).withIntegrationId id) := by
  unfold decryptIntegrationSecret
  cases h with
  | missing hfind => exact ⟨_, by rw [hfind]⟩
  | inactive hfind hstatus => exact ⟨_, by rw [hfind]; exact if_pos hstatus⟩
  | noSecret hfind hsecret =>
      rw [hfind]
      simp only [hsecret]
      split
      · exact ⟨_, rfl⟩
      · exact ⟨_, rfl⟩
  | undecryptable hfind hsecret hdecrypt =>
      rw [hfind]
      simp only [hsecret, hdecrypt]
      split
      · exact ⟨_, rfl⟩
      · exact ⟨_, rfl⟩

theorem decryptIntegrationSecret_of_usable (h : ¬ Unusable p integrations id) :
    ∃ secret, decryptIntegrationSecret p integrations id channelType = .ok secret := by
  cases hfind : integrations.find? fun i => i.id == id with
  | none => exact absurd (.missing hfind) h
  | some integration =>
      by_cases hstatus : integration.status = "active"
      · cases hsecret : integration.secretEnc with
        | none => exact absurd (.noSecret hfind hsecret) h
        | some blob =>
            cases hdecrypt : p.decryptStr blob with
            | error e => exact absurd (.undecryptable hfind hsecret hdecrypt) h
            | ok secret =>
                exact ⟨secret, by
                  simp [decryptIntegrationSecret, hfind, hstatus, hsecret, hdecrypt]⟩
      · exact absurd (.inactive hfind hstatus) h

variable (result : SendResult) (dead : Bool)

theorem sendConnected_of_unusable (h : Unusable p integrations id) :
    ∃ msg, sendConnected p integrations id channelType result dead =
      { endpoint := none, result := (SendResult.err channelType msg).withIntegrationId id } := by
  obtain ⟨msg, herr⟩ := decryptIntegrationSecret_of_unusable channelType h
  exact ⟨msg, by rw [sendConnected, herr]⟩

theorem sendConnected_of_usable (h : ¬ Unusable p integrations id) :
    ∃ secret, sendConnected p integrations id channelType result dead =
      { endpoint := some secret, result := result.withIntegrationId id,
        revoked := if dead then some id else none } := by
  obtain ⟨secret, hok⟩ := decryptIntegrationSecret_of_usable channelType h
  exact ⟨secret, by rw [sendConnected, hok]⟩

end Causes

/-! ### What the senders report -/

@[simp] theorem isRetryable_withIntegrationId (r : SendResult) (id : Uuid) :
    isRetryable (r.withIntegrationId id) = isRetryable r := rfl

/-- What is worth a retry has failed. -/
theorem success_of_retryable {r : SendResult} (h : isRetryable r = true) : r.success = false := by
  rw [isRetryable] at h
  cases hsuccess : r.success with
  | false => rfl
  | true => simp [hsuccess] at h

/-- Without a status every failure is worth a retry. -/
theorem isRetryable_of_status_none {r : SendResult} (h : r.status = none) :
    isRetryable r = !r.success := by
  rw [isRetryable, h]
  cases r.success <;> rfl

theorem isRetryable_of_refusal {r : SendResult} {status : Nat} (h : r.status = some status)
    (hrefusal : Refusal status) : isRetryable r = false := by
  obtain ⟨-, hhigh, hlimited⟩ := hrefusal
  rw [isRetryable, h]
  simp
  omega

theorem isRetryable_of_outage {r : SendResult} {status : Nat} (h : r.status = some status)
    (hfailed : r.success = false) (houtage : Outage status) : isRetryable r = true := by
  rw [isRetryable, h, hfailed]
  simp
  rcases houtage with rfl | ⟨hlow, -⟩
  · exact .inl rfl
  · exact .inr hlow

theorem postResult_status (channelType : String) (reply : ProviderReply) :
    (postResult channelType reply).status = none := by
  unfold postResult
  split
  · rfl
  · split <;> rfl

theorem sendEmailAlert_status (recipients : List String) (smtpHost : String)
    (reply : ProviderReply) : (sendEmailAlert recipients smtpHost reply).status = none := by
  unfold sendEmailAlert
  split
  · rfl
  · split
    · rfl
    · split <;> rfl

/-- The bot's sender reports the status of every answer. -/
theorem sendSlackBotAlert_status (status : Nat) (reason : String) (header : Option F64)
    (body : Except String Json) :
    (sendSlackBotAlert (.response status reason header body)).status = some status := by
  cases body with
  | error e => rfl
  | ok body =>
      simp only [sendSlackBotAlert]
      split <;> rfl

/-- The status of a failed Discord request: its own, or that of an unknown webhook. -/
theorem sendDiscordAlert_failed {status : Nat} (reason : String) (header : Option F64)
    (body : Except String Json) (h : isSuccess status = false) :
    (sendDiscordAlert (.response status reason header body)).success = false ∧
      (sendDiscordAlert (.response status reason header body)).status =
        some (if status ≠ 429 ∧ (status = 404 ∨ discordCode body = some 10015)
          then 404 else status) := by
  simp only [sendDiscordAlert, h, Bool.false_eq_true, if_false]
  by_cases hlimited : status = 429
  · rw [if_pos hlimited, if_neg (fun hgone => hgone.1 hlimited)]
    exact ⟨rfl, rfl⟩
  · rw [if_neg hlimited]
    refine ⟨rfl, ?_⟩
    simp only [SendResult.withStatus, ne_eq, hlimited, not_false_eq_true, true_and, discordCode]

/-- A refused Discord request is reported with its status, or as a 404. -/
theorem isRetryable_sendDiscordAlert_of_refusal {status : Nat} (reason : String)
    (header : Option F64) (body : Except String Json) (h : Refusal status) :
    isRetryable (sendDiscordAlert (.response status reason header body)) = false := by
  refine isRetryable_of_refusal
    (sendDiscordAlert_failed reason header body (isSuccess_of_refusal h)).2 ?_
  split
  · exact ⟨by decide, by decide, by decide⟩
  · exact h

/-- An outage of Discord is reported as one unless its body has the code of an
unknown webhook. -/
theorem isRetryable_sendDiscordAlert_of_outage {status : Nat} (reason : String)
    (header : Option F64) (body : Except String Json) (h : Outage status) :
    isRetryable (sendDiscordAlert (.response status reason header body)) = true ↔
      ¬ (500 ≤ status ∧ discordCode body = some 10015) := by
  obtain ⟨hfailed, hstatus⟩ := sendDiscordAlert_failed reason header body (isSuccess_of_outage h)
  by_cases hmasked : 500 ≤ status ∧ discordCode body = some 10015
  · have hgone : status ≠ 429 ∧ (status = 404 ∨ discordCode body = some 10015) :=
      ⟨by omega, .inr hmasked.2⟩
    rw [if_pos hgone] at hstatus
    have hrefused := isRetryable_of_refusal hstatus ⟨by decide, by decide, by decide⟩
    exact ⟨fun hretry => absurd (hrefused.symm.trans hretry) (by decide),
      fun hplain => absurd hmasked hplain⟩
  · have hplain : ¬ (status ≠ 429 ∧ (status = 404 ∨ discordCode body = some 10015)) := by
      rintro ⟨hlimited, rfl | hcode⟩
      · exact absurd h (by unfold Outage; decide)
      · exact hmasked ⟨(h.resolve_left hlimited).1, hcode⟩
    rw [if_neg hplain] at hstatus
    exact ⟨fun _ => hmasked, fun _ => isRetryable_of_outage hstatus hfailed h⟩

/-- What the sender of a channel makes of a reply. -/
def AlertChannel.answer (tenant : Tenant) (reply : ProviderReply) : AlertChannel → SendResult
  | .slack .. => sendSlackAlert reply
  | .webhook .. | .webhookConnection .. => sendWebhookAlert reply
  | .pagerDuty .. | .pagerDutyConnection .. => sendPagerdutyAlert reply
  | .email recipients _ => sendEmailAlert recipients (tenantSmtpHost tenant) reply
  | .slackConnection .. => sendSlackBotAlert reply
  | .discordConnection .. => sendDiscordAlert reply

section Answers

variable {p : Platform} {integrations : List Integration} (tenant : Tenant)
  {channel : AlertChannel} (reply : ProviderReply)

/-- An unusable integration is a failure without a status, and nothing is sent. -/
theorem sendToChannel_of_unusable {id : Uuid} (hid : channel.integrationId = some id)
    (h : Unusable p integrations id) :
    (sendToChannel p tenant integrations channel reply).endpoint = none ∧
      (sendToChannel p tenant integrations channel reply).result.success = false ∧
      isRetryable (sendToChannel p tenant integrations channel reply).result = true := by
  have hconnected : ∀ channelType result dead,
      (sendConnected p integrations id channelType result dead).endpoint = none ∧
        (sendConnected p integrations id channelType result dead).result.success = false ∧
        isRetryable (sendConnected p integrations id channelType result dead).result = true := by
    intro channelType result dead
    obtain ⟨msg, hsent⟩ := sendConnected_of_unusable channelType result dead h
    rw [hsent]
    exact ⟨rfl, rfl, rfl⟩
  cases channel with
  | slack | webhook | pagerDuty | email => cases hid
  | slackConnection | discordConnection | pagerDutyConnection | webhookConnection =>
      cases hid
      exact hconnected _ _ _

/-- Otherwise the result is what the sender makes of the reply. -/
theorem sendToChannel_of_usable
    (h : ∀ id, channel.integrationId = some id → ¬ Unusable p integrations id) :
    ((sendToChannel p tenant integrations channel reply).endpoint.isSome = true ∨
        ∃ recipients minSeverity, channel = .email recipients minSeverity) ∧
      (sendToChannel p tenant integrations channel reply).result.success =
        (channel.answer tenant reply).success ∧
      isRetryable (sendToChannel p tenant integrations channel reply).result =
        isRetryable (channel.answer tenant reply) := by
  have hconnected : ∀ id channelType result dead, ¬ Unusable p integrations id →
      (sendConnected p integrations id channelType result dead).endpoint.isSome = true ∧
        (sendConnected p integrations id channelType result dead).result.success =
          result.success ∧
        isRetryable (sendConnected p integrations id channelType result dead).result =
          isRetryable result := by
    intro id channelType result dead husable
    obtain ⟨secret, hsent⟩ :=
      sendConnected_of_usable channelType result dead husable
    rw [hsent]
    exact ⟨rfl, rfl, rfl⟩
  cases channel with
  | slack | webhook | pagerDuty => exact ⟨.inl rfl, rfl, rfl⟩
  | email recipients minSeverity => exact ⟨.inr ⟨_, _, rfl⟩, rfl, rfl⟩
  | slackConnection id | discordConnection id | pagerDutyConnection id | webhookConnection id =>
      obtain ⟨hendpoint, hsuccess, hretry⟩ := hconnected id _ _ _ (h id rfl)
      exact ⟨.inl hendpoint, hsuccess, hretry⟩

/-- The senders that report no status have none for any answer. -/
theorem answer_status_none (h : channel.reportsStatus = false) :
    (channel.answer tenant reply).status = none := by
  cases channel with
  | slack | webhook | pagerDuty | pagerDutyConnection | webhookConnection =>
      exact postResult_status _ reply
  | email => exact sendEmailAlert_status _ _ reply
  | slackConnection | discordConnection => cases h

variable {tenant reply}

theorem postResult_success_of_failed {status : Nat} {channelType reason : String}
    {header : Option F64} {body : Except String Json} (h : isSuccess status = false) :
    (postResult channelType (.response status reason header body)).success = false := by
  simp only [postResult, h, Bool.false_eq_true, if_false]
  rfl

/-- A refused request is told from an outage by the senders that report its status. -/
theorem isRetryable_answer_of_refusal {status : Nat}
    (hstatus : channel.httpStatus reply = some status) (hrefusal : Refusal status) :
    isRetryable (channel.answer tenant reply) = !channel.reportsStatus := by
  cases reply with
  | failed => cases channel <;> cases hstatus
  | response status' reason header body =>
      have hposted : ∀ channelType, isRetryable (postResult channelType
          (.response status' reason header body)) = !(postResult channelType
            (.response status' reason header body)).success :=
        fun channelType => isRetryable_of_status_none (postResult_status channelType _)
      cases channel with
      | slack | webhook | pagerDuty | pagerDutyConnection | webhookConnection =>
          cases hstatus
          exact (hposted _).trans
            (congrArg not (postResult_success_of_failed (isSuccess_of_refusal hrefusal)))
      | email => cases hstatus
      | slackConnection =>
          cases hstatus
          exact isRetryable_of_refusal (sendSlackBotAlert_status _ reason header body) hrefusal
      | discordConnection =>
          cases hstatus
          exact isRetryable_sendDiscordAlert_of_refusal reason header body hrefusal

/-- An outage is worth a retry for every sender, unless Discord masks it. -/
theorem isRetryable_answer_of_outage {status : Nat}
    (hstatus : channel.httpStatus reply = some status) (houtage : Outage status)
    (hfailed : (channel.answer tenant reply).success = false) :
    isRetryable (channel.answer tenant reply) = true ↔ ¬ channel.Masks reply := by
  cases reply with
  | failed => cases channel <;> cases hstatus
  | response status' reason header body =>
      have hunmasked : (∀ id minSeverity, channel ≠ .discordConnection id minSeverity) →
          ¬ channel.Masks (.response status' reason header body) :=
        fun hother hmasks => by
          obtain ⟨⟨id, minSeverity, heq⟩, -⟩ := hmasks
          exact hother id minSeverity heq
      cases channel with
      | slack | webhook | pagerDuty | pagerDutyConnection | webhookConnection =>
          refine ⟨fun _ => hunmasked (by simp), fun _ => ?_⟩
          rw [isRetryable_of_status_none (answer_status_none tenant _ rfl), hfailed]
          rfl
      | email => cases hstatus
      | slackConnection =>
          cases hstatus
          exact ⟨fun _ => hunmasked (by simp),
            fun _ => isRetryable_of_outage (sendSlackBotAlert_status _ reason header body) hfailed
              houtage⟩
      | discordConnection id minSeverity =>
          cases hstatus
          refine (isRetryable_sendDiscordAlert_of_outage reason header body houtage).trans
            (not_congr ⟨fun hcode => ?_, fun hmasks => ?_⟩)
          · refine ⟨⟨_, _, rfl⟩, _, _, _, _, rfl, hcode.1, ?_, hcode.2⟩
            rcases houtage with hlimited | ⟨-, hhigh⟩
            · omega
            · exact hhigh
          · obtain ⟨-, _, _, _, _, heq, hlow, -, hcode⟩ := hmasks
            cases heq
            exact ⟨hlow, hcode⟩

/-- Nobody answered: no sender has a status. -/
theorem isRetryable_answer_of_unanswered {error : String}
    (hfailed : (channel.answer tenant (.failed error)).success = false) :
    isRetryable (channel.answer tenant (.failed error)) = true := by
  have hstatus : (channel.answer tenant (.failed error)).status = none := by
    cases channel with
    | slackConnection | discordConnection => rfl
    | _ => exact answer_status_none tenant _ rfl
  rw [isRetryable_of_status_none hstatus, hfailed]
  rfl

end Answers

/-! ### Scheduling -/

section Scheduling

variable {call : Call} (tenantId historyId : Uuid) {attempt : Nat} (channel : AlertChannel)
  (alert : FiredAlert) {result : SendResult} {w : World}

/-- The retry queue takes a job: the command succeeds, and the queue is not full. -/
def Takes (call : Call) (w : World) : Prop :=
  call.fails = false ∧ w.deliveryRetry.length < World.maxDeliveryRetryLen

theorem maybeScheduleRetry_of_not_retryable (h : isRetryable result = false) :
    maybeScheduleRetry call tenantId historyId attempt channel alert result w = w :=
  if_pos (by simp [h])

theorem maybeScheduleRetry_of_exhausted (h : maxDeliveryAttempts ≤ attempt) :
    maybeScheduleRetry call tenantId historyId attempt channel alert result w = w :=
  if_pos (by simp [h])

theorem mem_maybeScheduleRetry (hretry : isRetryable result = true)
    (hattempt : attempt < maxDeliveryAttempts) (htakes : Takes call w) :
    (retryScore w.now attempt result,
        { tenantId, historyId, attempt := attempt + 1, channel, alert }) ∈
      (maybeScheduleRetry call tenantId historyId attempt channel alert result w).deliveryRetry := by
  have hgiven : ¬ (!isRetryable result || decide (attempt ≥ maxDeliveryAttempts)) = true := by
    simpa [hretry] using hattempt
  have hroom : ¬ (w.advance call).deliveryRetry.length ≥ World.maxDeliveryRetryLen := by
    rw [World.advance_deliveryRetry]
    exact Nat.not_le.2 htakes.2
  rw [maybeScheduleRetry, if_neg hgiven]
  simp only [htakes.1, Bool.false_eq_true, if_false, World.scheduleDeliveryRetry, if_neg hroom,
    List.mem_append, List.mem_singleton]
  exact .inr rfl

end Scheduling

section Deliveries

variable (p : Platform) (integrations : List Integration) (channel : AlertChannel)
  (reply : ProviderReply) (attempt : Nat)

/-- Permanent failures are not tried again; transient ones are, twice. -/
structure RetriesByCause (tenant : Tenant) (tenantId historyId : Uuid) (alert : FiredAlert)
    (result : SendResult) : Prop where
  permanent : PermanentFailure p integrations tenant channel reply → ∀ call w,
    (maybeScheduleRetry call tenantId historyId attempt channel alert result w).deliveryRetry =
      w.deliveryRetry
  transient : TransientFailure p integrations tenant channel reply →
    attempt = 1 ∨ attempt = 2 → ∀ call w, Takes call w →
      (retryScore w.now attempt result,
          { tenantId, historyId, attempt := attempt + 1, channel, alert }) ∈
        (maybeScheduleRetry call tenantId historyId attempt channel alert result w).deliveryRetry

/-- Nothing hides the cause while attempts are left: the integration can be used, a
refusal is reported with its status, and an outage is not reported as a 404. -/
structure CauseShown : Prop where
  usable : attempt < maxDeliveryAttempts → ∀ id, channel.integrationId = some id →
    ¬ Unusable p integrations id
  reported : attempt < maxDeliveryAttempts → ∀ status, channel.httpStatus reply = some status →
    Refusal status → channel.reportsStatus = true
  unmasked : attempt = 1 ∨ attempt = 2 → ¬ channel.Masks reply

variable {p integrations channel reply attempt} {tenant : Tenant}

/-- A permanent failure whose cause is shown is not retryable. -/
theorem CauseShown.not_retryable (h : CauseShown p integrations channel reply attempt)
    (hattempt : attempt < maxDeliveryAttempts)
    (hfailure : PermanentFailure p integrations tenant channel reply) :
    isRetryable (sendToChannel p tenant integrations channel reply).result = false := by
  rcases hfailure.2 with ⟨id, hid, hunusable⟩ | ⟨-, status, hstatus, hrefusal⟩
  · exact absurd hunusable (h.usable hattempt id hid)
  · rw [(sendToChannel_of_usable tenant reply (h.usable hattempt)).2.2,
      isRetryable_answer_of_refusal hstatus hrefusal, h.reported hattempt status hstatus hrefusal]
    rfl

/-- A transient failure is of a usable integration, and retryable unless it is masked. -/
theorem TransientFailure.retryable_iff
    (hfailure : TransientFailure p integrations tenant channel reply) :
    isRetryable (sendToChannel p tenant integrations channel reply).result = true ↔
      ¬ channel.Masks reply := by
  have husable : ∀ id, channel.integrationId = some id → ¬ Unusable p integrations id := by
    intro id hid hunusable
    have hsent := hfailure.2.1
    rw [(sendToChannel_of_unusable tenant reply hid hunusable).1] at hsent
    cases hsent
  obtain ⟨-, hsuccess, hretry⟩ := sendToChannel_of_usable tenant reply husable
  have hfailed := hsuccess.symm.trans hfailure.1
  rw [hretry]
  rcases hfailure.2.2 with ⟨error, rfl⟩ | ⟨status, hstatus, houtage⟩
  · refine ⟨fun _ hmasks => ?_, fun _ => isRetryable_answer_of_unanswered hfailed⟩
    obtain ⟨-, _, _, _, _, heq, -⟩ := hmasks
    cases heq
  · exact isRetryable_answer_of_outage hstatus houtage hfailed

/-- A masked outage of a usable integration is a transient failure. -/
theorem AlertChannel.Masks.transientFailure (h : channel.Masks reply) (tenant : Tenant)
    (husable : ∀ id, channel.integrationId = some id → ¬ Unusable p integrations id) :
    TransientFailure p integrations tenant channel reply := by
  obtain ⟨⟨id, minSeverity, rfl⟩, status, reason, header, body, rfl, hlow, hhigh, -⟩ := h
  have houtage : Outage status := .inr ⟨hlow, hhigh⟩
  obtain ⟨hsent, hsuccess, -⟩ := sendToChannel_of_usable tenant
    (.response status reason header body) husable
  refine ⟨hsuccess.trans (sendDiscordAlert_failed reason header body
    (isSuccess_of_outage houtage)).1, ?_, .inr ⟨status, rfl, houtage⟩⟩
  exact hsent.resolve_right fun ⟨_, _, hemail⟩ => by cases hemail

theorem deliverChannel_fst (send revoke : Call) (notice : Notice) (alert : FiredAlert)
    (w : World) :
    (deliverChannel p send revoke tenant integrations notice channel alert w).1 =
      (sendToChannel p tenant integrations channel send.reply).result := by
  unfold deliverChannel
  simp only
  split <;> rfl

/-- The world with an empty retry queue, in which every job is taken. -/
theorem takes_empty (call : Call) (w : World) :
    Takes { call with fails := false } { w with deliveryRetry := [] } :=
  ⟨rfl, Nat.zero_lt_succ _⟩

/-- **Retries follow the cause.** -/
theorem retriesByCause_iff (send revoke : Call) (notice : Notice) (tenantId historyId : Uuid)
    (alert : FiredAlert) (w : World) :
    RetriesByCause p integrations channel send.reply attempt tenant tenantId historyId alert
        (deliverChannel p send revoke tenant integrations notice channel alert w).1 ↔
      CauseShown p integrations channel send.reply attempt := by
  rw [deliverChannel_fst]
  have htakes := takes_empty send w
  constructor
  · intro h
    -- A retryable failure would join an empty queue.
    have hpermanent : attempt < maxDeliveryAttempts →
        PermanentFailure p integrations tenant channel send.reply →
        isRetryable (sendToChannel p tenant integrations channel send.reply).result ≠ true := by
      intro hattempt hfailure hretry
      have hqueued := mem_maybeScheduleRetry tenantId historyId channel alert hretry hattempt htakes
      rw [h.permanent hfailure] at hqueued
      cases hqueued
    have husable : attempt < maxDeliveryAttempts → ∀ id, channel.integrationId = some id →
        ¬ Unusable p integrations id := by
      intro hattempt id hid hunusable
      obtain ⟨-, hfailed, hretry⟩ := sendToChannel_of_unusable tenant send.reply hid hunusable
      exact hpermanent hattempt ⟨hfailed, .inl ⟨id, hid, hunusable⟩⟩ hretry
    refine ⟨husable, fun hattempt status hstatus hrefusal => ?_, fun hattempt hmasks => ?_⟩
    · by_contra hunreported
      obtain ⟨hsent, hsuccess, hretry⟩ :=
        sendToChannel_of_usable tenant send.reply (husable hattempt)
      rw [isRetryable_answer_of_refusal hstatus hrefusal, Bool.not_eq_true _ |>.mp hunreported]
        at hretry
      have hendpoint := hsent.resolve_right fun ⟨_, _, hemail⟩ => by
        rw [hemail] at hstatus
        cases hstatus
      exact hpermanent hattempt ⟨success_of_retryable hretry, .inr ⟨hendpoint, status, hstatus,
        hrefusal⟩⟩ hretry
    · have hleft : attempt < maxDeliveryAttempts := by
        rcases hattempt with rfl | rfl <;> decide
      have hfailure := hmasks.transientFailure tenant (husable hleft)
      have hqueued := h.transient hfailure hattempt _ _ htakes
      have hunretried : isRetryable (sendToChannel p tenant integrations channel
          send.reply).result = false :=
        Bool.eq_false_iff.2 fun hretry => hfailure.retryable_iff.1 hretry hmasks
      rw [maybeScheduleRetry_of_not_retryable tenantId historyId channel alert hunretried]
        at hqueued
      cases hqueued
  · intro h
    refine ⟨fun hfailure call w => ?_, fun hfailure hattempt call w htakes => ?_⟩
    · by_cases hattempt : attempt < maxDeliveryAttempts
      · rw [maybeScheduleRetry_of_not_retryable tenantId historyId channel alert
          (h.not_retryable hattempt hfailure)]
      · rw [maybeScheduleRetry_of_exhausted tenantId historyId channel alert
          (Nat.not_lt.1 hattempt)]
    · have hleft : attempt < maxDeliveryAttempts := by
        rcases hattempt with rfl | rfl <;> decide
      exact mem_maybeScheduleRetry tenantId historyId channel alert
        (hfailure.retryable_iff.2 (h.unmasked hattempt)) hleft htakes

end Deliveries

/-! ### A deleted webhook -/

/-- The answer of an endpoint that no longer exists. -/
def goneCall : Call := { sampleCall 1 with reply := .response 404 "Not Found" none (.ok .null) }

def sampleAlert : FiredAlert where
  id := 3
  ruleId := 7
  tenantId := 1
  ruleName := "Task failed"
  conditionType := some "task_failed"
  severity := "critical"
  summary := "1 task failed"
  details := .obj []
  firedAt := .zero

/-- A webhook that answers 404 at the first attempt is tried again, and so is a
connection to an integration that does not exist. -/
theorem not_retriesByCause_goneWebhook :
    ¬ RetriesByCause samplePlatform [] sampleHook goneCall.reply 1 sampleTenant 1 2 sampleAlert
        (deliverChannel samplePlatform goneCall goneCall sampleTenant [] (.fire 0) sampleHook
          sampleAlert (sampleWorld (sampleRule [sampleHook] 0))).1 ∧
      ¬ RetriesByCause samplePlatform [] (.webhookConnection 5 none) goneCall.reply 1 sampleTenant
        1 2 sampleAlert (deliverChannel samplePlatform goneCall goneCall sampleTenant [] (.fire 0)
          (.webhookConnection 5 none) sampleAlert (sampleWorld (sampleRule [] 0))).1 := by
  refine ⟨fun h => ?_, fun h => ?_⟩
  · have hfailure : PermanentFailure samplePlatform [] sampleTenant sampleHook goneCall.reply :=
      ⟨rfl, .inr ⟨rfl, 404, rfl, by decide, by decide, by decide⟩⟩
    have hnothing := h.permanent hfailure (sampleCall 1) (sampleWorld (sampleRule [] 0))
    cases hnothing
  · have hfailure : PermanentFailure samplePlatform [] sampleTenant (.webhookConnection 5 none)
        goneCall.reply := ⟨rfl, .inl ⟨5, rfl, .missing rfl⟩⟩
    have hnothing := h.permanent hfailure (sampleCall 1) (sampleWorld (sampleRule [] 0))
    cases hnothing

end Feloxi.Alerting
