import Feloxi.Alerting.Context
import Feloxi.Alerting.Recovery
import Mathlib.Data.List.Sort

/-!
# Feloxi.Alerting.Store

The state the alert loops work on, and the statements they run against it: the
Postgres tables (`crates/db/src/postgres/`), the delivery-retry ZSET
(`crates/db/src/redis/cache.rs`), the two in-process maps, one clock, and the
trace of what has happened so far.

**Outcomes.** Every awaited call of a loop has a `Call`: whether it fails, what
comes back, how much time passes before it takes effect and which silences the
API creates or expires meanwhile. A call that fails has no effect.

**Trace.** Notifications, evaluations and incident transitions are appended to
`World.trace`; nothing reads it back. A notification carries the silences on
record at the moment it is sent.
-/

namespace Feloxi.Alerting

/-! ### Jobs and events -/

/-- A failed channel delivery queued for retry. -/
structure DeliveryRetryJob where
  tenantId : Uuid
  /-- History row whose delivery log gets updated after the retry. -/
  historyId : Uuid
  /-- The attempt about to run (attempt 1 was the inline send). -/
  attempt : Nat
  channel : AlertChannel
  alert : FiredAlert
  deriving Repr, DecidableEq

/-- Which notification a delivery belongs to. -/
inductive Notice where
  /-- The fire notice of an incident; `firing` is the length of the trace when
  the alert was raised. -/
  | fire (firing : Nat)
  /-- A retried fire notice. -/
  | retry (historyId : Uuid) (attempt : Nat)
  /-- The resolved notice; `incident` lists the rows it is about. -/
  | resolved (incident : List Uuid)
  deriving Repr, DecidableEq

/-- One call of `deliver_channel`. -/
structure Delivery where
  notice : Notice
  source : AlertTenant
  channel : AlertChannel
  alert : FiredAlert
  /-- Where the request went: URL, token or routing key; `none` when none was made. -/
  endpoint : Option String
  result : SendResult
  time : Instant
  silences : List AlertSilence
  deriving Repr, DecidableEq

/-- Whether the provider took it. -/
def Delivery.success (d : Delivery) : Bool := d.result.success

/-- What came of the channel. -/
def Delivery.outcome (d : Delivery) : AlertChannel × SendResult := (d.channel, d.result)

/-- The job of an attempt after this one. -/
def Delivery.retryJob (d : Delivery) (tenantId historyId : Uuid) (attempt : Nat) :
    DeliveryRetryJob :=
  { tenantId, historyId, attempt, channel := d.channel, alert := d.alert }

inductive Event where
  /-- The closing of an incident whose rule is not in the enabled list, with
  the rows the statement closed. -/
  | silentClose (tenant rule : Uuid) (closed : List Uuid)
  /-- The resolve tracker forgot a rule. -/
  | forgot (rule : Uuid)
  | evaluated (tenant rule : Uuid) (fired : Bool) (openSince : Option Instant)
  | delivery (d : Delivery)
  | opened (tenant rule row : Uuid) (firing : Nat)
  /-- The closing of an incident by its clear streak. -/
  | resolved (tenant rule : Uuid) (closed : List Uuid)
  | fireRecorded (rule : Uuid) (time : Instant) (cooldownSecs : Int)
  /-- `EventPayload::AlertFired`. -/
  | alertFired (tenant rule : Uuid) (ruleName severity summary : String)
  /-- `EventPayload::AlertResolved`. -/
  | alertResolved (tenant rule : Uuid) (ruleName summary : String)
  deriving Repr, DecidableEq

/-- The delivery an event records. -/
def Event.delivery? : Event → Option Delivery
  | .delivery d => some d
  | _ => none

/-- The deliveries of a trace. -/
theorem mem_deliveries {trace : List Event} {d : Delivery} :
    d ∈ trace.filterMap Event.delivery? ↔ .delivery d ∈ trace := by
  rw [List.mem_filterMap]
  constructor
  · rintro ⟨e, he, hd⟩
    cases e with
    | delivery d' => exact Option.some.inj hd ▸ he
    | _ => cases hd
  · exact fun hd => ⟨_, hd, rfl⟩

/-! ### World -/

structure World where
  now : Instant
  tenants : List Tenant
  alertRules : List AlertRule
  alertHistory : List AlertHistoryRow
  /-- Every id ever drawn for a history row: random ids do not repeat. -/
  historyIds : List Uuid
  alertSilences : List AlertSilence
  integrations : List Integration
  /-- The delivery-retry ZSET: score and member. -/
  deliveryRetry : List (F64 × DeliveryRetryJob)
  throttle : AlertThrottle
  resolver : ResolveTracker
  trace : List Event

/-- What the API does to silences while a loop waits. -/
inductive SilenceOp where
  | create (tenantId : Uuid) (ruleId : Option Uuid) (durationMinutes : Int) (id : Uuid)
  | expire (tenantId id : Uuid)
  deriving Repr, DecidableEq

/-- The outcome of one awaited call. -/
structure Call where
  fails : Bool
  /-- Time before the call takes effect, after the last landed operation. -/
  delay : Nat
  /-- Silence operations that land before the call takes effect, each after a
  time of its own. -/
  landed : List (Nat × SilenceOp)
  /-- What the provider answers, when the call is a send. -/
  reply : ProviderReply
  /-- The id drawn, when the call draws one. -/
  uuid : Uuid

/-- `to_unix_f64`. -/
def toUnixF64 (t : Instant) : F64 := .fin ((t : ℚ) / nanosPerSec)

/-- `timestamp() as f64`: whole seconds. -/
def timestampF64 (t : Instant) : F64 := .ofNat (t / nanosPerSec)

/-- A silence is active at a time. -/
def AlertSilence.activeAt (s : AlertSilence) (t : Instant) : Bool :=
  decide (s.startsAt ≤ t) && decide (t < s.endsAt)

/-- A history row of a rule. -/
def AlertHistoryRow.ofRule (h : AlertHistoryRow) (tenantId ruleId : Uuid) : Bool :=
  h.tenantId == tenantId && h.ruleId == ruleId

/-- An unresolved history row of a rule. -/
def AlertHistoryRow.isOpenFor (h : AlertHistoryRow)
    (tenantId ruleId : Uuid) : Bool :=
  h.tenantId == tenantId && h.ruleId == ruleId && h.resolvedAt.isNone

/-- Overwrite the entry of a key, or add one. -/
def insertLog (key : String) (status : ChannelDeliveryStatus)
    (log : List (String × ChannelDeliveryStatus)) : List (String × ChannelDeliveryStatus) :=
  log.filter (fun e => e.1 != key) ++ [(key, status)]

namespace World

def emit (w : World) (e : Event) : World := { w with trace := w.trace ++ [e] }

/-! ### Silences -/

/-- `POST /alerts/silences`: one minute to thirty days, starting now. -/
def createSilence (w : World) (tenantId : Uuid) (ruleId : Option Uuid) (durationMinutes : Int)
    (id : Uuid) : World :=
  let minutes := (max 1 (min durationMinutes (60 * 24 * 30))).toNat
  let owned := ruleId.all fun r => w.alertRules.any fun q => q.id == r && q.tenantId == tenantId
  if !owned || w.alertSilences.any (fun s => s.id == id) then w
  else { w with alertSilences := w.alertSilences ++
    [{ id, tenantId, ruleId, startsAt := w.now, endsAt := w.now + fromSecs (minutes * 60) }] }

/-- `DELETE /alerts/silences/{id}`: end a silence now. -/
def expireSilence (w : World) (tenantId id : Uuid) : World :=
  { w with alertSilences := w.alertSilences.map fun s =>
      if s.id == id && s.tenantId == tenantId && decide (w.now < s.endsAt)
        then { s with endsAt := w.now } else s }

def applySilenceOp (w : World) : SilenceOp → World
  | .create tenantId ruleId durationMinutes id => w.createSilence tenantId ruleId durationMinutes id
  | .expire tenantId id => w.expireSilence tenantId id

/-- The state in which a call takes effect. -/
def advance (w : World) (c : Call) : World :=
  let w := c.landed.foldl (fun w l => { w with now := w.now + l.1 }.applySilenceOp l.2) w
  { w with now := w.now + c.delay }

/-- A silence operation touches nothing but the silences. -/
theorem applySilenceOp_eq (w : World) (op : SilenceOp) :
    ∃ silences, w.applySilenceOp op = { w with alertSilences := silences } := by
  cases op with
  | create tenantId ruleId durationMinutes id =>
      simp only [applySilenceOp, createSilence]
      split
      · exact ⟨_, rfl⟩
      · exact ⟨_, rfl⟩
  | expire tenantId id => exact ⟨_, rfl⟩

/-- Waiting moves the clock forward and touches nothing but the silences. -/
theorem advance_eq (w : World) (c : Call) :
    ∃ now silences, w.now ≤ now ∧
      w.advance c = { w with now := now, alertSilences := silences } := by
  have hlanded : ∀ (landed : List (Nat × SilenceOp)) (w : World), ∃ now silences, w.now ≤ now ∧
      landed.foldl (fun w l => { w with now := w.now + l.1 }.applySilenceOp l.2) w =
        { w with now := now, alertSilences := silences } := by
    intro landed
    induction landed with
    | nil => exact fun w => ⟨_, _, Nat.le_refl _, rfl⟩
    | cons l rest ih =>
        intro w
        obtain ⟨silences, hw⟩ := applySilenceOp_eq { w with now := w.now + l.1 } l.2
        obtain ⟨now, silences', hle, hrest⟩ :=
          ih ({ w with now := w.now + l.1 }.applySilenceOp l.2)
        rw [List.foldl_cons, hrest, hw] at *
        exact ⟨now, silences', Nat.le_trans (Nat.le_add_right _ _) hle, rfl⟩
  obtain ⟨now, silences, hle, hw⟩ := hlanded c.landed w
  refine ⟨now + c.delay, silences, Nat.le_trans hle (Nat.le_add_right _ _), ?_⟩
  simp only [advance, hw]

section Advance

variable (w : World) (c : Call)

theorem now_le_advance : w.now ≤ (w.advance c).now := by
  obtain ⟨now, silences, hle, hw⟩ := advance_eq w c
  rw [hw]
  exact hle

@[simp] theorem advance_tenants : (w.advance c).tenants = w.tenants := by
  obtain ⟨_, _, -, hw⟩ := advance_eq w c
  rw [hw]

@[simp] theorem advance_alertRules : (w.advance c).alertRules = w.alertRules := by
  obtain ⟨_, _, -, hw⟩ := advance_eq w c
  rw [hw]

@[simp] theorem advance_alertHistory : (w.advance c).alertHistory = w.alertHistory := by
  obtain ⟨_, _, -, hw⟩ := advance_eq w c
  rw [hw]

@[simp] theorem advance_historyIds : (w.advance c).historyIds = w.historyIds := by
  obtain ⟨_, _, -, hw⟩ := advance_eq w c
  rw [hw]

@[simp] theorem advance_integrations : (w.advance c).integrations = w.integrations := by
  obtain ⟨_, _, -, hw⟩ := advance_eq w c
  rw [hw]

@[simp] theorem advance_deliveryRetry : (w.advance c).deliveryRetry = w.deliveryRetry := by
  obtain ⟨_, _, -, hw⟩ := advance_eq w c
  rw [hw]

@[simp] theorem advance_throttle : (w.advance c).throttle = w.throttle := by
  obtain ⟨_, _, -, hw⟩ := advance_eq w c
  rw [hw]

@[simp] theorem advance_resolver : (w.advance c).resolver = w.resolver := by
  obtain ⟨_, _, -, hw⟩ := advance_eq w c
  rw [hw]

@[simp] theorem advance_trace : (w.advance c).trace = w.trace := by
  obtain ⟨_, _, -, hw⟩ := advance_eq w c
  rw [hw]

end Advance

/-- `list_active_silences`. -/
def listActiveSilences (w : World) (tenantId : Uuid) : List AlertSilence :=
  w.alertSilences.filter fun s => s.tenantId == tenantId && s.activeAt w.now

/-! ### Tenants, rules and integrations -/

/-- `list_tenants`, newest first. -/
def listTenants (w : World) (limit : Nat) : List Tenant :=
  ((w.tenants.filter (·.isActive)).insertionSort fun a b => b.createdAt ≤ a.createdAt).take limit

/-- `get_tenant_by_id`. -/
def getTenantById (w : World) (id : Uuid) : Option Tenant :=
  w.tenants.find? fun t => t.id == id && t.isActive

/-- `list_enabled_alert_rules`. -/
def listEnabledAlertRules (w : World) (tenantId : Uuid) : List AlertRule :=
  w.alertRules.filter fun r => r.tenantId == tenantId && r.isEnabled

/-- `map_integrations`. -/
def mapIntegrations (w : World) (tenantId : Uuid) : List Integration :=
  w.integrations.filter fun i => i.tenantId == tenantId

/-- `set_integration_status`. -/
def setIntegrationStatus (w : World) (tenantId id : Uuid) (status : String) : World :=
  { w with integrations := w.integrations.map fun i =>
      if i.id == id && i.tenantId == tenantId then { i with status } else i }

/-! ### Alert history -/

/-- The rows of a rule. -/
def rows (w : World) (tenantId ruleId : Uuid) : List AlertHistoryRow :=
  w.alertHistory.filter (·.ofRule tenantId ruleId)

/-- The unresolved rows of a rule. -/
def openRows (w : World) (tenantId ruleId : Uuid) : List AlertHistoryRow :=
  w.alertHistory.filter (·.isOpenFor tenantId ruleId)

theorem openRows_eq (w : World) (tenantId ruleId : Uuid) :
    w.openRows tenantId ruleId = (w.rows tenantId ruleId).filter (·.resolvedAt.isNone) := by
  rw [rows, List.filter_filter, openRows]
  refine List.filter_congr fun h _ => ?_
  rw [AlertHistoryRow.isOpenFor, AlertHistoryRow.ofRule, Bool.and_comm]

/-- When the earliest unresolved firing of a rule happened. -/
def firstFiredAt (w : World) (tenantId ruleId : Uuid) : Option Instant :=
  ((w.openRows tenantId ruleId).map (·.firedAt)).min?

/-- `list_open_alerts`: the rules with an unresolved row, each with its earliest
firing. -/
def listOpenAlerts (w : World) (tenantId : Uuid) : List (Uuid × Instant) :=
  let open' := w.alertHistory.filter fun h => h.tenantId == tenantId && h.resolvedAt.isNone
  ((open'.map (·.ruleId)).dedup).filterMap fun r => (w.firstFiredAt tenantId r).map (Prod.mk r)

/-- `resolve_alerts_for_rule`. -/
def resolveAlertsForRule (w : World) (tenantId ruleId : Uuid) : World :=
  { w with alertHistory := w.alertHistory.map fun h =>
      if h.isOpenFor tenantId ruleId then { h with resolvedAt := some w.now } else h }

/-- The `INSERT` of `record_alert_fired`. -/
def insertHistory (w : World) (row : AlertHistoryRow) : World :=
  { w with alertHistory := w.alertHistory ++ [row], historyIds := row.id :: w.historyIds }

/-- The `UPDATE alert_rules` of `record_alert_fired`. -/
def touchRule (w : World) (ruleId : Uuid) : World :=
  { w with alertRules := w.alertRules.map fun r =>
      if r.id == ruleId then { r with lastFiredAt := some w.now } else r }

/-- `update_delivery_status`. -/
def updateDeliveryStatus (w : World) (tenantId historyId : Uuid) (key : String)
    (status : ChannelDeliveryStatus) : World :=
  { w with alertHistory := w.alertHistory.map fun h =>
      if h.tenantId == tenantId && h.id == historyId
        then { h with channelsSent := insertLog key status h.channelsSent } else h }

/-! ### Delivery retries -/

/-- The queued jobs. -/
def jobs (w : World) : List DeliveryRetryJob := w.deliveryRetry.map Prod.snd

/-- Cap on queued alert delivery retries. -/
def maxDeliveryRetryLen : Nat := 10000

/-- `schedule_delivery_retry`; beyond the cap the job is dropped. -/
def scheduleDeliveryRetry (w : World) (job : DeliveryRetryJob) (score : F64) : World :=
  if w.deliveryRetry.length ≥ maxDeliveryRetryLen then w
  else { w with deliveryRetry := w.deliveryRetry.filter (fun e => e.2 != job) ++ [(score, job)] }

/-- The jobs that are due, by score; `rank` is the order of members of one score. -/
def dueJobs (w : World) (rank : DeliveryRetryJob → Nat) (now : F64) (limit : Nat) :
    List DeliveryRetryJob :=
  (((w.deliveryRetry.filter fun e => e.1.le now).insertionSort fun a b =>
      a.1.lt b.1 ∨ (a.1 = b.1 ∧ rank a.2 ≤ rank b.2)).take limit).map Prod.snd

/-- `pop_due_delivery_retries`: read the due jobs and remove them. -/
def popDueDeliveryRetries (w : World) (rank : DeliveryRetryJob → Nat) (now : F64) (limit : Nat) :
    List DeliveryRetryJob × World :=
  let due := w.dueJobs rank now limit
  (due, { w with deliveryRetry := w.deliveryRetry.filter fun e => decide (e.2 ∉ due) })

end World

end Feloxi.Alerting
