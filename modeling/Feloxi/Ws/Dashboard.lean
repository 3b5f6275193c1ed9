import Feloxi.Auth.Sessions
import Feloxi.Lib.F64
import Feloxi.Lib.Runs

/-!
# Feloxi.Ws.Dashboard

The live view (`crates/api/src/ws/handler.rs`). A session knows the tenant of the token that
opened it and the topics that its client asked for; task updates are counted and sent as one
batch a second, other events one by one.
-/

namespace Feloxi.Ws

open Auth (Claims CurrentUser checkPermission)
open Runs

/-! ### Topics and messages -/

/-- `SubscriptionTopic`. -/
inductive SubscriptionTopic where
  | allTasks
  | queue (queue : String)
  | task (taskId : String)
  | taskType (taskName : String)
  | allWorkers
  | worker (workerId : String)
  | beat
  | alerts
  | metricsSummary
  deriving Repr, DecidableEq

/-- `EventPayload`, which a client gets as JSON with its variant as `type`. -/
inductive EventPayload where
  | taskUpdate (taskId taskName state queue workerId : String) (runtime : Option F64)
      (timestamp : F64)
  | workerUpdate (workerId hostname status : String) (activeTasks : Nat) (cpuPercent memoryMb : F64)
  | beatUpdate (scheduleName taskName : String) (lastRunAt nextRunAt : Option F64)
  | alertFired (ruleId : Uuid) (ruleName severity summary : String)
  | alertResolved (ruleId : Uuid) (ruleName summary : String)
  | metricsSummary (throughput failureRate : F64) (activeWorkers queueDepth : Nat)
  deriving Repr, DecidableEq

structure TenantEvent where
  tenantId : Uuid
  payload : EventPayload
  deriving Repr, DecidableEq

/-- `WsClientCommand`. -/
inductive WsClientCommand where
  | subscribe (topics : List SubscriptionTopic)
  | unsubscribe (topics : List SubscriptionTopic)
  | ping
  deriving Repr, DecidableEq

/-- The payload of an event message. -/
inductive Payload where
  | event (payload : EventPayload)
  /-- `TaskBatchUpdate`. -/
  | taskBatchUpdate (count : Nat) (latest : List EventPayload)
  deriving Repr, DecidableEq

/-- `WsServerMessage`. -/
inductive WsServerMessage where
  | pong
  | subscribed (topics : List SubscriptionTopic)
  | event (payload : Payload)
  deriving Repr, DecidableEq

def EventPayload.isTask : EventPayload → Bool
  | .taskUpdate .. => true
  | _ => false

/-- Whether a topic asks for an event. -/
def SubscriptionTopic.asksFor (payload : EventPayload) (topic : SubscriptionTopic) : Bool :=
  match payload, topic with
  | .taskUpdate .., .allTasks => true
  | .taskUpdate _ _ _ inQueue _ _ _, .queue q => inQueue == q
  | .taskUpdate taskId _ _ _ _ _ _, .task tid => taskId == tid
  | .taskUpdate _ taskName _ _ _ _ _, .taskType tn => taskName == tn
  | .workerUpdate .., .allWorkers => true
  | .workerUpdate workerId _ _ _ _ _, .worker wid => workerId == wid
  | .beatUpdate .., .beat => true
  | .alertFired .., .alerts => true
  | .alertResolved .., .alerts => true
  | .metricsSummary .., .metricsSummary => true
  | _, _ => false

/-- `matches_any_subscription`. -/
def matchesAnySubscription (event : TenantEvent) (subscriptions : List SubscriptionTopic) : Bool :=
  subscriptions.any (·.asksFor event.payload)

/-! ### Sessions -/

/-- What `handle_dashboard_socket` keeps between messages. -/
structure DashboardSession where
  tenantId : Uuid
  /-- A set. -/
  subscriptions : List SubscriptionTopic
  taskCount : Nat
  taskLatest : List EventPayload
  otherBatch : List EventPayload
  isOpen : Bool
  /-- What was handed to the socket. -/
  sent : List WsServerMessage
  deriving Repr, DecidableEq

def TASK_LATEST_CAP : Nat := 5

/-- A session as it starts. -/
def openSession (tenantId : Uuid) : DashboardSession :=
  { tenantId, subscriptions := [.allTasks, .allWorkers, .alerts, .metricsSummary], taskCount := 0,
    taskLatest := [], otherBatch := [], isOpen := true, sent := [] }

inductive Input where
  /-- A text message, if it is a command; the socket may be gone when it is answered. -/
  | text (command : Option WsClientCommand) (gone : Bool)
  | binary
  | close
  | event (event : TenantEvent)
  | lagged (n : Nat)
  | noMoreEvents
  /-- The socket may be gone after some of the messages of a flush. -/
  | tick (gone : Option Nat)
  deriving Repr, DecidableEq

/-- `sender.send`; the session ends if the socket is gone. -/
def DashboardSession.send (s : DashboardSession) (message : WsServerMessage) (gone : Bool) :
    DashboardSession :=
  { s with sent := s.sent ++ [message], isOpen := !gone }

def onCommand (s : DashboardSession) (command : WsClientCommand) (gone : Bool) : DashboardSession :=
  match command with
  | .subscribe topics =>
    { s with subscriptions := s.subscriptions ++ topics }.send (.subscribed topics) gone
  | .unsubscribe topics =>
    { s with subscriptions := s.subscriptions.filter (· ∉ topics) }
  | .ping => s.send .pong gone

/-- The last five task updates. -/
def pushLatest (latest : List EventPayload) (payload : EventPayload) : List EventPayload :=
  (if latest.length ≥ TASK_LATEST_CAP then latest.drop 1 else latest) ++ [payload]

def onEvent (s : DashboardSession) (event : TenantEvent) : DashboardSession :=
  if event.tenantId = s.tenantId then
    if matchesAnySubscription event s.subscriptions then
      if event.payload.isTask then
        { s with taskCount := s.taskCount + 1, taskLatest := pushLatest s.taskLatest event.payload }
      else { s with otherBatch := s.otherBatch ++ [event.payload] }
    else s
  else s

/-- The messages of a flush, in order. -/
def flushed (s : DashboardSession) : List WsServerMessage :=
  s.otherBatch.map (fun payload => .event (.event payload)) ++
    if s.taskCount = 0 then [] else [.event (.taskBatchUpdate s.taskCount s.taskLatest)]

def onTick (s : DashboardSession) (gone : Option Nat) : DashboardSession :=
  match gone.filter (· < (flushed s).length) with
  | some n => { s with sent := s.sent ++ (flushed s).take (n + 1), isOpen := false }
  | none =>
    { s with sent := s.sent ++ flushed s, otherBatch := [], taskCount := 0, taskLatest := [] }

/-- One turn of the loop. -/
def sessionStep (s : DashboardSession) (input : Input) : DashboardSession :=
  if s.isOpen then
    match input with
    | .text (some command) gone => onCommand s command gone
    | .text none _ => s
    | .binary => s
    | .close => { s with isOpen := false }
    | .event event => onEvent s event
    | .lagged _ => s
    | .noMoreEvents => { s with isOpen := false }
    | .tick gone => onTick s gone
  else s

/-! ### Opening a session -/

/-- `str::trim_start_matches`: as often as it is there. -/
def trimStartMatches (lead : List Char) : Nat → List Char → List Char
  | 0, s => s
  | n + 1, s => if lead.isPrefixOf s then trimStartMatches lead n (s.drop lead.length) else s

/-- `extract_cookie_token`. -/
def extractCookieToken (headers : List String) : Option String :=
  let lead := "fp_access=".toList
  let parts := headers.flatMap fun h => (h.toList.splitOn ';').map trim
  (parts.find? fun s => lead.isPrefixOf s).map fun s =>
    String.ofList (trimStartMatches lead s.length s)

/-- `dashboard_ws`, for what verifies an access token: the session, or a refusal. -/
def dashboardWs (verifyAccessToken : String → Option Claims) (token : Option String)
    (headers : List String) : Option DashboardSession :=
  match token.orElse fun _ => extractCookieToken headers with
  | none => none
  | some token =>
    if token = "" then none
    else (verifyAccessToken token).map fun claims => openSession claims.tid

/-- A session is of the tenant of the token that opened it, and of nothing else in it. -/
theorem dashboardWs_eq_some {verifyAccessToken : String → Option Claims} {token : Option String}
    {headers : List String} {s : DashboardSession}
    (h : dashboardWs verifyAccessToken token headers = some s) :
    ∃ t claims, verifyAccessToken t = some claims ∧ s = openSession claims.tid := by
  unfold dashboardWs at h
  split at h
  · cases h
  · rename_i t _
    split at h
    · cases h
    · obtain ⟨claims, hclaims, rfl⟩ := Option.map_eq_some_iff.1 h
      exact ⟨t, claims, hclaims, rfl⟩

/-! ### What may be read -/

/-- The permission that the REST endpoints ask for to read such an event. -/
def EventPayload.permission : EventPayload → String
  | .taskUpdate .. => "tasks_read"
  | .workerUpdate .. => "workers_read"
  | .beatUpdate .. => "beat_read"
  | .alertFired .. => "alerts_read"
  | .alertResolved .. => "alerts_read"
  | .metricsSummary .. => "metrics_read"

def Payload.permission : Payload → String
  | .event payload => payload.permission
  | .taskBatchUpdate _ _ => "tasks_read"

/-- `impl From<Claims> for CurrentUser`. -/
def currentUser (claims : Claims) : CurrentUser :=
  { userId := claims.sub, tenantId := claims.tid, email := claims.email, roles := claims.roles,
    permissions := claims.permissions }

/-- The holder of the token may read such payloads over REST. -/
def MayRead (claims : Claims) (payload : Payload) : Prop :=
  checkPermission (currentUser claims) payload.permission = .ok ()

/-- An event of the tenant came in. -/
def Occurred (tenantId : Uuid) (inputs : List Input) (payload : EventPayload) : Prop :=
  ∃ event, .event event ∈ inputs ∧ event.tenantId = tenantId ∧ event.payload = payload

/-- The number of task updates of the tenant that came in. -/
def taskUpdates (tenantId : Uuid) (inputs : List Input) : Nat :=
  inputs.countP fun
    | .event event => event.tenantId == tenantId && event.payload.isTask
    | _ => false

/-- The payload tells of events of the tenant only. -/
def Payload.Belongs (tenantId : Uuid) (inputs : List Input) : Payload → Prop
  | .event payload => Occurred tenantId inputs payload
  | .taskBatchUpdate count latest =>
    count ≤ taskUpdates tenantId inputs ∧ ∀ payload ∈ latest, Occurred tenantId inputs payload

/-! ### Tenants -/

theorem Occurred.append {tenantId : Uuid} {inputs : List Input} {payload : EventPayload}
    (h : Occurred tenantId inputs payload) (rest : List Input) :
    Occurred tenantId (inputs ++ rest) payload := by
  obtain ⟨event, hevent, htenant, hpayload⟩ := h
  exact ⟨event, List.mem_append_left _ hevent, htenant, hpayload⟩

theorem taskUpdates_append (tenantId : Uuid) (inputs rest : List Input) :
    taskUpdates tenantId (inputs ++ rest) =
      taskUpdates tenantId inputs + taskUpdates tenantId rest := List.countP_append

theorem Payload.Belongs.append {tenantId : Uuid} {inputs : List Input} {payload : Payload}
    (h : payload.Belongs tenantId inputs) (rest : List Input) :
    payload.Belongs tenantId (inputs ++ rest) := by
  cases payload with
  | event payload => exact Occurred.append h rest
  | taskBatchUpdate count latest =>
      rw [Belongs, taskUpdates_append]
      exact ⟨Nat.le_add_right_of_le h.1, fun payload hp => (h.2 payload hp).append rest⟩

/-- What a session holds and has sent tells of events of its tenant. -/
structure Own (tenantId : Uuid) (inputs : List Input) (s : DashboardSession) : Prop where
  tenant : s.tenantId = tenantId
  counted : s.taskCount ≤ taskUpdates tenantId inputs
  latest : ∀ payload ∈ s.taskLatest, Occurred tenantId inputs payload
  others : ∀ payload ∈ s.otherBatch, Occurred tenantId inputs payload
  sent : ∀ payload, .event payload ∈ s.sent → payload.Belongs tenantId inputs

theorem Own.append {tenantId : Uuid} {inputs : List Input} {s : DashboardSession}
    (h : Own tenantId inputs s) (rest : List Input) : Own tenantId (inputs ++ rest) s where
  tenant := h.tenant
  counted := by
    rw [taskUpdates_append]
    exact Nat.le_add_right_of_le h.counted
  latest := fun payload hp => (h.latest payload hp).append rest
  others := fun payload hp => (h.others payload hp).append rest
  sent := fun payload hp => (h.sent payload hp).append rest

theorem mem_pushLatest {latest : List EventPayload} {payload p : EventPayload}
    (h : p ∈ pushLatest latest payload) : p ∈ latest ∨ p = payload := by
  unfold pushLatest at h
  rcases List.mem_append.1 h with h | h
  · split at h
    · exact .inl (List.mem_of_mem_drop h)
    · exact .inl h
  · exact .inr (List.mem_singleton.1 h)

/-- What a flush sends is what the session holds. -/
theorem Own.flushed {tenantId : Uuid} {inputs : List Input} {s : DashboardSession}
    (h : Own tenantId inputs s) {payload : Payload} (hp : .event payload ∈ flushed s) :
    payload.Belongs tenantId inputs := by
  unfold Ws.flushed at hp
  rcases List.mem_append.1 hp with hp | hp
  · obtain ⟨p, hmem, hpayload⟩ := List.mem_map.1 hp
    cases hpayload
    exact h.others p hmem
  · split at hp
    · cases hp
    · cases List.mem_singleton.1 hp
      exact ⟨h.counted, h.latest⟩

theorem own_event {tenantId : Uuid} {inputs : List Input} {s : DashboardSession}
    (h : Own tenantId inputs s) (event : TenantEvent) :
    Own tenantId (inputs ++ [.event event]) (onEvent s event) := by
  have hold := h.append [.event event]
  unfold onEvent
  split
  · rename_i htenant
    have hoccurred : Occurred tenantId (inputs ++ [.event event]) event.payload :=
      ⟨event, List.mem_append_right _ List.mem_cons_self, htenant.trans h.tenant, rfl⟩
    split
    · split
      · rename_i htask
        refine { hold with counted := ?_, latest := fun p hp => ?_ }
        · have hone : taskUpdates tenantId [.event event] = 1 := by
            simp [taskUpdates, htenant.trans h.tenant, htask]
          rw [taskUpdates_append, hone]
          exact Nat.add_le_add_right h.counted 1
        · rcases mem_pushLatest hp with hp | rfl
          · exact hold.latest p hp
          · exact hoccurred
      · refine { hold with others := fun p hp => ?_ }
        rcases List.mem_append.1 hp with hp | hp
        · exact hold.others p hp
        · rw [List.mem_singleton.1 hp]
          exact hoccurred
    · exact hold
  · exact hold

theorem own_send {tenantId : Uuid} {inputs : List Input} {s : DashboardSession}
    (h : Own tenantId inputs s) {message : WsServerMessage} (hm : ∀ payload, message ≠ .event payload)
    (gone : Bool) : Own tenantId inputs (s.send message gone) := by
  refine { h with sent := fun payload hp => ?_ }
  rcases List.mem_append.1 hp with hp | hp
  · exact h.sent payload hp
  · exact absurd (List.mem_singleton.1 hp).symm (hm payload)

theorem own_tick {tenantId : Uuid} {inputs : List Input} {s : DashboardSession}
    (h : Own tenantId inputs s) (gone : Option Nat) : Own tenantId inputs (onTick s gone) := by
  unfold onTick
  split
  · refine { h with sent := fun payload hp => ?_ }
    rcases List.mem_append.1 hp with hp | hp
    · exact h.sent payload hp
    · exact h.flushed (List.mem_of_mem_take hp)
  · refine { h with counted := Nat.zero_le _, latest := nofun, others := nofun, sent := ?_ }
    intro payload hp
    rcases List.mem_append.1 hp with hp | hp
    · exact h.sent payload hp
    · exact h.flushed hp

theorem own_step {tenantId : Uuid} {inputs : List Input} {s : DashboardSession}
    (h : Own tenantId inputs s) (input : Input) :
    Own tenantId (inputs ++ [input]) (sessionStep s input) := by
  have hold := h.append [input]
  unfold sessionStep
  split
  · cases input with
    | text command gone =>
        cases command with
        | none => exact hold
        | some command =>
            cases command with
            | subscribe topics =>
                have hmore : Own tenantId _ { s with subscriptions := s.subscriptions ++ topics } :=
                  { hold with }
                exact own_send hmore (fun _ h => by cases h) gone
            | unsubscribe topics => exact { hold with }
            | ping => exact own_send hold (fun _ h => by cases h) gone
    | binary => exact hold
    | close => exact { hold with }
    | event event => exact own_event h event
    | lagged n => exact hold
    | noMoreEvents => exact { hold with }
    | tick gone => exact own_tick hold gone
  · exact hold

/-- **A session is of one tenant**: by induction on the inputs, what it sends tells of events of
that tenant only. -/
theorem own_run {tenantId : Uuid} {s : DashboardSession} {seen : List Input}
    (h : Own tenantId seen s) (inputs : List Input) :
    Own tenantId (seen ++ inputs) (run sessionStep s inputs) := by
  induction inputs generalizing s seen with
  | nil =>
      rw [List.append_nil]
      exact h
  | cons input rest ih =>
      have hrest := ih (own_step h input)
      rwa [List.append_assoc, List.singleton_append] at hrest

theorem own_openSession (tenantId : Uuid) : Own tenantId [] (openSession tenantId) :=
  ⟨rfl, Nat.zero_le _, nofun, nofun, nofun⟩

/-! ### Permissions -/

/-- The permissions to read events of each kind. -/
def READ_PERMISSIONS : List String :=
  ["tasks_read", "workers_read", "beat_read", "alerts_read", "metrics_read"]

theorem permission_mem (payload : Payload) : payload.permission ∈ READ_PERMISSIONS := by
  cases payload with
  | event payload => cases payload <;> simp [Payload.permission, EventPayload.permission, READ_PERMISSIONS]
  | taskBatchUpdate count latest => simp [Payload.permission, READ_PERMISSIONS]

/-- An event that the session's topics ask for goes out with the next flush. -/
theorem event_sent {s : DashboardSession} {payload : EventPayload} (hopen : s.isOpen = true)
    (hasked : matchesAnySubscription ⟨s.tenantId, payload⟩ s.subscriptions = true) :
    ∃ sent, .event sent ∈ (run sessionStep s [.event ⟨s.tenantId, payload⟩, .tick none]).sent ∧
      sent.permission = payload.permission := by
  have hevent : sessionStep s (.event ⟨s.tenantId, payload⟩) = onEvent s ⟨s.tenantId, payload⟩ := by
    simp [sessionStep, hopen]
  have hflush : ∀ s' : DashboardSession, s'.isOpen = true →
      (sessionStep s' (.tick none)).sent = s'.sent ++ flushed s' := by
    intro s' hopen'
    simp [sessionStep, hopen', onTick]
  simp only [run_cons, run_nil, hevent]
  by_cases htask : payload.isTask = true
  · refine ⟨.taskBatchUpdate (s.taskCount + 1) (pushLatest s.taskLatest payload), ?_, ?_⟩
    · simp only [onEvent, if_true, hasked, htask]
      rw [hflush]
      · exact List.mem_append_right _ (List.mem_append_right _ List.mem_cons_self)
      · exact hopen
    · cases payload with
      | taskUpdate => rfl
      | _ => cases htask
  · refine ⟨.event payload, ?_, rfl⟩
    simp only [onEvent, if_true, hasked, htask, Bool.false_eq_true, if_false]
    rw [hflush]
    · refine List.mem_append_right _ (List.mem_append_left _ (List.mem_map.2 ⟨payload, ?_, rfl⟩))
      exact List.mem_append_right _ List.mem_cons_self
    · exact hopen

/-- For each of the permissions, a session can send a payload that asks for it. -/
theorem exists_sent (tenantId : Uuid) {permission : String} (h : permission ∈ READ_PERMISSIONS) :
    ∃ inputs payload, .event payload ∈ (run sessionStep (openSession tenantId) inputs).sent ∧
      payload.permission = permission := by
  have hdefault : ∀ payload : EventPayload,
      matchesAnySubscription ⟨tenantId, payload⟩ (openSession tenantId).subscriptions = true →
      ∃ inputs sent, .event sent ∈ (run sessionStep (openSession tenantId) inputs).sent ∧
        sent.permission = payload.permission := by
    intro payload hasked
    have hopen : (openSession tenantId).isOpen = true := rfl
    obtain ⟨sent, hsent, hpermission⟩ := event_sent hopen hasked
    exact ⟨_, sent, hsent, hpermission⟩
  simp only [READ_PERMISSIONS, List.mem_cons, List.not_mem_nil, or_false] at h
  rcases h with rfl | rfl | rfl | rfl | rfl
  · exact hdefault (.taskUpdate "" "" "" "" "" none .zero) rfl
  · exact hdefault (.workerUpdate "" "" "" 0 .zero .zero) rfl
  · -- the client asks for it
    let s := sessionStep (openSession tenantId) (.text (some (.subscribe [.beat])) false)
    have hopen : s.isOpen = true := rfl
    have hasked : matchesAnySubscription ⟨s.tenantId, .beatUpdate "" "" none none⟩
        s.subscriptions = true := rfl
    obtain ⟨sent, hsent, hpermission⟩ := event_sent hopen hasked
    exact ⟨[.text (some (.subscribe [.beat])) false,
      .event ⟨tenantId, .beatUpdate "" "" none none⟩, .tick none], sent, hsent, hpermission⟩
  · exact hdefault (.alertResolved 0 "" "") rfl
  · exact hdefault (.metricsSummary .zero .zero 0 0) rfl

/-- **Live events.** Whatever the token, every payload sent tells of events of its tenant; every
one that a session can send is of a kind that the token may read over REST exactly if the token
may read all of them. -/
theorem live_permitted_iff (claims : Claims) :
    (∀ inputs payload,
        .event payload ∈ (run sessionStep (openSession claims.tid) inputs).sent →
          payload.Belongs claims.tid inputs ∧ MayRead claims payload) ↔
      ∀ permission ∈ READ_PERMISSIONS,
        checkPermission (currentUser claims) permission = .ok () := by
  constructor
  · intro hall permission hpermission
    obtain ⟨inputs, payload, hsent, rfl⟩ := exists_sent claims.tid hpermission
    exact (hall inputs payload hsent).2
  · intro hall inputs payload hsent
    have hown : Own claims.tid ([] ++ inputs) (run sessionStep (openSession claims.tid) inputs) :=
      own_run (own_openSession claims.tid) inputs
    exact ⟨hown.sent payload hsent, hall _ (permission_mem payload)⟩

/-- The token of a member with the `readonly` role. -/
def sampleReadonly : Claims :=
  { sub := 3, tid := 7, email := "eve@acme.io", roles := ["readonly"],
    permissions := ["tasks_read", "workers_read"], iat := 100, exp := 1000 }

/-- It gets the alerts. -/
theorem readonly_gets_alerts :
    let fired : EventPayload := .alertFired 9 "High failure rate" "critical" "Failure rate > 50%"
    .event (.event fired) ∈ (run sessionStep (openSession sampleReadonly.tid)
        [.event ⟨7, fired⟩, .tick none]).sent ∧
      ¬ MayRead sampleReadonly (.event fired) := by
  intro fired
  refine ⟨by decide, ?_⟩
  rintro h
  cases h

end Feloxi.Ws
