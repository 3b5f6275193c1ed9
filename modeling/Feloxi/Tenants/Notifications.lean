import Feloxi.Alerting.Dispatch
import Feloxi.Auth.Rbac
import Feloxi.Lib.Handlers
import Feloxi.Lib.JsonValues
import Mathlib.Order.CompleteBooleanAlgebra
import Mathlib.Order.CompletePartialOrder

/-!
# Feloxi.Tenants.Notifications

The notification settings of a tenant (`get_notifications`, `update_notifications` and
`test_notification` in `routes/tenants.rs`), in the `settings` column. `SmtpSettings` is written
with `skip_serializing` on its password, for the answers; the column is written the same way.
-/

namespace Feloxi.Tenants

open Alerting (structField structShape)
open Auth (CurrentUser checkPermission)
open Handlers

/-! ### Settings -/

structure SmtpSettings where
  host : String
  port : UInt16
  username : String
  password : String
  fromAddress : String
  tls : Bool
  hasPassword : Bool
  deriving Repr, DecidableEq

structure WebhookDefaults where
  timeoutSeconds : UInt32
  retryCount : UInt32
  deriving Repr, DecidableEq

structure NotificationSettings where
  smtp : SmtpSettings
  webhookDefaults : WebhookDefaults
  deriving Repr, DecidableEq

/-- The derived `Default`, not the defaults of missing fields. -/
def SmtpSettings.default : SmtpSettings :=
  { host := "", port := 0, username := "", password := "", fromAddress := "", tls := false,
    hasPassword := false }

def WebhookDefaults.default : WebhookDefaults := { timeoutSeconds := 10, retryCount := 1 }

def NotificationSettings.default : NotificationSettings :=
  { smtp := .default, webhookDefaults := .default }

/-- A field with `#[serde(default)]`. -/
def field {α : Type} (position : Nat) (name : String) (read : Json → Option α) (missing : α)
    (value : Json) : Option α :=
  match structField position name value with
  | none => some missing
  | some v => read v

def asU16 : Json → Option UInt16
  | .int n => if 0 ≤ n ∧ n < 2 ^ 16 then some (UInt16.ofNat n.toNat) else none
  | _ => none

def asU32 : Json → Option UInt32
  | .int n => if 0 ≤ n ∧ n < 2 ^ 32 then some (UInt32.ofNat n.toNat) else none
  | _ => none

/-- `has_password` is never read. -/
def SmtpSettings.ofJson (value : Json) : Option SmtpSettings :=
  if structShape 6 value then do
    let host ← field 0 "host" Json.asStr "" value
    let port ← field 1 "port" asU16 587 value
    let username ← field 2 "username" Json.asStr "" value
    let password ← field 3 "password" Json.asStr "" value
    let fromAddress ← field 4 "from_address" Json.asStr "" value
    let tls ← field 5 "tls" Json.asBool true value
    some { host, port, username, password, fromAddress, tls, hasPassword := false }
  else none

def WebhookDefaults.ofJson (value : Json) : Option WebhookDefaults :=
  if structShape 2 value then do
    let timeoutSeconds ← field 0 "timeout_seconds" asU32 10 value
    let retryCount ← field 1 "retry_count" asU32 1 value
    some { timeoutSeconds, retryCount }
  else none

def NotificationSettings.ofJson (value : Json) : Option NotificationSettings :=
  if structShape 2 value then do
    let smtp ← field 0 "smtp" SmtpSettings.ofJson .default value
    let webhookDefaults ← field 1 "webhook_defaults" WebhookDefaults.ofJson .default value
    some { smtp, webhookDefaults }
  else none

/-- `password` is never written. -/
def SmtpSettings.entries (s : SmtpSettings) : List (String × Json) :=
  [("host", .str s.host), ("port", .int s.port.toNat), ("username", .str s.username),
   ("from_address", .str s.fromAddress), ("tls", .bool s.tls),
   ("has_password", .bool s.hasPassword)]

def SmtpSettings.toJson (s : SmtpSettings) : Json := .ofEntries s.entries

def WebhookDefaults.toJson (d : WebhookDefaults) : Json :=
  .ofEntries
    [("timeout_seconds", .int d.timeoutSeconds.toNat), ("retry_count", .int d.retryCount.toNat)]

def NotificationSettings.toJson (s : NotificationSettings) : Json :=
  .ofEntries [("smtp", s.smtp.toJson), ("webhook_defaults", s.webhookDefaults.toJson)]

/-- What is read of the column. -/
def notificationsOf (settings : Json) : NotificationSettings :=
  ((settings.get "notifications").bind NotificationSettings.ofJson).getD .default

/-- `current_settings["notifications"] = value`; it panics on what is neither `null` nor an
object. -/
def setNotifications (settings value : Json) : Option Json :=
  match settings with
  | .null => some (.ofEntries [("notifications", value)])
  | .obj entries => some (.obj (Json.insertEntry "notifications" value entries))
  | _ => none

/-! ### Reading what was written -/

theorem field_ofEntries {α : Type} {entries : List (String × Json)}
    (hkeys : (entries.map Prod.fst).Nodup) (position : Nat) (read : Json → Option α) (missing : α)
    {name : String} {v : Json} (hmem : (name, v) ∈ entries) :
    field position name read missing (.ofEntries entries) = read v := by
  have hget : structField position name (.ofEntries entries) = some v :=
    Json.get_ofEntries_of_mem hkeys hmem
  rw [field, hget]

theorem field_ofEntries_missing {α : Type} {entries : List (String × Json)} {name : String}
    (hname : ∀ e ∈ entries, e.1 ≠ name) (position : Nat) (read : Json → Option α) (missing : α) :
    field position name read missing (.ofEntries entries) = some missing := by
  have hget : structField position name (.ofEntries entries) = none :=
    Json.get_ofEntries_of_not_mem hname
  rw [field, hget]

theorem asU16_toNat (n : UInt16) : asU16 (.int n.toNat) = some n := by
  have hlt : n.toNat < 2 ^ 16 := n.toNat_lt
  simp only [asU16]
  rw [if_pos ⟨by omega, by omega⟩]
  simp

theorem asU32_toNat (n : UInt32) : asU32 (.int n.toNat) = some n := by
  have hlt : n.toNat < 2 ^ 32 := n.toNat_lt
  simp only [asU32]
  rw [if_pos ⟨by omega, by omega⟩]
  simp

/-- **The password does not come back.** -/
theorem SmtpSettings.ofJson_toJson (s : SmtpSettings) :
    SmtpSettings.ofJson s.toJson = some { s with password := "", hasPassword := false } := by
  have hkeys : (s.entries.map Prod.fst).Nodup := by simp [entries]
  have hpassword : ∀ e ∈ s.entries, e.1 ≠ "password" := by simp [entries]
  have hshape : structShape 6 s.toJson = true := rfl
  rw [ofJson, if_pos hshape, toJson, field_ofEntries hkeys 0 _ _ (by simp [entries]; rfl),
    field_ofEntries hkeys 1 _ _ (v := .int s.port.toNat) (by simp [entries]),
    field_ofEntries hkeys 2 _ _ (v := .str s.username) (by simp [entries]),
    field_ofEntries_missing hpassword,
    field_ofEntries hkeys 4 _ _ (v := .str s.fromAddress) (by simp [entries]),
    field_ofEntries hkeys 5 _ _ (v := .bool s.tls) (by simp [entries]), asU16_toNat]
  rfl

theorem WebhookDefaults.ofJson_toJson (d : WebhookDefaults) :
    WebhookDefaults.ofJson d.toJson = some d := by
  have hkeys : ([("timeout_seconds", Json.int d.timeoutSeconds.toNat),
      ("retry_count", Json.int d.retryCount.toNat)].map Prod.fst).Nodup := by
    simp
  have hshape : structShape 2 d.toJson = true := rfl
  rw [ofJson, if_pos hshape, toJson, field_ofEntries hkeys 0 _ _ List.mem_cons_self,
    field_ofEntries hkeys 1 _ _ (List.mem_cons_of_mem _ List.mem_cons_self), asU32_toNat,
    asU32_toNat]
  rfl

theorem NotificationSettings.ofJson_toJson (s : NotificationSettings) :
    NotificationSettings.ofJson s.toJson =
      some { s with smtp := { s.smtp with password := "", hasPassword := false } } := by
  have hkeys : ([("smtp", s.smtp.toJson),
      ("webhook_defaults", s.webhookDefaults.toJson)].map Prod.fst).Nodup := by
    simp
  have hshape : structShape 2 s.toJson = true := rfl
  rw [ofJson, if_pos hshape, toJson, field_ofEntries hkeys 0 _ _ List.mem_cons_self,
    field_ofEntries hkeys 1 _ _ (List.mem_cons_of_mem _ List.mem_cons_self),
    SmtpSettings.ofJson_toJson, WebhookDefaults.ofJson_toJson]
  rfl

theorem notificationsOf_set {settings value settings' : Json}
    (h : setNotifications settings value = some settings') :
    notificationsOf settings' = (NotificationSettings.ofJson value).getD .default := by
  have hget : settings'.get "notifications" = some value := by
    unfold setNotifications at h
    split at h
    · cases h
      exact Json.get_ofEntries [] "notifications" value (by simp)
    · cases h
      simp [Json.get, Json.find?_insertEntry_self]
    · cases h
  rw [notificationsOf, hget]
  rfl

/-! ### Requests -/

/-- `SmtpConfig`, what an e-mail is sent with. -/
structure SmtpConfig where
  host : String
  port : UInt16
  username : String
  password : String
  fromAddress : String
  tls : Bool
  deriving Repr, DecidableEq

/-- `tenant_smtp_config`. -/
def tenantSmtpConfig (tenant : Alerting.Tenant) : SmtpConfig :=
  let smtp := (notificationsOf tenant.settings).smtp
  { host := smtp.host, port := smtp.port, username := smtp.username, password := smtp.password,
    fromAddress := smtp.fromAddress, tls := smtp.tls }

structure SettingsDb where
  tenants : List Alerting.Tenant

inductive SettingsOp where
  | getTenantById (id : Uuid)
  | updateTenantSettings (id : Uuid) (settings : Json)

abbrev SettingsOp.Reply (_ : SettingsOp) : Type := Option Alerting.Tenant

def SettingsDb.active (s : SettingsDb) (id : Uuid) : Option Alerting.Tenant :=
  s.tenants.find? fun t => t.id == id && t.isActive

def SettingsDb.exec : (op : SettingsOp) → Unit → SettingsDb → SettingsDb × op.Reply
  | .getTenantById id, _, s => (s, s.active id)
  | .updateTenantSettings id settings, _, s =>
    ({ tenants := s.tenants.map fun t =>
        if t.id == id && t.isActive then { t with settings } else t },
      (s.active id).map fun t => { t with settings })

inductive SettingsAnswer where
  | settings (s : NotificationSettings)
  | sent
  | refused (e : AppError)
  /-- The handler panicked. -/
  | aborted
  deriving Repr, DecidableEq

abbrev SettingsHandler := Handler SettingsOp SettingsOp.Reply SettingsAnswer

def permittedSettings (user : CurrentUser) (permission : String) (handler : SettingsHandler) :
    SettingsHandler :=
  match checkPermission user permission with
  | .error e => .answer (.refused e)
  | .ok () => handler

/-- A statement that returns the row of a tenant. -/
def tenantCall (databaseError : String) (op : SettingsOp)
    (next : Alerting.Tenant → SettingsHandler) : SettingsHandler :=
  .call op
    (fun
      | none => .answer (.refused (.notFound "Resource not found"))
      | some tenant => next tenant)
    (.answer (.refused (.database databaseError)))

/-- What is answered of the settings. -/
def NotificationSettings.masked (s : NotificationSettings) : NotificationSettings :=
  { s with smtp := { s.smtp with hasPassword := !s.smtp.password.isEmpty, password := "" } }

/-- `get_notifications`. -/
def getNotifications (databaseError : String) (user : CurrentUser) : SettingsHandler :=
  permittedSettings user "settings_read" <|
    tenantCall databaseError (.getTenantById user.tenantId) fun tenant =>
      .answer (.settings (notificationsOf tenant.settings).masked)

/-- A blank password stands for the one that is there. -/
def NotificationSettings.keepPassword (input existing : NotificationSettings) :
    NotificationSettings :=
  if input.smtp.password.isEmpty then
    { input with smtp := { input.smtp with password := existing.smtp.password } }
  else input

/-- `update_notifications`. -/
def updateNotifications (databaseError : String) (user : CurrentUser)
    (input : NotificationSettings) : SettingsHandler :=
  permittedSettings user "settings_write" <|
    tenantCall databaseError (.getTenantById user.tenantId) fun tenant =>
      let toStore := input.keepPassword (notificationsOf tenant.settings)
      match setNotifications tenant.settings toStore.toJson with
      | none => .answer .aborted
      | some settings =>
        tenantCall databaseError (.updateTenantSettings user.tenantId settings) fun _ =>
          .answer (.settings toStore.masked)

/-- `test_notification`; `send` is whether the e-mail went out, and the error. -/
def testNotification (databaseError : String) (user : CurrentUser) (channel : String)
    (recipient : Option String) (send : SmtpConfig → String → Bool × Option String) :
    SettingsHandler :=
  permittedSettings user "settings_write" <|
    tenantCall databaseError (.getTenantById user.tenantId) fun tenant =>
      let smtp := tenantSmtpConfig tenant
      .answer <|
        if channel = "email" then
          if smtp.host.isEmpty then
            .refused (.validation "SMTP is not configured. Save your SMTP settings first.")
          else
            let result := send smtp (recipient.getD smtp.fromAddress)
            if result.1 then .sent else .refused (.internal (result.2.getD "Unknown error"))
        else .refused (.validation ("Unsupported test channel: " ++ channel))

inductive SettingsRequest where
  | getNotifications (user : CurrentUser)
  | updateNotifications (user : CurrentUser) (input : NotificationSettings)
  | testNotification (user : CurrentUser) (channel : String) (recipient : Option String)
      (send : SmtpConfig → String → Bool × Option String)

/-- Whether the request brings a password. -/
def SettingsRequest.brings : SettingsRequest → Bool
  | .updateNotifications _ input => !input.smtp.password.isEmpty
  | _ => false

/-- What happens to tenants apart from the requests; `settings` starts as `{}`. -/
inductive TenantChange where
  | created (id : Uuid) (name slug : String) (createdAt : Alerting.Instant)
  | retired (id : Uuid)

def SettingsDb.change (s : SettingsDb) : TenantChange → SettingsDb
  | .created id name slug createdAt =>
    { tenants := s.tenants ++
        [{ id, name, slug, settings := .obj [], isActive := true, createdAt }] }
  | .retired id =>
    { tenants := s.tenants.map fun t => if t.id = id then { t with isActive := false } else t }

def settingsServer (databaseError : String) :
    Machine SettingsOp SettingsOp.Reply SettingsAnswer SettingsRequest SettingsDb Unit
      TenantChange where
  exec := SettingsDb.exec
  program
    | .getNotifications user => Tenants.getNotifications databaseError user
    | .updateNotifications user input => Tenants.updateNotifications databaseError user input
    | .testNotification user channel recipient send =>
      Tenants.testNotification databaseError user channel recipient send
  world w s := s.change w

/-! ### The password -/

/-- Settings without a password. -/
def Unset (settings : Json) : Prop := (notificationsOf settings).smtp.password = ""

/-- No tenant has a password. -/
def SettingsDb.Unset (s : SettingsDb) : Prop := ∀ t ∈ s.tenants, Tenants.Unset t.settings

theorem unset_of_set {settings settings' : Json} {s : NotificationSettings}
    (h : setNotifications settings s.toJson = some settings') : Unset settings' := by
  rw [Unset, notificationsOf_set h, NotificationSettings.ofJson_toJson]
  rfl

theorem unset_empty : Unset (.obj []) := rfl

/-- Where no password is kept, one that is answered for is the one that the request brought. -/
def passwordContract (request : SettingsRequest) :
    Contract Unit SettingsOp SettingsOp.Reply SettingsAnswer where
  pre
    | _, .updateTenantSettings _ settings => Unset settings
    | _, .getTenantById _ => True
  post _ _ reply := ∀ t, reply = some t → Unset t.settings
  ans _ a := ∀ s, a = .settings s →
    s.smtp.password = "" ∧ s.smtp.hasPassword = request.brings

theorem passwordContract_stable (request : SettingsRequest) :
    (passwordContract request).Stable where
  pre := fun _ h => h
  ans := fun _ h => h

theorem keeps_permittedSettings {request : SettingsRequest} {user : CurrentUser}
    {permission : String} {handler : SettingsHandler}
    (h : Keeps (passwordContract request) () handler) :
    Keeps (passwordContract request) () (permittedSettings user permission handler) := by
  unfold permittedSettings
  split
  · exact nofun
  · exact h

theorem keeps_tenantCall {request : SettingsRequest} {databaseError : String} {op : SettingsOp}
    {next : Alerting.Tenant → SettingsHandler} (hpre : (passwordContract request).pre () op)
    (hnext : ∀ t, Unset t.settings → Keeps (passwordContract request) () (next t)) :
    Keeps (passwordContract request) () (tenantCall databaseError op next) := by
  -- a call that fails is refused, and a refusal says nothing of settings
  refine ⟨hpre, fun _ reply _ hreply => ?_, fun _ _ => nofun⟩
  cases reply with
  | none => exact nofun
  | some t => exact hnext t (hreply t rfl)

theorem keeps_settings (databaseError : String) (request : SettingsRequest) :
    Keeps (passwordContract request) () ((settingsServer databaseError).program request) := by
  cases request with
  | getNotifications user =>
      refine keeps_permittedSettings (keeps_tenantCall trivial fun t ht => ?_)
      rintro s ⟨⟩
      refine ⟨rfl, ?_⟩
      rw [NotificationSettings.masked, show (notificationsOf t.settings).smtp.password = "" from ht]
      rfl
  | updateNotifications user input =>
      refine keeps_permittedSettings (keeps_tenantCall trivial fun t ht => ?_)
      dsimp only
      split
      · exact nofun
      · rename_i settings hset
        refine keeps_tenantCall (unset_of_set hset) fun _ _ => ?_
        rintro s ⟨⟩
        refine ⟨rfl, ?_⟩
        -- what is kept is blank, so the password is the one of the input either way
        have hkept : (input.keepPassword (notificationsOf t.settings)).smtp.password =
            input.smtp.password := by
          unfold NotificationSettings.keepPassword
          split
          · rename_i hblank
            exact Eq.trans ht (String.isEmpty_iff.1 hblank).symm
          · rfl
        rw [NotificationSettings.masked, hkept]
        rfl
  | testNotification user channel recipient send =>
      refine keeps_permittedSettings (keeps_tenantCall trivial fun t _ => ?_)
      intro s hs
      dsimp only at hs
      split at hs
      · split at hs
        · cases hs
        · split at hs <;> cases hs
      · cases hs

theorem active_unset {s : SettingsDb} (h : s.Unset) {id : Uuid} {t : Alerting.Tenant}
    (ht : s.active id = some t) : Unset t.settings :=
  h t (List.mem_of_find?_eq_some ht)

/-- What handlers are told is so, and what they write keeps it so. -/
theorem honest_settings (request : SettingsRequest) {s : SettingsDb} (h : s.Unset) :
    Honest (passwordContract request) SettingsDb.exec (fun _ => ()) s := by
  intro op _ hpre
  refine ⟨le_rfl, fun t ht => ?_⟩
  cases op with
  | getTenantById id => exact active_unset h ht
  | updateTenantSettings id settings =>
      obtain ⟨old, -, rfl⟩ := Option.map_eq_some_iff.1 ht
      exact hpre

theorem unset_exec (request : SettingsRequest) {s : SettingsDb} (h : s.Unset) {op : SettingsOp}
    (hpre : (passwordContract request).pre () op) : (SettingsDb.exec op () s).1.Unset := by
  cases op with
  | getTenantById id => exact h
  | updateTenantSettings id settings =>
      intro t ht
      obtain ⟨old, hold, rfl⟩ := List.mem_map.1 ht
      split
      · exact hpre
      · exact h old hold

theorem unset_change {s : SettingsDb} (h : s.Unset) (w : TenantChange) : (s.change w).Unset := by
  intro t ht
  cases w with
  | created id name slug createdAt =>
      rcases List.mem_append.1 ht with ht | ht
      · exact h t ht
      · obtain rfl := List.mem_singleton.1 ht
        exact unset_empty
  | retired id =>
      obtain ⟨old, hold, rfl⟩ := List.mem_map.1 ht
      split
      · exact h old hold
      · exact h old hold

/-- The server after some inputs, from before there was a tenant. -/
def settingsAfter (databaseError : String)
    (inputs : List (Action Unit SettingsRequest TenantChange)) :
    Pool SettingsOp SettingsOp.Reply SettingsAnswer SettingsRequest SettingsDb :=
  Runs.run (settingsServer databaseError).step { state := ⟨[]⟩, threads := [], log := [] } inputs

theorem underContract_settingsAfter (databaseError : String)
    (inputs : List (Action Unit SettingsRequest TenantChange)) :
    (settingsAfter databaseError inputs).UnderContract passwordContract (fun _ => ())
      SettingsDb.Unset :=
  Runs.run_invariant (Pool.UnderContract passwordContract (fun _ => ()) SettingsDb.Unset)
    (fun _ _ hp => Machine.underContract_step _ passwordContract_stable
      (fun r _ hs => honest_settings r hs) (fun r _ _ _ hs hpre => unset_exec r hs hpre)
      (fun w _ hs => ⟨unset_change hs w, le_rfl⟩) (fun r _ => keeps_settings databaseError r) hp)
    ⟨fun _ ht => absurd ht List.not_mem_nil, fun _ ht => absurd ht List.not_mem_nil⟩ inputs

/-- **The SMTP password is never kept.** After any run of requests no e-mail of a tenant is sent
with a password, and none is answered; yet an update that brings one is answered as if it were
there, and a read is not. -/
theorem password_of_run (databaseError : String)
    (inputs : List (Action Unit SettingsRequest TenantChange)) :
    (∀ t ∈ (settingsAfter databaseError inputs).state.tenants, (tenantSmtpConfig t).password = "") ∧
      ∀ t ∈ (settingsAfter databaseError inputs).threads, ∀ s, t.program = .answer (.settings s) →
        s.smtp.password = "" ∧ s.smtp.hasPassword = t.request.brings := by
  have hp := underContract_settingsAfter databaseError inputs
  refine ⟨hp.state, fun t ht s hs => ?_⟩
  have hkeeps := hp.threads t ht
  rw [hs] at hkeeps
  exact hkeeps s rfl

end Feloxi.Tenants
