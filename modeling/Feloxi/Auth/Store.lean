import Feloxi.Common
import Feloxi.Lib.Handlers
import Feloxi.Lib.Tables
import Feloxi.Lib.Text
import Feloxi.Lib.Uuid

/-!
# Feloxi.Auth.Store

The tables behind accounts and sessions (`crates/db/src/postgres/`: `tenants.rs`, `users.rs`,
`rbac.rs`, `refresh_tokens.rs`, `magic_links.rs`, `user_invites.rs`), each statement as one
operation on them, with the constraints of the migrations.
-/

namespace Feloxi.Auth

open Tables (Table storeText storeVarchar)

/-- A point on the clock, in seconds. -/
abbrev Instant := Nat

/-! ### Rows -/

structure Tenant where
  id : Uuid
  name : String
  slug : String
  isActive : Bool
  deriving Repr, DecidableEq

structure User where
  id : Uuid
  tenantId : Uuid
  email : String
  passwordHash : String
  displayName : Option String
  isActive : Bool
  deriving Repr, DecidableEq

structure Role where
  id : Uuid
  tenantId : Uuid
  name : String
  permissions : List String
  isSystem : Bool
  deriving Repr, DecidableEq

structure RefreshToken where
  id : Uuid
  userId : Uuid
  tenantId : Uuid
  tokenHash : String
  expiresAt : Instant
  revokedAt : Option Instant
  deriving Repr, DecidableEq

structure MagicLinkToken where
  id : Uuid
  email : String
  tokenHash : String
  expiresAt : Instant
  consumedAt : Option Instant
  deriving Repr, DecidableEq

structure UserInvite where
  id : Uuid
  tenantId : Uuid
  email : String
  roleName : String
  tokenHash : String
  invitedBy : Option Uuid
  expiresAt : Instant
  acceptedAt : Option Instant
  deriving Repr, DecidableEq

structure CreateUser where
  tenantId : Uuid
  email : String
  passwordHash : String
  displayName : Option String
  deriving Repr, DecidableEq

structure CreateUserInvite where
  tenantId : Uuid
  email : String
  roleName : String
  tokenHash : String
  invitedBy : Option Uuid
  expiresAt : Instant
  deriving Repr, DecidableEq

/-! ### Unique constraints -/

def sameTenant (a b : Tenant) : Bool := a.id == b.id || a.slug == b.slug

def sameUser (a b : User) : Bool := a.id == b.id || (a.tenantId == b.tenantId && a.email == b.email)

def sameRole (a b : Role) : Bool := a.id == b.id || (a.tenantId == b.tenantId && a.name == b.name)

def sameToken (a b : RefreshToken) : Bool := a.id == b.id || a.tokenHash == b.tokenHash

def sameLink (a b : MagicLinkToken) : Bool := a.id == b.id || a.tokenHash == b.tokenHash

/-- At most one invite of an address to a tenant is pending. -/
def sameInvite (a b : UserInvite) : Bool :=
  a.id == b.id || a.tokenHash == b.tokenHash ||
    (a.tenantId == b.tenantId && a.email == b.email && a.acceptedAt.isNone && b.acceptedAt.isNone)

structure Db where
  tenants : Table Tenant sameTenant
  users : Table User sameUser
  roles : Table Role sameRole
  /-- `user_roles`: the users with their roles. -/
  userRoles : List (Uuid × Uuid)
  refreshTokens : Table RefreshToken sameToken
  magicLinks : Table MagicLinkToken sameLink
  invites : Table UserInvite sameInvite
  now : Instant

/-! ### Environment -/

/-- What the handlers take from outside. -/
structure Env where
  allowSignup : Bool
  systemSmtp : Bool
  appBaseUrl : String
  /-- `str::to_lowercase`. -/
  toLowercase : String → String
  /-- SHA-256, as `hash_refresh_token` and `hash_api_key` print it. -/
  sha256 : String → String
  /-- Argon2id, with a salt. -/
  hashPassword : Uuid → String → Except String String
  verifyPassword : String → String → Except String Bool
  /-- Signing and encoding a JWT fails, with this error. -/
  encodeError : Option String
  /-- What a failed call of the database says. -/
  databaseError : String

/-- `normalize_email`. -/
def normalizeEmail (env : Env) (email : String) : String :=
  env.toLowercase (String.ofList (trim email.toList))

/-- What a step draws: a random id, and what the mail server answers. -/
structure Draw where
  uuid : Uuid
  mailError : Option String
  deriving Repr, DecidableEq

/-- `Uuid::simple`. -/
def simple (u : Uuid) : String := String.ofList ((Uuid.display u).toList.filter (· != '-'))

/-! ### Operations -/

/-- Why a statement fails. -/
inductive DbError where
  | rowNotFound
  /-- A unique constraint, by its name. -/
  | unique (constraint : String)
  /-- A value does not fit its column. -/
  | value
  | connection
  deriving Repr, DecidableEq

/-- A statement. -/
inductive DbOp where
  | hasTenants
  | createTenant (name slug : String)
  | getTenantById (id : Uuid)
  | getTenantBySlug (slug : String)
  | createRole (tenantId : Uuid) (name : String) (permissions : List String) (isSystem : Bool)
  | getRoleByName (tenantId : Uuid) (name : String)
  | assignRole (userId roleId : Uuid)
  | getUserRoles (userId : Uuid)
  | createUser (input : CreateUser)
  | getUserById (id : Uuid)
  | findUserByEmail (tenantId : Uuid) (email : String)
  | findUsersByEmail (email : String)
  | updatePasswordHash (id tenantId : Uuid) (passwordHash : String)
  | deactivateUser (id : Uuid)
  | createRefreshToken (userId tenantId : Uuid) (tokenHash : String) (expiresAt : Instant)
  | findValidRefreshToken (tokenHash : String)
  | revokeRefreshToken (id : Uuid)
  | revokeAllForUser (userId : Uuid)
  | createMagicLink (email tokenHash : String) (expiresAt : Instant)
  | peekMagicLink (tokenHash : String)
  | consumeMagicLink (tokenHash : String)
  | createInvite (input : CreateUserInvite)
  | claimInvite (tokenHash : String)
  deriving Repr, DecidableEq

/-- What a statement returns. -/
abbrev DbOp.Value : DbOp → Type
  | .hasTenants => Bool
  | .createTenant _ _ => Tenant
  | .getTenantById _ => Tenant
  | .getTenantBySlug _ => Tenant
  | .createRole _ _ _ _ => Role
  | .getRoleByName _ _ => Role
  | .getUserRoles _ => List Role
  | .createUser _ => User
  | .getUserById _ => User
  | .findUserByEmail _ _ => Option User
  | .findUsersByEmail _ => List User
  | .updatePasswordHash _ _ _ => Nat
  | .createRefreshToken _ _ _ _ => RefreshToken
  | .findValidRefreshToken _ => RefreshToken
  | .createMagicLink _ _ _ => MagicLinkToken
  | .peekMagicLink _ => Option MagicLinkToken
  | .consumeMagicLink _ => Option MagicLinkToken
  | .createInvite _ => UserInvite
  | .claimInvite _ => Option UserInvite
  | _ => Unit

inductive Op where
  | clock
  | newToken (lead : String)
  | hashPassword (password : String)
  | sendMail (recipient token : String)
  | db (op : DbOp)
  deriving Repr, DecidableEq

/-- What an operation replies. -/
abbrev Op.Reply : Op → Type
  | .clock => Instant
  | .newToken _ => String
  | .hashPassword _ => Except String String
  | .sendMail _ _ => Option String
  | .db op => Except DbError op.Value

/-! ### Statements -/

/-- `fetch_one`. -/
def fetchOne {ι : Type} (rows : List ι) (p : ι → Bool) : Except DbError ι :=
  match rows.find? p with
  | some row => .ok row
  | none => .error .rowNotFound

theorem fetchOne_eq_ok {ι : Type} {rows : List ι} {p : ι → Bool} {row : ι}
    (h : fetchOne rows p = .ok row) : row ∈ rows ∧ p row = true := by
  unfold fetchOne at h
  split at h
  · rename_i found hfind
    obtain rfl : found = row := by simpa using h
    exact ⟨List.mem_of_find?_eq_some hfind, List.find?_some hfind⟩
  · cases h

/-- `INSERT … RETURNING *`, once the columns are checked. -/
def insertRow {ι : Type} {clash : ι → ι → Bool} (t : Table ι clash) (columns : Option ι)
    (constraint : String) (put : Table ι clash → Db) (s : Db) : Db × Except DbError ι :=
  match columns with
  | none => (s, .error .value)
  | some row =>
    match t.insert row with
    | none => (s, .error (.unique constraint))
    | some t => (put t, .ok row)

/-- A nullable `VARCHAR(n)`. -/
def storeNullable (n : Nat) : Option String → Option (Option String)
  | none => some none
  | some s => (storeVarchar n s).map some

def tenantRow (id : Uuid) (name slug : String) : Option Tenant :=
  match storeVarchar 255 name, storeVarchar 63 slug with
  | some name, some slug => some { id, name, slug, isActive := true }
  | _, _ => none

def userRow (env : Env) (id : Uuid) (input : CreateUser) : Option User :=
  match storeVarchar 255 (normalizeEmail env input.email), storeVarchar 255 input.passwordHash,
    storeNullable 255 input.displayName with
  | some email, some passwordHash, some displayName =>
    some { id, tenantId := input.tenantId, email, passwordHash, displayName, isActive := true }
  | _, _, _ => none

def roleRow (id tenantId : Uuid) (name : String) (permissions : List String) (isSystem : Bool) :
    Option Role :=
  (storeVarchar 100 name).map fun name => { id, tenantId, name, permissions, isSystem }

def refreshTokenRow (id userId tenantId : Uuid) (tokenHash : String) (expiresAt : Instant) :
    Option RefreshToken :=
  (storeText tokenHash).map fun tokenHash =>
    { id, userId, tenantId, tokenHash, expiresAt, revokedAt := none }

def magicLinkRow (id : Uuid) (email tokenHash : String) (expiresAt : Instant) :
    Option MagicLinkToken :=
  match storeVarchar 255 email, storeVarchar 64 tokenHash with
  | some email, some tokenHash => some { id, email, tokenHash, expiresAt, consumedAt := none }
  | _, _ => none

def inviteRow (id : Uuid) (input : CreateUserInvite) : Option UserInvite :=
  match storeVarchar 255 input.email, storeVarchar 64 input.roleName,
    storeVarchar 64 input.tokenHash with
  | some email, some roleName, some tokenHash =>
    some { id, tenantId := input.tenantId, email, roleName, tokenHash,
           invitedBy := input.invitedBy, expiresAt := input.expiresAt, acceptedAt := none }
  | _, _, _ => none

/-- `token_hash = $1 AND revoked_at IS NULL AND expires_at > NOW()`. -/
def RefreshToken.valid (now : Instant) (tokenHash : String) (t : RefreshToken) : Bool :=
  t.tokenHash == tokenHash && t.revokedAt.isNone && now < t.expiresAt

/-- `token_hash = $1 AND consumed_at IS NULL AND expires_at > NOW()`. -/
def MagicLinkToken.usable (now : Instant) (tokenHash : String) (l : MagicLinkToken) : Bool :=
  l.tokenHash == tokenHash && l.consumedAt.isNone && now < l.expiresAt

/-- `token_hash = $1 AND accepted_at IS NULL AND expires_at > NOW()`. -/
def UserInvite.pending (now : Instant) (tokenHash : String) (i : UserInvite) : Bool :=
  i.tokenHash == tokenHash && i.acceptedAt.isNone && now < i.expiresAt

def RefreshToken.revoke (now : Instant) (p : RefreshToken → Bool) (t : RefreshToken) :
    RefreshToken :=
  if p t then { t with revokedAt := some now } else t

def MagicLinkToken.consume (now : Instant) (tokenHash : String) (l : MagicLinkToken) :
    MagicLinkToken :=
  if l.usable now tokenHash then { l with consumedAt := some now } else l

def UserInvite.claim (now : Instant) (tokenHash : String) (i : UserInvite) : UserInvite :=
  if i.pending now tokenHash then { i with acceptedAt := some now } else i

def User.deactivate (id : Uuid) (u : User) : User :=
  if u.id = id then { u with isActive := false } else u

/-- The rows that `update_password_hash` changes. -/
def User.inTenant (id tenantId : Uuid) (u : User) : Bool :=
  u.id == id && u.tenantId == tenantId && u.isActive

def User.setPassword (id tenantId : Uuid) (passwordHash : String) (u : User) : User :=
  if u.inTenant id tenantId then { u with passwordHash } else u

@[simp] theorem RefreshToken.revoke_keys (now : Instant) (p : RefreshToken → Bool)
    (t : RefreshToken) :
    (t.revoke now p).id = t.id ∧ (t.revoke now p).tokenHash = t.tokenHash ∧
      (t.revoke now p).userId = t.userId ∧ (t.revoke now p).tenantId = t.tenantId := by
  unfold revoke
  split <;> exact ⟨rfl, rfl, rfl, rfl⟩

@[simp] theorem MagicLinkToken.consume_keys (now : Instant) (tokenHash : String)
    (l : MagicLinkToken) :
    (l.consume now tokenHash).id = l.id ∧ (l.consume now tokenHash).tokenHash = l.tokenHash ∧
      (l.consume now tokenHash).email = l.email ∧
      (l.consume now tokenHash).expiresAt = l.expiresAt := by
  unfold consume
  split <;> exact ⟨rfl, rfl, rfl, rfl⟩

@[simp] theorem User.deactivate_keys (id : Uuid) (u : User) :
    (u.deactivate id).id = u.id ∧ (u.deactivate id).tenantId = u.tenantId ∧
      (u.deactivate id).email = u.email ∧ (u.deactivate id).passwordHash = u.passwordHash := by
  unfold deactivate
  split <;> exact ⟨rfl, rfl, rfl, rfl⟩

@[simp] theorem User.setPassword_keys (id tenantId : Uuid) (passwordHash : String) (u : User) :
    (u.setPassword id tenantId passwordHash).id = u.id ∧
      (u.setPassword id tenantId passwordHash).tenantId = u.tenantId ∧
      (u.setPassword id tenantId passwordHash).email = u.email ∧
      (u.setPassword id tenantId passwordHash).isActive = u.isActive := by
  unfold setPassword
  split <;> exact ⟨rfl, rfl, rfl, rfl⟩

theorem sameToken_revoke (now : Instant) (p : RefreshToken → Bool) (a b : RefreshToken)
    (h : sameToken a b = false) : sameToken (a.revoke now p) (b.revoke now p) = false := by
  simpa [sameToken] using h

theorem sameLink_consume (now : Instant) (tokenHash : String) (a b : MagicLinkToken)
    (h : sameLink a b = false) : sameLink (a.consume now tokenHash) (b.consume now tokenHash) = false := by
  simpa [sameLink] using h

theorem sameUser_deactivate (id : Uuid) (a b : User) (h : sameUser a b = false) :
    sameUser (a.deactivate id) (b.deactivate id) = false := by
  simpa [sameUser] using h

theorem sameUser_setPassword (id tenantId : Uuid) (passwordHash : String) (a b : User)
    (h : sameUser a b = false) :
    sameUser (a.setPassword id tenantId passwordHash) (b.setPassword id tenantId passwordHash) =
      false := by
  simpa [sameUser] using h

/-- Claiming invites makes none of them clash. -/
theorem sameInvite_claim (now : Instant) (tokenHash : String) (a b : UserInvite)
    (h : sameInvite a b = false) :
    sameInvite (a.claim now tokenHash) (b.claim now tokenHash) = false := by
  unfold UserInvite.claim
  simp only [sameInvite, Bool.or_eq_false_iff, Bool.and_eq_false_iff] at h ⊢
  split <;> split <;> simp_all

namespace Db

def revoke (p : RefreshToken → Bool) (s : Db) : Db :=
  let refreshTokens := s.refreshTokens.update (·.revoke s.now p) (sameToken_revoke s.now p)
  { s with refreshTokens }

def consume (tokenHash : String) (s : Db) : Db :=
  let magicLinks :=
    s.magicLinks.update (·.consume s.now tokenHash) (sameLink_consume s.now tokenHash)
  { s with magicLinks }

def claim (tokenHash : String) (s : Db) : Db :=
  let invites := s.invites.update (·.claim s.now tokenHash) (sameInvite_claim s.now tokenHash)
  { s with invites }

def deactivate (id : Uuid) (s : Db) : Db :=
  let users := s.users.update (·.deactivate id) (sameUser_deactivate id)
  { s with users }

def setPassword (id tenantId : Uuid) (passwordHash : String) (s : Db) : Db :=
  let users := s.users.update (·.setPassword id tenantId passwordHash)
    (sameUser_setPassword id tenantId passwordHash)
  { s with users }

/-- The roles of a user. -/
def rolesOf (userId : Uuid) (s : Db) : List Role :=
  s.roles.rows.filter fun r => (userId, r.id) ∈ s.userRoles

/-- `create_invite`: the pending invite of the address is replaced, in one transaction. -/
def invite (id : Uuid) (input : CreateUserInvite) (s : Db) : Db × Except DbError UserInvite :=
  let others := s.invites.delete fun i =>
    i.tenantId == input.tenantId && i.email == input.email && i.acceptedAt.isNone
  insertRow others (inviteRow id input) "user_invites_token_hash_key"
    (fun invites => { s with invites }) s

end Db

/-- What a statement does. -/
def execDb (env : Env) : (op : DbOp) → Draw → Db → Db × Except DbError op.Value
  | .hasTenants, _, s => (s, .ok (s.tenants.rows.any (·.isActive)))
  | .createTenant name slug, draw, s =>
    insertRow s.tenants (tenantRow draw.uuid name slug) "tenants_slug_key"
      (fun tenants => { s with tenants }) s
  | .getTenantById id, _, s => (s, fetchOne s.tenants.rows fun t => t.id == id && t.isActive)
  | .getTenantBySlug slug, _, s => (s, fetchOne s.tenants.rows fun t => t.slug == slug && t.isActive)
  | .createRole tenantId name permissions isSystem, draw, s =>
    insertRow s.roles (roleRow draw.uuid tenantId name permissions isSystem)
      "roles_tenant_id_name_key" (fun roles => { s with roles }) s
  | .getRoleByName tenantId name, _, s =>
    (s, fetchOne s.roles.rows fun r => r.tenantId == tenantId && r.name == name)
  | .assignRole userId roleId, _, s =>
    -- ON CONFLICT DO NOTHING
    (if (userId, roleId) ∈ s.userRoles then s
      else { s with userRoles := s.userRoles ++ [(userId, roleId)] }, .ok ())
  | .getUserRoles userId, _, s => (s, .ok (s.rolesOf userId))
  | .createUser input, draw, s =>
    insertRow s.users (userRow env draw.uuid input) "users_tenant_id_email_key"
      (fun users => { s with users }) s
  | .getUserById id, _, s => (s, fetchOne s.users.rows fun u => u.id == id && u.isActive)
  | .findUserByEmail tenantId email, _, s =>
    (s, .ok (s.users.rows.find? fun u =>
      u.tenantId == tenantId && u.email == normalizeEmail env email && u.isActive))
  | .findUsersByEmail email, _, s =>
    (s, .ok (s.users.rows.filter fun u => u.email == normalizeEmail env email && u.isActive))
  | .updatePasswordHash id tenantId passwordHash, _, s =>
    (s.setPassword id tenantId passwordHash, .ok (s.users.rows.countP (·.inTenant id tenantId)))
  | .deactivateUser id, _, s => (s.deactivate id, .ok ())
  | .createRefreshToken userId tenantId tokenHash expiresAt, draw, s =>
    insertRow s.refreshTokens (refreshTokenRow draw.uuid userId tenantId tokenHash expiresAt)
      "refresh_tokens_token_hash_key" (fun refreshTokens => { s with refreshTokens }) s
  | .findValidRefreshToken tokenHash, _, s =>
    (s, fetchOne s.refreshTokens.rows (·.valid s.now tokenHash))
  | .revokeRefreshToken id, _, s => (s.revoke (·.id == id), .ok ())
  | .revokeAllForUser userId, _, s =>
    (s.revoke fun t => t.userId == userId && t.revokedAt.isNone, .ok ())
  | .createMagicLink email tokenHash expiresAt, draw, s =>
    insertRow s.magicLinks (magicLinkRow draw.uuid email tokenHash expiresAt)
      "magic_link_tokens_token_hash_key" (fun magicLinks => { s with magicLinks }) s
  | .peekMagicLink tokenHash, _, s =>
    (s, .ok (s.magicLinks.rows.find? (·.usable s.now tokenHash)))
  | .consumeMagicLink tokenHash, _, s =>
    (s.consume tokenHash, .ok ((s.magicLinks.rows.find? (·.usable s.now tokenHash)).map
      (·.consume s.now tokenHash)))
  | .createInvite input, draw, s => s.invite draw.uuid input
  | .claimInvite tokenHash, _, s =>
    (s.claim tokenHash, .ok ((s.invites.rows.find? (·.pending s.now tokenHash)).map
      (·.claim s.now tokenHash)))

/-- What an operation does. -/
def exec (env : Env) : (op : Op) → Draw → Db → Db × op.Reply
  | .clock, _, s => (s, s.now)
  | .newToken lead, draw, s => (s, lead ++ simple draw.uuid)
  | .hashPassword password, draw, s => (s, env.hashPassword draw.uuid password)
  | .sendMail _ _, draw, s => (s, draw.mailError)
  | .db op, draw, s => execDb env op draw s

/-- Time passes. -/
def tick (seconds : Nat) (s : Db) : Db := { s with now := s.now + seconds }

end Feloxi.Auth
