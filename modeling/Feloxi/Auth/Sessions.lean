import Feloxi.Auth.Rbac
import Feloxi.Auth.Store

/-!
# Feloxi.Auth.Sessions

The requests that issue sessions (`crates/api/src/routes/auth.rs`) and those on the members
of a team (`crates/api/src/routes/tenants.rs`), each as a handler over the statements of
`Feloxi.Auth.Store`.
-/

namespace Feloxi.Auth

open Handlers (Handler)
open Tables (Table)

/-! ### Answers -/

/-- The claims of an access token. -/
structure Claims where
  sub : Uuid
  tid : Uuid
  email : String
  roles : List String
  permissions : List String
  iat : Instant
  exp : Instant
  deriving Repr, DecidableEq

/-- `UserInfo`. -/
structure UserInfo where
  id : Uuid
  email : String
  displayName : Option String
  tenantId : Uuid
  tenantSlug : String
  roles : List String
  permissions : List String
  deriving Repr, DecidableEq

/-- What a session comes with: the access token, by its claims, the refresh token, and the
body of the answer. -/
structure Session where
  claims : Claims
  refreshToken : String
  expiresIn : Nat
  user : UserInfo
  deriving Repr, DecidableEq

structure OrgSummary where
  slug : String
  name : String
  deriving Repr, DecidableEq

structure InviteMemberResponse where
  inviteId : Uuid
  email : String
  role : String
  inviteUrl : String
  expiresAt : Instant
  emailSent : Bool
  emailError : Option String
  deriving Repr, DecidableEq

inductive Answer where
  | session (session : Session)
  | orgPicker (organizations : List OrgSummary)
  | magicLinkSent
  | invited (invite : InviteMemberResponse)
  | removed
  | reset
  deriving Repr, DecidableEq

/-! ### Steps of a handler -/

abbrev Program := Handler Op Op.Reply

abbrev Endpoint := Program (Except AppError Answer)

def refuse (e : AppError) : Endpoint := .answer (.error e)

/-- `impl From<sqlx::Error> for AppError`. -/
def DbError.toAppError (env : Env) : DbError → AppError
  | .rowNotFound => .notFound "Resource not found"
  | .unique constraint =>
    if constraint = "tenants_slug_key" then
      .conflict "An organization with this slug already exists"
    else if constraint = "users_tenant_id_email_key" then
      .conflict "A user with this email already exists"
    else .conflict "A record with this value already exists"
  | .value => .database env.databaseError
  | .connection => .database env.databaseError

/-- A statement and all that can come of it. -/
def ask {α : Type} (op : DbOp) (next : Except DbError op.Value → Program α) : Program α :=
  .call (.db op) next (next (.error .connection))

/-- A statement whose errors are mapped by `mapErr`, with `?`. -/
def queryOr (op : DbOp) (mapErr : DbError → AppError) (next : op.Value → Endpoint) : Endpoint :=
  ask op fun
    | .ok value => next value
    | .error e => refuse (mapErr e)

/-- A statement, with `?`. -/
def query (env : Env) (op : DbOp) (next : op.Value → Endpoint) : Endpoint :=
  queryOr op (·.toAppError env) next

/-- A handler behind a check. -/
def guarded (check : Except AppError Unit) (handler : Endpoint) : Endpoint :=
  match check with
  | .error e => refuse e
  | .ok () => handler

/-! ### Sessions -/

def ACCESS_TOKEN_TTL_SECS : Nat := 900

def REFRESH_TOKEN_TTL_DAYS : Nat := 30

def secsPerDay : Nat := 86400

/-- `get_user_permissions`; a set, so the order is none of the source's. -/
def permissionsOf (roles : List Role) : List String := (roles.flatMap (·.permissions)).eraseDups

/-- `issue_session`. -/
def issueSession (env : Env) (user : User) (tenant : Tenant) (roleNames : List String) : Endpoint :=
  query env (.getUserRoles user.id) fun roles =>
    let permissions := permissionsOf roles
    .act .clock fun now =>
      match env.encodeError with
      | some e => refuse (.internal e)
      | none =>
        let claims : Claims :=
          { sub := user.id, tid := tenant.id, email := user.email, roles := roleNames, permissions,
            iat := now, exp := now + ACCESS_TOKEN_TTL_SECS }
        .act (.newToken "fp_rt_") fun refreshToken =>
          .act .clock fun now =>
            query env (.createRefreshToken user.id tenant.id (env.sha256 refreshToken)
                (now + REFRESH_TOKEN_TTL_DAYS * secsPerDay)) fun _ =>
              .answer <| .ok <| .session
                { claims, refreshToken, expiresIn := ACCESS_TOKEN_TTL_SECS,
                  user := { id := user.id, email := user.email, displayName := user.displayName,
                            tenantId := tenant.id, tenantSlug := tenant.slug, roles := roleNames,
                            permissions } }

/-- A session with the roles that the user has. -/
def issueWithRoles (env : Env) (user : User) (tenant : Tenant) : Endpoint :=
  query env (.getUserRoles user.id) fun roles =>
    issueSession env user tenant (roles.map (·.name))

/-! ### Register -/

structure RegisterRequest where
  tenantName : String
  tenantSlug : String
  email : String
  password : String
  displayName : Option String
  deriving Repr, DecidableEq

/-- `validate_password`. -/
def validatePassword (password : String) : Except AppError Unit :=
  if password.toList.length < 8 then
    .error (.validation "Password must be at least 8 characters")
  else .ok ()

/-- The roles of `init_system_roles`. -/
def systemRoles : List (String × List String) :=
  [("admin",
     ["tasks_read", "tasks_retry", "tasks_revoke", "workers_read", "workers_shutdown",
      "alerts_read", "alerts_write", "beat_read", "metrics_read", "settings_read",
      "settings_write", "team_manage", "api_keys_manage", "brokers_manage"]),
   ("editor",
     ["tasks_read", "tasks_retry", "workers_read", "alerts_read", "alerts_write", "beat_read",
      "metrics_read", "settings_read", "api_keys_manage", "brokers_manage"]),
   ("viewer", ["tasks_read", "workers_read", "alerts_read", "beat_read", "metrics_read"]),
   ("readonly", ["tasks_read", "workers_read"])]

/-- `init_system_roles`, one `create_role` after the other. -/
def createRoles (env : Env) (tenantId : Uuid) :
    List (String × List String) → Endpoint → Endpoint
  | [], next => next
  | (name, permissions) :: rest, next =>
    query env (.createRole tenantId name permissions true) fun _ =>
      createRoles env tenantId rest next

/-- `hash_password`. -/
def hashPassword (password : String) (next : String → Endpoint) : Endpoint :=
  .act (.hashPassword password) fun
    | .ok passwordHash => next passwordHash
    | .error e => refuse (.internal e)

/-- How `create_user` maps its errors. -/
def createUserError (env : Env) : DbError → AppError
  | .unique _ => .conflict "A user with this email already exists"
  | _ => .database env.databaseError

/-- The steps of `register` after its checks. -/
def createAccount (env : Env) (req : RegisterRequest) : Endpoint :=
  query env (.createTenant req.tenantName req.tenantSlug) fun tenant =>
    createRoles env tenant.id systemRoles <|
      hashPassword req.password fun passwordHash =>
        let input : CreateUser :=
          { tenantId := tenant.id, email := req.email, passwordHash,
            displayName := req.displayName }
        queryOr (.createUser input) (createUserError env) fun user =>
          query env (.getRoleByName tenant.id "admin") fun adminRole =>
            query env (.assignRole user.id adminRole.id) fun _ =>
              issueSession env user tenant ["admin"]

/-- `register`. -/
def register (env : Env) (req : RegisterRequest) : Endpoint :=
  guarded (validatePassword req.password) <|
    query env .hasTenants fun hasTenants =>
      if hasTenants && !env.allowSignup then refuse (.forbidden "Public signup is disabled")
      else createAccount env req

/-! ### Login -/

structure LoginRequest where
  tenantSlug : Option String
  email : String
  password : String
  deriving Repr, DecidableEq

def invalidCredentials : AppError := .unauthorized "Invalid credentials"

/-- The organisations of some users, as far as they can be looked up. -/
def listOrgs (next : List OrgSummary → Endpoint) : List User → List OrgSummary → Endpoint
  | [], orgs => next orgs
  | u :: users, orgs =>
    ask (.getTenantById u.tenantId) fun
      | .ok t => listOrgs next users (orgs ++ [{ slug := t.slug, name := t.name }])
      | .error _ => listOrgs next users orgs

def orgPicker (orgs : List OrgSummary) : Endpoint := .answer (.ok (.orgPicker orgs))

/-- `resolve_user_by_email`, and what `login` does with several organisations. -/
def resolveUserByEmail (env : Env) (email : String) (next : Tenant → User → Endpoint) : Endpoint :=
  query env (.findUsersByEmail email) fun
    | [] => refuse invalidCredentials
    | [user] =>
      queryOr (.getTenantById user.tenantId) (fun _ => invalidCredentials) fun tenant =>
        next tenant user
    | users => listOrgs orgPicker users []

/-- A member by the slug of the tenant. -/
def memberBySlug (env : Env) (slug email : String) (noTenant noUser : AppError)
    (next : Tenant → User → Endpoint) : Endpoint :=
  queryOr (.getTenantBySlug slug) (fun _ => noTenant) fun t =>
    query env (.findUserByEmail t.id email) fun
      | none => refuse noUser
      | some u => next t u

/-- A slug that is given and not empty. -/
def givenSlug (slug : Option String) : Option String := slug.filter (· != "")

/-- `login`. -/
def login (env : Env) (req : LoginRequest) : Endpoint :=
  let signIn (tenant : Tenant) (user : User) : Endpoint :=
    match env.verifyPassword req.password user.passwordHash with
    | .error e => refuse (.internal e)
    | .ok false => refuse invalidCredentials
    | .ok true => issueWithRoles env user tenant
  match givenSlug req.tenantSlug with
  | none => resolveUserByEmail env req.email signIn
  | some slug => memberBySlug env slug req.email invalidCredentials invalidCredentials signIn

/-! ### Refresh -/

/-- `extract_cookie`; the values of the `cookie` headers that are text. -/
def extractCookie (headers : List String) (name : String) : Option String :=
  let lead := (name ++ "=").toList
  let parts := headers.flatMap fun h => (h.toList.splitOn ';').map trim
  (parts.find? fun s => lead.isPrefixOf s).map fun s => String.ofList (s.drop lead.length)

/-- The end of `refresh`: the token is revoked once the new session is there, and a failed
revoke is only logged. -/
def finish (id : Uuid) : Except AppError Answer → Endpoint
  | .error e => .answer (.error e)
  | .ok answer => ask (.revokeRefreshToken id) fun _ => .answer (.ok answer)

/-- What `refresh` does with a token that it found valid. -/
def rotate (env : Env) (stored : RefreshToken) : Endpoint :=
  queryOr (.getUserById stored.userId) (fun _ => .unauthorized "User not found") fun user =>
    queryOr (.getTenantById stored.tenantId) (fun _ => .unauthorized "Tenant not found") fun tenant =>
      (issueWithRoles env user tenant).bind (finish stored.id)

/-- `refresh`. -/
def refresh (env : Env) (cookies : List String) : Endpoint :=
  match extractCookie cookies "fp_refresh" with
  | none => refuse (.unauthorized "No refresh token")
  | some token =>
    queryOr (.findValidRefreshToken (env.sha256 token))
      (fun _ => .unauthorized "Invalid or expired refresh token") (rotate env)

/-! ### Switching organisations and invites -/

/-- `switch_org`, for what `verify_request` found. -/
def switchOrg (env : Env) (claims : Except AppError Claims) (tenantSlug : String) : Endpoint :=
  match claims with
  | .error e => refuse e
  | .ok claims =>
    memberBySlug env tenantSlug claims.email (.notFound "Organization not found")
      (.unauthorized "You are not a member of this organization") fun tenant user =>
        issueWithRoles env user tenant

structure AcceptInviteRequest where
  token : String
  password : String
  displayName : Option String
  deriving Repr, DecidableEq

/-- `accept_invite`; its two queries of one `try_join!` only read. -/
def acceptInvite (env : Env) (req : AcceptInviteRequest) : Endpoint :=
  guarded (validatePassword req.password) <|
    query env (.claimInvite (env.sha256 req.token)) fun
      | none => refuse (.notFound "Invite not found or expired")
      | some invite =>
        query env (.getTenantById invite.tenantId) fun tenant =>
          query env (.getRoleByName invite.tenantId invite.roleName) fun role =>
            hashPassword req.password fun passwordHash =>
              let displayName := (req.displayName.map fun s => String.ofList (trim s.toList)).filter
                (· != "")
              let input : CreateUser :=
                { tenantId := invite.tenantId, email := invite.email, passwordHash, displayName }
              queryOr (.createUser input) (createUserError env) fun user =>
                query env (.assignRole user.id role.id) fun _ =>
                  issueSession env user tenant [invite.roleName]

/-! ### Magic links -/

def MAGIC_LINK_TTL_MINUTES : Nat := 15

/-- `magic_link_request`. -/
def magicLinkRequest (env : Env) (address : String) : Endpoint :=
  if env.systemSmtp then
    let email := normalizeEmail env address
    if email = "" then refuse (.validation "Email required")
    else
      query env (.findUsersByEmail email) fun
        | [] => .answer (.ok .magicLinkSent)
        | _ =>
          .act (.newToken "fp_rt_") fun token =>
            .act .clock fun now =>
              query env (.createMagicLink email (env.sha256 token)
                  (now + MAGIC_LINK_TTL_MINUTES * 60)) fun _ =>
                .act (.sendMail email token) fun _ => .answer (.ok .magicLinkSent)
  else refuse (.internal "System SMTP not configured")

structure MagicLinkVerifyRequest where
  token : String
  tenantSlug : Option String
  deriving Repr, DecidableEq

/-- The end of `magic_link_verify`: of two concurrent requests, one signs in. -/
def consumeLink (env : Env) (tokenHash : String) (tenant : Tenant) (user : User) : Endpoint :=
  query env (.consumeMagicLink tokenHash) fun
    | none => refuse (.unauthorized "Invalid or expired link")
    | some _ => issueWithRoles env user tenant

/-- `magic_link_verify`. -/
def magicLinkVerify (env : Env) (req : MagicLinkVerifyRequest) : Endpoint :=
  let tokenHash := env.sha256 req.token
  query env (.peekMagicLink tokenHash) fun
    | none => refuse (.unauthorized "Invalid or expired link")
    | some link =>
      match givenSlug req.tenantSlug with
      | some slug =>
        memberBySlug env slug link.email (.notFound "Organization not found")
          (.unauthorized "You are not a member of this organization") (consumeLink env tokenHash)
      | none =>
        query env (.findUsersByEmail link.email) fun
          | [] => refuse (.unauthorized "Account not found")
          | [user] =>
            query env (.getTenantById user.tenantId) fun tenant =>
              consumeLink env tokenHash tenant user
          | users => listOrgs orgPicker users []

/-! ### Members -/

/-- `is_valid_email`. -/
def isValidEmail (email : String) : Bool :=
  let name := email.toList.takeWhile (· != '@')
  let domain := (email.toList.dropWhile (· != '@')).drop 1
  email.toList.contains '@' && !name.isEmpty && domain.contains '.' && domain.head? != some '.' &&
    domain.getLast? != some '.'

def INVITE_EXPIRY_DAYS : Nat := 7

/-- `invite_member`. -/
def inviteMember (env : Env) (caller : CurrentUser) (address role : String) : Endpoint :=
  guarded (checkPermission caller "team_manage") <|
    let email := normalizeEmail env address
    if isValidEmail email then
      query env (.findUserByEmail caller.tenantId email) fun existing =>
        query env (.getRoleByName caller.tenantId role) fun _ =>
          if existing.isSome then
            refuse (.conflict "A user with this email already exists in this organization")
          else
            .act (.newToken "fp_inv_") fun token =>
              .act .clock fun now =>
                let input : CreateUserInvite :=
                  { tenantId := caller.tenantId, email, roleName := role,
                    tokenHash := env.sha256 token, invitedBy := some caller.userId,
                    expiresAt := now + INVITE_EXPIRY_DAYS * secsPerDay }
                query env (.createInvite input) fun invite =>
                  query env (.getTenantById caller.tenantId) fun _ =>
                    .act (.sendMail email token) fun mailError =>
                      let base := String.ofList
                        (env.appBaseUrl.toList.reverse.dropWhile (· == '/')).reverse
                      .answer <| .ok <| .invited
                        { inviteId := invite.id, email := invite.email, role := invite.roleName,
                          inviteUrl := base ++ "/auth/accept-invite/" ++ token,
                          expiresAt := invite.expiresAt, emailSent := mailError.isNone,
                          emailError := mailError }
    else refuse (.validation "A valid email address is required")

/-- `remove_member`. -/
def removeMember (env : Env) (caller : CurrentUser) (memberId : Uuid) : Endpoint :=
  guarded (checkPermission caller "team_manage") <|
    if memberId = caller.userId then refuse (.validation "Cannot remove yourself")
    else
      query env (.getUserById memberId) fun target =>
        if target.tenantId = caller.tenantId then
          query env (.deactivateUser memberId) fun _ => .answer (.ok .removed)
        else refuse (.notFound "User not found")

/-- `reset_member_password`. -/
def resetMemberPassword (env : Env) (caller : CurrentUser) (memberId : Uuid) (password : String) :
    Endpoint :=
  guarded (checkPermission caller "team_manage") <|
    guarded (validatePassword password) <|
      hashPassword password fun passwordHash =>
        query env (.updatePasswordHash memberId caller.tenantId passwordHash) fun rowsAffected =>
          if rowsAffected = 0 then refuse (.notFound "User not found")
          else query env (.revokeAllForUser memberId) fun _ => .answer (.ok .reset)

/-! ### Requests -/

inductive Request where
  | register (req : RegisterRequest)
  | login (req : LoginRequest)
  | refresh (cookies : List String)
  | switchOrg (claims : Except AppError Claims) (tenantSlug : String)
  | acceptInvite (req : AcceptInviteRequest)
  | magicLinkRequest (email : String)
  | magicLinkVerify (req : MagicLinkVerifyRequest)
  | inviteMember (caller : CurrentUser) (email role : String)
  | removeMember (caller : CurrentUser) (memberId : Uuid)
  | resetMemberPassword (caller : CurrentUser) (memberId : Uuid) (password : String)

def Request.program (env : Env) : Request → Endpoint
  | .register req => Auth.register env req
  | .login req => Auth.login env req
  | .refresh cookies => Auth.refresh env cookies
  | .switchOrg claims tenantSlug => Auth.switchOrg env claims tenantSlug
  | .acceptInvite req => Auth.acceptInvite env req
  | .magicLinkRequest email => Auth.magicLinkRequest env email
  | .magicLinkVerify req => Auth.magicLinkVerify env req
  | .inviteMember caller email role => Auth.inviteMember env caller email role
  | .removeMember caller memberId => Auth.removeMember env caller memberId
  | .resetMemberPassword caller memberId password =>
    Auth.resetMemberPassword env caller memberId password

/-- The API, with any number of requests at once, and a clock. -/
abbrev api (env : Env) : Handlers.Machine Op Op.Reply (Except AppError Answer) Request Db Draw Nat where
  exec := exec env
  program := Request.program env
  world := tick

abbrev ApiPool := Handlers.Pool Op Op.Reply (Except AppError Answer) Request Db

abbrev ApiThread := Handlers.Thread Op Op.Reply (Except AppError Answer) Request

/-- No request came in yet. -/
def idlePool (db : Db) : ApiPool := { state := db, threads := [], log := [] }

theorem not_mem_idle {db : Db} {t : ApiThread} : t ∉ (idlePool db).threads := List.not_mem_nil

/-! ### Samples -/

/-- Hashes are the texts themselves. -/
def plainEnv : Env :=
  { allowSignup := false, systemSmtp := true, appBaseUrl := "https://feloxi.example",
    toLowercase := id, sha256 := id, hashPassword := fun _ password => .ok password,
    verifyPassword := fun password hash => .ok (password == hash), encodeError := none,
    databaseError := "pool timed out" }

def emptyDb : Db :=
  { tenants := .empty, users := .empty, roles := .empty, userRoles := [], refreshTokens := .empty,
    magicLinks := .empty, invites := .empty, now := 100 }

def sampleTenant : Tenant := { id := 7, name := "Acme", slug := "acme", isActive := true }

/-- A member of the tenant. -/
def sampleMember (id : Uuid) (email : String) : User :=
  { id, tenantId := 7, email, passwordHash := "secret-hash", displayName := none, isActive := true }

def sampleAdminRole : Role :=
  { id := 30, tenantId := 7, name := "admin", permissions := ["team_manage"], isSystem := true }

def sampleUsers : Table User sameUser :=
  ⟨[sampleMember 1 "ann@acme.io", sampleMember 2 "bob@acme.io"], by decide⟩

def sampleToken : RefreshToken :=
  { id := 50, userId := 1, tenantId := 7, tokenHash := "fp_rt_old", expiresAt := 1000,
    revokedAt := none }

def sampleLink : MagicLinkToken :=
  { id := 60, email := "ann@acme.io", tokenHash := "fp_rt_mail", expiresAt := 1000,
    consumedAt := none }

/-- A tenant with two admins, a refresh token and a magic link of the first. -/
def sampleDb : Db :=
  { emptyDb with
    tenants := ⟨[sampleTenant], List.pairwise_singleton _ _⟩
    users := sampleUsers
    roles := ⟨[sampleAdminRole], List.pairwise_singleton _ _⟩
    userRoles := [(1, 30), (2, 30)]
    refreshTokens := ⟨[sampleToken], List.pairwise_singleton _ _⟩
    magicLinks := ⟨[sampleLink], List.pairwise_singleton _ _⟩ }

/-- What step `n` draws. -/
def draw (n : Uuid) : Draw := { uuid := n, mailError := none }

end Feloxi.Auth
