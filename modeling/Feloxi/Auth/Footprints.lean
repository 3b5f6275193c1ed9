import Feloxi.Auth.Effects

/-!
# Feloxi.Auth.Footprints

What a request may carry out (`footprint`). Most statements only read or add a row; the few
that an invariant turns on belong to one kind of request each.
-/

namespace Feloxi.Auth

open Handlers

/-- The operation is one that the request may carry out. -/
def Request.May (env : Env) (r : Request) : Op → Prop
  | .db (.createTenant name slug) =>
    ∃ req, r = .register req ∧ name = req.tenantName ∧ slug = req.tenantSlug
  | .db (.consumeMagicLink tokenHash) =>
    ∃ req, r = .magicLinkVerify req ∧ env.sha256 req.token = tokenHash
  | .db (.deactivateUser id) => ∃ caller, r = .removeMember caller id ∧ id ≠ caller.userId ∧
      checkPermission caller "team_manage" = .ok ()
  | .db (.updatePasswordHash _ tenantId _) =>
    ∃ caller memberId password, r = .resetMemberPassword caller memberId password ∧
      tenantId = caller.tenantId
  | _ => True

/-! ### Pieces of handlers -/

section Pieces

variable {P : Op → Prop}

theorem allOps_queryOr {op : DbOp} {mapErr : DbError → AppError} {next : op.Value → Endpoint}
    (hop : P (.db op)) (hnext : ∀ value, (next value).AllOps P) :
    (queryOr op mapErr next).AllOps P := by
  refine ⟨hop, fun reply => ?_, trivial⟩
  cases reply with
  | error e => trivial
  | ok value => exact hnext value

theorem allOps_guarded {check : Except AppError Unit} {handler : Endpoint}
    (h : check = .ok () → handler.AllOps P) : (guarded check handler).AllOps P := by
  cases check with
  | error e => trivial
  | ok => exact h rfl

theorem allOps_hashPassword {password : String} {next : String → Endpoint}
    (hop : P (.hashPassword password)) (hnext : ∀ passwordHash, (next passwordHash).AllOps P) :
    (hashPassword password next).AllOps P := by
  refine ⟨hop, fun reply => ?_⟩
  cases reply with
  | error e => trivial
  | ok passwordHash => exact hnext passwordHash

theorem allOps_listOrgs {next : List OrgSummary → Endpoint} (hop : ∀ id, P (.db (.getTenantById id)))
    (hnext : ∀ orgs, (next orgs).AllOps P) (users : List User) (orgs : List OrgSummary) :
    (listOrgs next users orgs).AllOps P := by
  induction users generalizing orgs with
  | nil => exact hnext orgs
  | cons u users ih =>
      refine ⟨hop u.tenantId, fun reply => ?_, ih orgs⟩
      cases reply with
      | error e => exact ih orgs
      | ok t => exact ih _

theorem allOps_createRoles {env : Env} {tenantId : Uuid} {next : Endpoint}
    (hop : ∀ name permissions, P (.db (.createRole tenantId name permissions true)))
    (hnext : next.AllOps P) (roles : List (String × List String)) :
    (createRoles env tenantId roles next).AllOps P := by
  induction roles with
  | nil => exact hnext
  | cons role rest ih => exact allOps_queryOr (hop role.1 role.2) fun _ => ih

end Pieces

section Requests

variable {env : Env} {r : Request}

theorem allOps_issueSession (user : User) (tenant : Tenant) (roleNames : List String) :
    (issueSession env user tenant roleNames).AllOps (r.May env) := by
  refine allOps_queryOr trivial fun roles => ⟨trivial, fun now => ?_⟩
  cases env.encodeError with
  | some e => trivial
  | none =>
      refine ⟨trivial, fun token => ⟨trivial, fun now => ?_⟩⟩
      exact allOps_queryOr trivial fun _ => trivial

theorem allOps_issueWithRoles (user : User) (tenant : Tenant) :
    (issueWithRoles env user tenant).AllOps (r.May env) :=
  allOps_queryOr trivial fun _ => allOps_issueSession user tenant _

theorem allOps_memberBySlug {slug email : String} {noTenant noUser : AppError}
    {next : Tenant → User → Endpoint} (hnext : ∀ t u, (next t u).AllOps (r.May env)) :
    (memberBySlug env slug email noTenant noUser next).AllOps (r.May env) := by
  refine allOps_queryOr trivial fun t => allOps_queryOr trivial fun found => ?_
  cases found with
  | none => trivial
  | some u => exact hnext t u

theorem allOps_createAccount (req : RegisterRequest) (hreq : r = .register req) :
    (createAccount env req).AllOps (r.May env) := by
  refine allOps_queryOr ⟨req, hreq, rfl, rfl⟩ fun tenant => ?_
  refine allOps_createRoles (fun _ _ => trivial) ?_ systemRoles
  refine allOps_hashPassword trivial fun passwordHash => allOps_queryOr trivial fun user => ?_
  refine allOps_queryOr trivial fun adminRole => allOps_queryOr trivial fun _ => ?_
  exact allOps_issueSession user tenant _

theorem allOps_orgPicker (users : List User) :
    (listOrgs orgPicker users []).AllOps (r.May env) := by
  refine allOps_listOrgs (fun _ => trivial) (fun orgs => ?_) users []
  trivial

/-- The end of a login: the password is checked, then the session issued. -/
theorem allOps_signIn (req : LoginRequest) (tenant : Tenant) (user : User) :
    Handler.AllOps (r.May env)
      (match env.verifyPassword req.password user.passwordHash with
      | .error e => refuse (.internal e)
      | .ok false => refuse invalidCredentials
      | .ok true => issueWithRoles env user tenant) := by
  cases env.verifyPassword req.password user.passwordHash with
  | error e => trivial
  | ok verified =>
      cases verified with
      | false => trivial
      | true => exact allOps_issueWithRoles user tenant

theorem allOps_login (req : LoginRequest) : (login env req).AllOps (r.May env) := by
  unfold login
  cases givenSlug req.tenantSlug with
  | some slug => exact allOps_memberBySlug (allOps_signIn req)
  | none =>
      refine allOps_queryOr trivial fun users => ?_
      rcases users with _ | ⟨user, _ | ⟨other, users⟩⟩
      · trivial
      · exact allOps_queryOr trivial fun tenant => allOps_signIn req tenant user
      · exact allOps_orgPicker (user :: other :: users)

theorem allOps_refresh (cookies : List String) : (refresh env cookies).AllOps (r.May env) := by
  unfold refresh
  cases extractCookie cookies "fp_refresh" with
  | none => trivial
  | some token =>
      refine allOps_queryOr trivial fun stored => allOps_queryOr trivial fun user => ?_
      refine allOps_queryOr trivial fun tenant => ?_
      refine Handler.AllOps.bind (allOps_issueWithRoles user tenant) fun result => ?_
      cases result with
      | error e => trivial
      | ok answer => exact ⟨trivial, fun _ => trivial, trivial⟩

theorem allOps_acceptInvite (req : AcceptInviteRequest) :
    (acceptInvite env req).AllOps (r.May env) := by
  refine allOps_guarded fun _ => allOps_queryOr trivial fun found => ?_
  cases found with
  | none => trivial
  | some invite =>
      refine allOps_queryOr trivial fun tenant => allOps_queryOr trivial fun role => ?_
      refine allOps_hashPassword trivial fun passwordHash => allOps_queryOr trivial fun user => ?_
      exact allOps_queryOr trivial fun _ => allOps_issueSession user tenant _

theorem allOps_magicLinkRequest (address : String) :
    (magicLinkRequest env address).AllOps (r.May env) := by
  unfold magicLinkRequest
  split
  · dsimp only
    split
    · trivial
    · refine allOps_queryOr trivial fun users => ?_
      cases users with
      | nil => trivial
      | cons u users =>
          refine ⟨trivial, fun token => ⟨trivial, fun now => ?_⟩⟩
          exact allOps_queryOr trivial fun _ => ⟨trivial, fun _ => trivial⟩
  · trivial

theorem allOps_magicLinkVerify (req : MagicLinkVerifyRequest) (hreq : r = .magicLinkVerify req) :
    (magicLinkVerify env req).AllOps (r.May env) := by
  have hconsume : ∀ t u, (consumeLink env (env.sha256 req.token) t u).AllOps (r.May env) := by
    intro t u
    refine allOps_queryOr ⟨req, hreq, rfl⟩ fun consumed => ?_
    cases consumed with
    | none => trivial
    | some link => exact allOps_issueWithRoles u t
  refine allOps_queryOr trivial fun found => ?_
  cases found with
  | none => trivial
  | some link =>
      dsimp only
      cases givenSlug req.tenantSlug with
      | some slug => exact allOps_memberBySlug hconsume
      | none =>
          refine allOps_queryOr trivial fun users => ?_
          match users with
          | [] => trivial
          | [user] => exact allOps_queryOr trivial fun tenant => hconsume tenant user
          | u :: v :: users => exact allOps_orgPicker (u :: v :: users)

theorem allOps_inviteMember (caller : CurrentUser) (address role : String) :
    (inviteMember env caller address role).AllOps (r.May env) := by
  refine allOps_guarded fun _ => ?_
  dsimp only
  split
  · refine allOps_queryOr trivial fun existing => allOps_queryOr trivial fun _ => ?_
    split
    · trivial
    · refine ⟨trivial, fun token => ⟨trivial, fun now => allOps_queryOr trivial fun invite => ?_⟩⟩
      exact allOps_queryOr trivial fun _ => ⟨trivial, fun _ => trivial⟩
  · trivial

theorem allOps_removeMember (caller : CurrentUser) (memberId : Uuid)
    (hr : r = .removeMember caller memberId) :
    (removeMember env caller memberId).AllOps (r.May env) := by
  refine allOps_guarded fun hpermitted => ?_
  split
  · trivial
  · rename_i hself
    refine allOps_queryOr trivial fun target => ?_
    split
    · exact allOps_queryOr ⟨caller, hr, hself, hpermitted⟩ fun _ => trivial
    · trivial

theorem allOps_resetMemberPassword (caller : CurrentUser) (memberId : Uuid) (password : String)
    (hr : r = .resetMemberPassword caller memberId password) :
    (resetMemberPassword env caller memberId password).AllOps (r.May env) := by
  refine allOps_guarded fun _ => allOps_guarded fun _ => ?_
  refine allOps_hashPassword trivial fun passwordHash => ?_
  refine allOps_queryOr ⟨caller, memberId, password, hr, rfl⟩ fun rowsAffected => ?_
  split
  · trivial
  · exact allOps_queryOr trivial fun _ => trivial

end Requests

/-- **Every request keeps to its footprint.** -/
theorem footprint (env : Env) (r : Request) : (r.program env).AllOps (r.May env) := by
  cases r with
  | register req =>
      refine allOps_guarded fun _ => allOps_queryOr trivial fun hasTenants => ?_
      split
      · trivial
      · exact allOps_createAccount req rfl
  | login req => exact allOps_login req
  | refresh cookies => exact allOps_refresh cookies
  | switchOrg claims tenantSlug =>
      cases claims with
      | error e => trivial
      | ok claims => exact allOps_memberBySlug fun t u => allOps_issueWithRoles u t
  | acceptInvite req => exact allOps_acceptInvite req
  | magicLinkRequest email => exact allOps_magicLinkRequest email
  | magicLinkVerify req => exact allOps_magicLinkVerify req rfl
  | inviteMember caller email role => exact allOps_inviteMember caller email role
  | removeMember caller memberId => exact allOps_removeMember caller memberId rfl
  | resetMemberPassword caller memberId password =>
      exact allOps_resetMemberPassword caller memberId password rfl

/-- Every request in progress keeps to its footprint. -/
def OnFoot (env : Env) (p : ApiPool) : Prop :=
  ∀ t ∈ p.threads, t.program.AllOps (t.request.May env)

theorem onFoot_step (env : Env) (p : ApiPool) (a : Action Draw Request Nat) (hp : OnFoot env p) :
    OnFoot env ((api env).step p a) :=
  (api env).forall_threads_step a (footprint env) (fun _ _ _ _ _ _ h hmove => (h.moves hmove).1) hp

end Feloxi.Auth
