import Feloxi.Auth.Contracts
import Mathlib.Data.Set.BooleanAlgebra
import Mathlib.Order.CompletePartialOrder

/-!
# Feloxi.Auth.Takeover

Whose sessions a party can obtain. Six requests issue sessions, and each finds its user in a
way of its own. All but one ask for something that only the user was given (`CredentialOf`);
`switch_org` asks for an access token of the user's address, and anyone can register with that.
-/

namespace Feloxi.Auth

open Handlers Runs
open Tables (Table)

/-! ### Credentials -/

namespace Request

/-- A login with the password of the row. -/
def Opens (env : Env) (row : User) : Request → Prop
  | .login req => env.verifyPassword req.password row.passwordHash = .ok true
  | _ => False

/-- A sign-in with the mailed link. -/
def Follows (env : Env) (link : MagicLinkToken) : Request → Prop
  | .magicLinkVerify req => env.sha256 req.token = link.tokenHash
  | _ => False

def Accepts (env : Env) (invite : UserInvite) : Request → Prop
  | .acceptInvite req => env.sha256 req.token = invite.tokenHash
  | _ => False

/-- A request on the members of the tenant, with `team_manage`. -/
def Manages (tenant : Uuid) : Request → Prop
  | .inviteMember caller _ _ =>
    caller.tenantId = tenant ∧ checkPermission caller "team_manage" = .ok ()
  | .removeMember caller _ =>
    caller.tenantId = tenant ∧ checkPermission caller "team_manage" = .ok ()
  | .resetMemberPassword caller _ _ =>
    caller.tenantId = tenant ∧ checkPermission caller "team_manage" = .ok ()
  | _ => False

/-- A request with an access token of the user. -/
def Bears (userId : Uuid) : Request → Prop
  | .switchOrg (.ok claims) _ => claims.sub = userId
  | _ => False

def Renews (env : Env) (token : RefreshToken) : Request → Prop
  | .refresh cookies => (extractCookie cookies "fp_refresh").map env.sha256 = some token.tokenHash
  | _ => False

/-- A switch into the organisation, with an access token of the address. -/
def Switches (env : Env) (tenant : Tenant) (email : String) : Request → Prop
  | .switchOrg (.ok claims) tenantSlug =>
    normalizeEmail env claims.email = email ∧ tenant.slug = tenantSlug ∧ tenant.isActive = true
  | _ => False

end Request

/-- What the request presents is a credential of `u`, or it is made with `team_manage` in the
tenant of `u`. -/
inductive CredentialOf (env : Env) (u : User) (s : Db) (r : Request) : Prop where
  | password (row : User) (hrow : row ∈ s.users.rows) (hid : row.id = u.id) (h : r.Opens env row)
  | link (link : MagicLinkToken) (hlink : link ∈ s.magicLinks.rows)
      (hemail : normalizeEmail env link.email = u.email) (h : r.Follows env link)
  | invite (invite : UserInvite) (hinvite : invite ∈ s.invites.rows)
      (htenant : invite.tenantId = u.tenantId) (h : r.Accepts env invite)
  | manager (h : r.Manages u.tenantId)
  | access (h : r.Bears u.id)
  | refresh (token : RefreshToken) (htoken : token ∈ s.refreshTokens.rows)
      (hid : token.userId = u.id) (h : r.Renews env token)

/-- The request switches to the active user `u` by the address in an access token. -/
def SwitchesInto (env : Env) (u : User) (s : Db) (r : Request) : Prop :=
  (∃ row ∈ s.users.rows, row.id = u.id ∧ row.isActive = true) ∧
    ∃ tenant ∈ s.tenants.rows, tenant.id = u.tenantId ∧ r.Switches env tenant u.email

/-! ### Replies -/

/-- The account is still there. -/
def Stored (u : User) (s : Db) : Prop := ∃ row ∈ s.users.rows, u.Keeps row

theorem Stored.kept {env : Env} {u : User} {s : Db} (h : Stored u s) (op : Op) (draw : Draw) :
    Stored u (exec env op draw s).1 := by
  obtain ⟨row, hrow, hid, htenant, hemail⟩ := h
  obtain ⟨row', hrow', hid', htenant', hemail'⟩ := users_grow env op draw s row hrow
  exact ⟨row', hrow', hid'.trans hid, htenant'.trans htenant, hemail'.trans hemail⟩

theorem sameUser_symm (a b : User) : sameUser a b = sameUser b a := by
  simp only [sameUser, Bool.beq_comm (a := a.id), Bool.beq_comm (a := a.tenantId),
    Bool.beq_comm (a := a.email)]

/-- A row with the id of the account is its row. -/
theorem Stored.keeps {u row : User} {s : Db} (h : Stored u s) (hrow : row ∈ s.users.rows)
    (hid : row.id = u.id) : u.Keeps row := by
  obtain ⟨own, hown, hkeeps⟩ := h
  have hclash : sameUser row own = true := by simp [sameUser, hid, hkeeps.1]
  rwa [Table.eq_of_clash sameUser_symm hrow hown hclash]

/-- The tenants. -/
def Db.organizations (s : Db) : Set Tenant := {t | t ∈ s.tenants.rows}

/-- What a reply tells a request that presents no credential of `u`. -/
def Op.Spares (env : Env) (u : User) (r : Request) (w : Set Tenant) :
    (op : Op) → op.Reply → Prop
  | .db (.createUser _), .ok user => user.id ≠ u.id
  | .db (.getUserById id), .ok user => user.id = id
  | .db (.getTenantBySlug slug), .ok tenant =>
    tenant ∈ w ∧ tenant.slug = slug ∧ tenant.isActive = true
  | .db (.findUserByEmail tenantId email), .ok (some user) => user.id = u.id →
    normalizeEmail env email = u.email ∧ ¬ r.Opens env user ∧
      ∀ tenant ∈ w, tenant.id = tenantId → ¬ r.Switches env tenant u.email
  | .db (.findUsersByEmail email), .ok users => ∀ user ∈ users, user.id = u.id →
    normalizeEmail env email = u.email ∧ ¬ r.Opens env user
  | .db (.findValidRefreshToken hash), .ok token =>
    token.tokenHash = hash ∧ (token.userId = u.id → ¬ r.Renews env token)
  | .db (.peekMagicLink hash), .ok (some link) =>
    link.tokenHash = hash ∧ (normalizeEmail env link.email = u.email → ¬ r.Follows env link)
  | _, _ => True

/-- The request answers with no session of `u`. -/
def apart (env : Env) (u : User) (r : Request) :
    Contract (Set Tenant) Op Op.Reply (Except AppError Answer) where
  pre _ _ := True
  post w op reply := op.Spares env u r w reply
  ans _ answer := ∀ session, answer = .ok (.session session) → session.claims.sub ≠ u.id

theorem apart_stable (env : Env) (u : User) (r : Request) : (apart env u r).Stable where
  pre := fun _ _ => trivial
  ans := fun _ h => h

theorem organizations_le (env : Env) (op : Op) (draw : Draw) (s : Db) :
    s.organizations ≤ (exec env op draw s).1.organizations := by
  intro tenant htenant
  obtain ⟨tenant', htenant', rfl⟩ := tenants_grow env op draw s tenant htenant
  exact htenant'

/-- **The replies, where the request presents no credential of `u`** and does not switch to
it. -/
theorem apart_honest {env : Env} {u : User} {r : Request} {s : Db} (hstored : Stored u s)
    (hcredential : ¬ CredentialOf env u s r) (hswitch : ¬ SwitchesInto env u s r) :
    Honest (apart env u r) (exec env) Db.organizations s := by
  intro op draw _
  refine ⟨organizations_le env op draw s, ?_⟩
  show op.Spares env u r _ (exec env op draw s).2
  have hopens : ∀ user ∈ s.users.rows, user.id = u.id → ¬ r.Opens env user :=
    fun user huser hid h => hcredential (.password user huser hid h)
  cases op with
  | db op =>
      cases op with
      | createUser input =>
          simp only [exec, execDb]
          rcases insertRow_cases s.users (userRow env draw.uuid input) "users_tenant_id_email_key"
            (fun users => { s with users }) s with ⟨e, h⟩ | ⟨row, t, -, hfree, -, h⟩
          · rw [h]
            trivial
          · obtain ⟨own, hown, hid, -⟩ := hstored
            have hfresh := hfree own hown
            rw [h]
            intro heq
            simp [sameUser, hid, ← show row.id = u.id from heq] at hfresh
      | getUserById id =>
          generalize hreply : (exec env (.db (.getUserById id)) draw s).2 = reply
          cases reply with
          | error e => trivial
          | ok user =>
              obtain ⟨-, huser⟩ := fetchOne_eq_ok hreply
              simp only [Bool.and_eq_true, beq_iff_eq] at huser
              exact huser.1
      | getTenantBySlug slug =>
          generalize hreply : (exec env (.db (.getTenantBySlug slug)) draw s).2 = reply
          cases reply with
          | error e => trivial
          | ok tenant =>
              obtain ⟨hmem, htenant⟩ := fetchOne_eq_ok hreply
              simp only [Bool.and_eq_true, beq_iff_eq] at htenant
              exact ⟨hmem, htenant⟩
      | findUserByEmail tenantId email =>
          simp only [exec, execDb]
          generalize hfind : (s.users.rows.find? fun u =>
            u.tenantId == tenantId && u.email == normalizeEmail env email && u.isActive) = found
          cases found with
          | none => trivial
          | some user =>
              have huser := List.mem_of_find?_eq_some hfind
              have hmatch := List.find?_some hfind
              simp only [Bool.and_eq_true, beq_iff_eq] at hmatch
              intro hid
              obtain ⟨-, htenant, hemail⟩ := hstored.keeps huser hid
              refine ⟨hmatch.1.2.symm.trans hemail, hopens user huser hid, ?_⟩
              intro tenant hmem htid hswitches
              refine hswitch ⟨⟨user, huser, hid, hmatch.2⟩, tenant, hmem, ?_, hswitches⟩
              rw [htid, ← hmatch.1.1, htenant]
      | findUsersByEmail email =>
          intro user huser hid
          simp only [List.mem_filter, Bool.and_eq_true, beq_iff_eq] at huser
          obtain ⟨-, -, hemail⟩ := hstored.keeps huser.1 hid
          exact ⟨huser.2.1.symm.trans hemail, hopens user huser.1 hid⟩
      | findValidRefreshToken hash =>
          generalize hreply : (exec env (.db (.findValidRefreshToken hash)) draw s).2 = reply
          cases reply with
          | error e => trivial
          | ok token =>
              obtain ⟨hmem, htoken⟩ := fetchOne_eq_ok hreply
              simp only [RefreshToken.valid, Bool.and_eq_true, beq_iff_eq] at htoken
              exact ⟨htoken.1.1, fun hid h => hcredential (.refresh token hmem hid h)⟩
      | peekMagicLink hash =>
          simp only [exec, execDb]
          generalize hfind : s.magicLinks.rows.find? (·.usable s.now hash) = found
          cases found with
          | none => trivial
          | some link =>
              have hlink := List.mem_of_find?_eq_some hfind
              have husable := List.find?_some hfind
              simp only [MagicLinkToken.usable, Bool.and_eq_true, beq_iff_eq] at husable
              exact ⟨husable.1.1, fun hemail h => hcredential (.link link hlink hemail h)⟩
      | _ => trivial
  | _ => trivial

/-! ### Handlers -/

section Handlers

variable {env : Env} {u : User} {r : Request} {w : Set Tenant}

theorem apart_error (w : Set Tenant) (e : AppError) : (apart env u r).ans w (.error e) := by
  intro session h
  cases h

theorem apart_answer {answer : Answer} (h : ¬ IsSession (.ok answer)) :
    Keeps (apart env u r) w (.answer (.ok answer)) := by
  intro session hanswer
  cases hanswer
  exact absurd trivial h

theorem apart_query {op : DbOp} {mapErr : DbError → AppError} {next : op.Value → Endpoint}
    (hnext : ∀ w' value, w ≤ w' → (Op.db op).Spares env u r w' (.ok value) →
      Keeps (apart env u r) w' (next value)) : Keeps (apart env u r) w (queryOr op mapErr next) :=
  keeps_queryOr apart_error trivial hnext

theorem apart_issueSession {user : User} {tenant : Tenant} {roleNames : List String}
    (hid : user.id ≠ u.id) : Keeps (apart env u r) w (issueSession env user tenant roleNames) := by
  refine keeps_issueSession apart_error (fun _ _ _ => trivial) ?_
  intro w' issued _ hof session hsession
  cases hsession
  rw [hof.sub]
  exact hid

theorem apart_issueWithRoles {user : User} {tenant : Tenant} (hid : user.id ≠ u.id) :
    Keeps (apart env u r) w (issueWithRoles env user tenant) :=
  apart_query fun _ _ _ _ => apart_issueSession hid

theorem apart_hashPassword {password : String} {next : String → Endpoint}
    (hnext : ∀ w' passwordHash, Keeps (apart env u r) w' (next passwordHash)) :
    Keeps (apart env u r) w (hashPassword password next) := by
  refine ⟨trivial, fun w' reply _ _ => ?_⟩
  cases reply with
  | error e => exact apart_error w' _
  | ok passwordHash => exact hnext w' passwordHash

theorem apart_createRoles {tenantId : Uuid} {next : Endpoint}
    (hnext : ∀ w', Keeps (apart env u r) w' next) (roles : List (String × List String)) :
    Keeps (apart env u r) w (createRoles env tenantId roles next) := by
  induction roles generalizing w with
  | nil => exact hnext w
  | cons role rest ih => exact apart_query fun _ _ _ _ => ih

theorem apart_picker (users : List User) :
    Keeps (apart env u r) w (listOrgs orgPicker users []) := by
  refine keeps_listOrgs (fun _ _ => trivial) (fun w' orgs => ?_) users []
  show Keeps (apart env u r) w' (.answer (.ok (.orgPicker orgs)))
  exact apart_answer not_false

/-- A new account is none that is there. -/
theorem apart_register (req : RegisterRequest) : Keeps (apart env u r) w (register env req) := by
  refine keeps_guarded apart_error fun _ => apart_query fun w₁ hasTenants _ _ => ?_
  split
  · exact apart_error w₁ _
  · refine apart_query fun w₂ tenant _ _ => apart_createRoles (fun w₃ => ?_) systemRoles
    refine apart_hashPassword fun w₄ passwordHash => apart_query fun w₅ user _ huser => ?_
    exact apart_query fun _ _ _ _ => apart_query fun _ _ _ _ => apart_issueSession huser

theorem apart_acceptInvite (req : AcceptInviteRequest) :
    Keeps (apart env u r) w (acceptInvite env req) := by
  refine keeps_guarded apart_error fun _ => apart_query fun w₁ found _ _ => ?_
  cases found with
  | none => exact apart_error w₁ _
  | some invite =>
      refine apart_query fun w₂ tenant _ _ => apart_query fun w₃ role _ _ => ?_
      refine apart_hashPassword fun w₄ passwordHash => apart_query fun w₅ user _ huser => ?_
      exact apart_query fun _ _ _ _ => apart_issueSession huser

/-- The end of a login: a password that does not open `u` signs nobody in as `u`. -/
theorem apart_signIn (req : LoginRequest) (tenant : Tenant) {user : User}
    (hopens : user.id = u.id → ¬ env.verifyPassword req.password user.passwordHash = .ok true) :
    Keeps (apart env u (.login req)) w
      (match env.verifyPassword req.password user.passwordHash with
      | .error e => refuse (.internal e)
      | .ok false => refuse invalidCredentials
      | .ok true => issueWithRoles env user tenant) := by
  split
  · exact apart_error w _
  · exact apart_error w _
  · rename_i hverified
    exact apart_issueWithRoles fun hid => hopens hid hverified

/-- The password is not that of `u`. -/
theorem apart_login (req : LoginRequest) : Keeps (apart env u (.login req)) w (login env req) := by
  unfold login
  cases givenSlug req.tenantSlug with
  | some slug =>
      refine keeps_memberBySlug apart_error (fun _ => trivial) (fun _ _ => trivial) ?_
      intro w₁ w₂ tenant user _ _ _ huser
      exact apart_signIn req tenant fun hid => (huser hid).2.1
  | none =>
      refine apart_query fun w₁ users _ husers => ?_
      rcases users with _ | ⟨user, _ | ⟨other, users⟩⟩
      · exact apart_error w₁ _
      · refine apart_query fun w₂ tenant _ _ => apart_signIn req tenant fun hid => ?_
        exact (husers user List.mem_cons_self hid).2
      · exact apart_picker (user :: other :: users)

/-- The refresh token is none of `u`. -/
theorem apart_refresh (cookies : List String) :
    Keeps (apart env u (.refresh cookies)) w (refresh env cookies) := by
  unfold refresh
  cases hcookie : extractCookie cookies "fp_refresh" with
  | none => exact apart_error w _
  | some token =>
      refine apart_query fun w₁ stored _ hstored => apart_query fun w₂ user _ huser => ?_
      have hid : user.id ≠ u.id := by
        intro hid
        refine hstored.2 (huser.symm.trans hid) ?_
        show (extractCookie cookies "fp_refresh").map env.sha256 = some stored.tokenHash
        rw [hcookie, hstored.1]
        rfl
      refine apart_query fun w₃ tenant _ _ => ?_
      refine Keeps.bind (c := apart env u (.refresh cookies)) (apart_issueWithRoles hid) ?_
      intro w₄ answer _ hanswer
      cases answer with
      | error e => exact apart_error w₄ e
      | ok answer => exact ⟨trivial, fun _ _ _ _ => hanswer, fun _ _ => hanswer⟩

/-- The link went to another address. -/
theorem apart_magicLinkVerify (req : MagicLinkVerifyRequest) :
    Keeps (apart env u (.magicLinkVerify req)) w (magicLinkVerify env req) := by
  have hconsume : ∀ w' tenant user, user.id ≠ u.id → Keeps (apart env u (.magicLinkVerify req)) w'
      (consumeLink env (env.sha256 req.token) tenant user) := by
    intro w' tenant user hid
    refine apart_query fun w'' consumed _ _ => ?_
    cases consumed with
    | none => exact apart_error w'' _
    | some link => exact apart_issueWithRoles hid
  refine apart_query fun w₁ found _ hfound => ?_
  cases found with
  | none => exact apart_error w₁ _
  | some link =>
      have hemail : normalizeEmail env link.email ≠ u.email := by
        intro hemail
        exact hfound.2 hemail hfound.1.symm
      dsimp only
      cases givenSlug req.tenantSlug with
      | some slug =>
          refine keeps_memberBySlug apart_error (fun _ => trivial) (fun _ _ => trivial) ?_
          intro w₂ w₃ tenant user _ _ _ huser
          exact hconsume w₃ tenant user fun hid => hemail (huser hid).1
      | none =>
          refine apart_query fun w₂ users _ husers => ?_
          match users with
          | [] => exact apart_error w₂ _
          | [user] =>
              refine apart_query fun w₃ tenant _ _ => hconsume w₃ tenant user fun hid => ?_
              exact hemail (husers user List.mem_cons_self hid).1
          | user :: other :: users => exact apart_picker (user :: other :: users)

/-- The address in the token is not that of `u`, or the organisation is another. -/
theorem apart_switchOrg (claims : Except AppError Claims) (tenantSlug : String) :
    Keeps (apart env u (.switchOrg claims tenantSlug)) w (switchOrg env claims tenantSlug) := by
  cases claims with
  | error e => exact apart_error w e
  | ok claims =>
      refine keeps_memberBySlug apart_error (fun _ => trivial) (fun _ _ => trivial) ?_
      intro w₁ w₂ tenant user _ hle htenant huser
      refine apart_issueWithRoles fun hid => ?_
      obtain ⟨hmem, hslug, hactive⟩ := htenant
      obtain ⟨hemail, -, hswitches⟩ := huser hid
      exact hswitches tenant (hle hmem) rfl ⟨hemail, hslug, hactive⟩

theorem apart_magicLinkRequest (address : String) :
    Keeps (apart env u r) w (magicLinkRequest env address) := by
  unfold magicLinkRequest
  split
  · dsimp only
    split
    · exact apart_error w _
    · refine apart_query fun w₁ users _ _ => ?_
      cases users with
      | nil => exact apart_answer not_false
      | cons user users =>
          refine ⟨trivial, fun w₂ token _ _ => ⟨trivial, fun w₃ now _ _ => ?_⟩⟩
          exact apart_query fun _ _ _ _ => ⟨trivial, fun _ _ _ _ => apart_answer not_false⟩
  · exact apart_error w _

theorem apart_inviteMember (caller : CurrentUser) (address role : String) :
    Keeps (apart env u r) w (inviteMember env caller address role) := by
  refine keeps_guarded apart_error fun _ => ?_
  dsimp only
  split
  · refine apart_query fun w₁ existing _ _ => apart_query fun w₂ _ _ _ => ?_
    split
    · exact apart_error w₂ _
    · refine ⟨trivial, fun w₃ token _ _ => ⟨trivial, fun w₄ now _ _ => ?_⟩⟩
      refine apart_query fun w₅ invite _ _ => apart_query fun w₆ _ _ _ => ?_
      exact ⟨trivial, fun _ _ _ _ => apart_answer not_false⟩
  · exact apart_error w _

theorem apart_removeMember (caller : CurrentUser) (memberId : Uuid) :
    Keeps (apart env u r) w (removeMember env caller memberId) := by
  refine keeps_guarded apart_error fun _ => ?_
  split
  · exact apart_error w _
  · refine apart_query fun w₁ target _ _ => ?_
    split
    · exact apart_query fun _ _ _ _ => apart_answer not_false
    · exact apart_error w₁ _

theorem apart_resetMemberPassword (caller : CurrentUser) (memberId : Uuid) (password : String) :
    Keeps (apart env u r) w (resetMemberPassword env caller memberId password) := by
  refine keeps_guarded apart_error fun _ => keeps_guarded apart_error fun _ => ?_
  refine apart_hashPassword fun w₁ passwordHash => apart_query fun w₂ rowsAffected _ _ => ?_
  split
  · exact apart_error w₂ _
  · exact apart_query fun _ _ _ _ => apart_answer not_false

/-- **No request that presents no credential of `u` is answered with a session of `u`.** -/
theorem apart_program (env : Env) (u : User) (r : Request) (w : Set Tenant) :
    Keeps (apart env u r) w (r.program env) := by
  cases r with
  | register req => exact apart_register req
  | login req => exact apart_login req
  | refresh cookies => exact apart_refresh cookies
  | switchOrg claims tenantSlug => exact apart_switchOrg claims tenantSlug
  | acceptInvite req => exact apart_acceptInvite req
  | magicLinkRequest email => exact apart_magicLinkRequest email
  | magicLinkVerify req => exact apart_magicLinkVerify req
  | inviteMember caller email role => exact apart_inviteMember caller email role
  | removeMember caller memberId => exact apart_removeMember caller memberId
  | resetMemberPassword caller memberId password =>
      exact apart_resetMemberPassword caller memberId password

end Handlers

/-! ### Runs -/

/-- Where a request of the party takes a step, it presents no credential of `u` and does not
switch to `u`. -/
def Outsider (env : Env) (u : User) (party : Nat → Prop) (p : ApiPool) :
    Action Draw Request Nat → Prop
  | .advance i _ _ => party i → ∀ t, p.threads[i]? = some t →
    ¬ CredentialOf env u p.state t.request ∧ ¬ SwitchesInto env u p.state t.request
  | _ => True

/-- The account is there, and the requests of the party are answered with no session of it. -/
structure KeptApart (env : Env) (u : User) (party : Nat → Prop) (p : ApiPool) : Prop where
  stored : Stored u p.state
  threads : ∀ i t, party i → p.threads[i]? = some t →
    Keeps (apart env u t.request) p.state.organizations t.program

theorem keptApart_step (env : Env) (u : User) (party : Nat → Prop) (p : ApiPool)
    (a : Action Draw Request Nat) (hp : KeptApart env u party p) (hok : Outsider env u party p a) :
    KeptApart env u party ((api env).step p a) := by
  rcases (api env).step_cases p a with h | ⟨request, rfl, h⟩ |
    ⟨i, fate, draw, t, s', h', op, rfl, ht, -, hmove, h⟩ | ⟨seconds, rfl, h⟩
  · rw [h]
    exact hp
  · rw [h]
    refine ⟨hp.stored, fun j v hj hv => ?_⟩
    rcases getElem?_append_one hv with hv | rfl
    · exact hp.threads j v hj hv
    · exact apart_program env u request _
  · have hstate : Stored u s' ∧ p.state.organizations ≤ s'.organizations := by
      rcases hmove.state with ⟨-, rfl⟩ | ⟨o, draw, -, -, rfl⟩
      · exact ⟨hp.stored, le_rfl⟩
      · exact ⟨hp.stored.kept o draw, organizations_le env o draw p.state⟩
    rw [h]
    refine ⟨hstate.1, fun j v hj hv => ?_⟩
    rcases getElem?_set_cases hv with ⟨rfl, rfl⟩ | ⟨-, hv⟩
    · obtain ⟨hcredential, hswitch⟩ := hok hj t ht
      exact ((hp.threads j t hj ht).moves (apart_honest hp.stored hcredential hswitch) hmove).2
    · exact (hp.threads j v hj hv).mono (apart_stable env u v.request) hstate.2
  · rw [h]
    exact ⟨hp.stored, hp.threads⟩

/-- **No session without a credential.** In every run, a party that presents no credential of
`u`, and switches to it by no token of its address, is issued no session of `u`. -/
theorem no_takeover (env : Env) (u : User) (party : Nat → Prop) (db : Db) (hu : u ∈ db.users.rows)
    (inputs : List (Action Draw Request Nat))
    (hall : AllSteps (api env).step (Outsider env u party) (idlePool db) inputs) (i : Nat)
    (t : ApiThread) (session : Session) (hi : party i)
    (ht : (run (api env).step (idlePool db) inputs).threads[i]? = some t)
    (hanswer : t.program = .answer (.ok (.session session))) : session.claims.sub ≠ u.id := by
  have hstart : KeptApart env u party (idlePool db) := by
    refine ⟨⟨u, hu, rfl, rfl, rfl⟩, fun j v _ hv => ?_⟩
    exact absurd (List.mem_of_getElem? hv) not_mem_idle
  have hkeeps := (hall.invariant _ (keptApart_step env u party) hstart).threads i t hi ht
  rw [hanswer] at hkeeps
  exact hkeeps session rfl

/-! ### By the address alone -/

theorem not_credential_register (env : Env) (u : User) (s : Db) (req : RegisterRequest) :
    ¬ CredentialOf env u s (.register req) := by
  intro h
  cases h with
  | password _ _ _ h => exact h
  | link _ _ _ h => exact h
  | invite _ _ _ h => exact h
  | manager h => exact h
  | access h => exact h
  | refresh _ _ _ h => exact h

theorem not_credential_switchOrg (env : Env) {u : User} (s : Db) {claims : Claims} (slug : String)
    (hsub : claims.sub ≠ u.id) : ¬ CredentialOf env u s (.switchOrg (.ok claims) slug) := by
  intro h
  cases h with
  | password _ _ _ h => exact h
  | link _ _ _ h => exact h
  | invite _ _ _ h => exact h
  | manager h => exact h
  | access h => exact hsub h
  | refresh _ _ _ h => exact h

/-- Signup is open. -/
def openEnv : Env := { plainEnv with allowSignup := true }

def sampleAnn : User := sampleMember 1 "ann@acme.io"

/-- A new organisation, by someone who gives the address of another. -/
def sampleIntruder : RegisterRequest :=
  { tenantName := "Umbrella", tenantSlug := "umbrella", email := "ann@acme.io",
    password := "long enough", displayName := none }

/-- The request comes in and takes `n` steps, which go through. -/
def sampleRequest (r : Request) (i n first : Nat) : List (Action Draw Request Nat) :=
  .arrive r :: (List.range n).map fun k => .advance i .done (draw (BitVec.ofNat 128 (first + k)))

def sampleSignup : List (Action Draw Request Nat) :=
  sampleRequest (.register sampleIntruder) 0 15 1000

/-- What the access token of the new account says. -/
def sampleClaims : Claims :=
  { sub := 1007, tid := 1001, email := "ann@acme.io", roles := ["admin"],
    permissions := PERMISSIONS, iat := 100, exp := 1000 }

def sampleSwitch : List (Action Draw Request Nat) :=
  sampleRequest (.switchOrg (.ok sampleClaims) "acme") 1 8 2000

/-- The new account is not the one whose address it gives. -/
theorem no_takeover_signup :
    ∃ t session, (run (api openEnv).step (idlePool sampleDb) sampleSignup).threads[0]? = some t ∧
      t.program = .answer (.ok (.session session)) ∧ session.claims.sub ≠ sampleAnn.id := by
  have hrequests := (api openEnv).allSteps_requests (· = .register sampleIntruder) (idlePool sampleDb)
    sampleSignup (fun _ ht => absurd ht not_mem_idle) (by simp [sampleSignup, sampleRequest])
  have hall : AllSteps (api openEnv).step (Outsider openEnv sampleAnn fun _ => True)
      (idlePool sampleDb) sampleSignup := by
    refine hrequests.of_invariant (fun _ => True) (fun _ _ _ _ => trivial) ?_ trivial
    intro p a _ hrequest
    cases a with
    | arrive r => trivial
    | world seconds => trivial
    | advance i fate draw =>
        intro _ t ht
        rw [hrequest i fate draw t rfl ht]
        exact ⟨not_credential_register _ _ _ _, fun h => h.2.elim fun _ h => h.2.2⟩
  exact ⟨_, _, rfl, rfl, no_takeover openEnv sampleAnn (fun _ => True) sampleDb List.mem_cons_self
    sampleSignup hall 0 _ _ trivial rfl rfl⟩

/-- Someone registers an organisation with Ann's address, and the token of that account
switches to Ann's. -/
theorem takeover_by_address :
    sampleAnn ∈ sampleDb.users.rows ∧
      AllSteps (api openEnv).step (fun p a => ∀ i fate draw t, a = .advance i fate draw →
          p.threads[i]? = some t → ¬ CredentialOf openEnv sampleAnn p.state t.request)
        (idlePool sampleDb) (sampleSignup ++ sampleSwitch) ∧
      let p := run (api openEnv).step (idlePool sampleDb) (sampleSignup ++ sampleSwitch)
      ∃ t₀ own t₁ stolen, p.threads[0]? = some t₀ ∧ t₀.program = .answer (.ok (.session own)) ∧
        own.claims = sampleClaims ∧ p.threads[1]? = some t₁ ∧
        t₁.program = .answer (.ok (.session stolen)) ∧ stolen.claims.sub = sampleAnn.id := by
  refine ⟨List.mem_cons_self, ?_, _, _, _, _, rfl, rfl, rfl, rfl, rfl, rfl⟩
  have hrequests := (api openEnv).allSteps_requests
    (fun r => r = .register sampleIntruder ∨ r = .switchOrg (.ok sampleClaims) "acme")
    (idlePool sampleDb) (sampleSignup ++ sampleSwitch) (fun _ ht => absurd ht not_mem_idle)
    (by simp [sampleSignup, sampleSwitch, sampleRequest])
  refine hrequests.of_invariant (fun _ => True) (fun _ _ _ _ => trivial) ?_ trivial
  intro p a _ hrequest i fate draw t ha ht
  rcases hrequest i fate draw t ha ht with h | h
  · rw [h]
    exact not_credential_register _ _ _ _
  · rw [h]
    exact not_credential_switchOrg _ _ _ (by decide)

end Feloxi.Auth
