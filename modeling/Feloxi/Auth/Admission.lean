import Feloxi.Auth.ApiKeys
import Feloxi.Auth.Takeover
import Feloxi.Ws.Dashboard
import Mathlib.Data.Set.BooleanAlgebra
import Mathlib.Order.CompletePartialOrder

/-!
# Feloxi.Auth.Admission

How a request gets in (`crates/auth/src/middleware.rs`, `crates/auth/src/jwt.rs`). An access token
is believed for a quarter of an hour, whatever becomes of its user; an API key is looked up each
time. Users get roles and never lose one, so what a token says of its user's rights stays true.
What a token does outlive is the removal of its user.
-/

namespace Feloxi.Auth

open Handlers Runs
open Tables (Table)
open Ws (currentUser extractCookieToken)

/-! ### Access tokens -/

/-- The `leeway` of `Validation::default`. -/
def LEEWAY_SECS : Nat := 60

/-- `verify_access_token`, for the claims that tokens carry, where nobody else can sign. -/
def verifyAccessToken (decode : String → Option Claims) (signed : List Claims) (now : Instant)
    (token : String) : Option Claims := do
  let claims ← decode token
  if claims ∈ signed ∧ now ≤ claims.exp + LEEWAY_SECS then some claims else none

/-- The claims in the session that a request is answered with. -/
def sessionClaims (t : ApiThread) : Option Claims :=
  match t.program with
  | .answer (.ok (.session session)) => some session.claims
  | _ => none

/-- The tokens that were given out. -/
def signedClaims (p : ApiPool) : List Claims := p.threads.filterMap sessionClaims

/-! ### The middleware -/

/-- The headers that the middleware reads, as far as they are text. -/
structure RequestHeaders where
  authorization : Option String
  cookies : List String
  deriving Repr, DecidableEq

def extractBearerToken (headers : RequestHeaders) : Option String :=
  headers.authorization.bind fun v =>
    let lead := "Bearer ".toList
    if lead.isPrefixOf v.toList then some (String.ofList (v.toList.drop lead.length)) else none

def sessionUser (decode : String → Option Claims) (signed : List Claims) (now : Instant)
    (token : String) : Except StatusCode CurrentUser :=
  match verifyAccessToken decode signed now token with
  | some claims => .ok (currentUser claims)
  | none => .error .unauthorized

/-- `auth_middleware`, up to the request that it lets pass. -/
def authMiddleware (env : Env) (decode : String → Option Claims) (signed : List Claims) (s : KeyDb)
    (headers : RequestHeaders) : Except StatusCode CurrentUser :=
  match extractBearerToken headers with
  | some bearer =>
    if KEY_PREFIX.toList.isPrefixOf bearer.toList then authenticateApiKey env bearer s
    else sessionUser decode signed s.accounts.now bearer
  | none =>
    match extractCookieToken headers.cookies with
    | some token => sessionUser decode signed s.accounts.now token
    | none => .error .unauthorized

theorem extractBearerToken_bearer (token : String) (cookies : List String) :
    extractBearerToken ⟨some ("Bearer " ++ token), cookies⟩ = some token := by
  have hlead : "Bearer ".toList.isPrefixOf ("Bearer ".toList ++ token.toList) = true :=
    List.isPrefixOf_iff_prefix.2 (List.prefix_append _ _)
  simp only [extractBearerToken, Option.bind_some, String.toList_append, hlead, if_true,
    List.drop_left, String.ofList_toList]

theorem sessionUser_ok {decode : String → Option Claims} {signed : List Claims} {now : Instant}
    {token : String} {user : CurrentUser} :
    sessionUser decode signed now token = .ok user ↔ ∃ claims ∈ signed,
      decode token = some claims ∧ now ≤ claims.exp + LEEWAY_SECS ∧
        user = currentUser claims := by
  unfold sessionUser verifyAccessToken
  cases hdecode : decode token with
  | none => simp
  | some claims =>
      by_cases hvalid : claims ∈ signed ∧ now ≤ claims.exp + LEEWAY_SECS
      · simp [hvalid, eq_comm]
      · simp only [Option.bind_eq_bind, Option.bind_some, if_neg hvalid, reduceCtorEq, false_iff]
        rintro ⟨claims', hsigned, heq, hlive, -⟩
        obtain rfl := Option.some.inj heq
        exact hvalid ⟨hsigned, hlive⟩

/-- A request gets in with a token that was signed, or with a key. -/
theorem authMiddleware_ok {env : Env} {decode : String → Option Claims} {signed : List Claims}
    {s : KeyDb} {headers : RequestHeaders} {user : CurrentUser}
    (h : authMiddleware env decode signed s headers = .ok user) :
    (∃ claims ∈ signed, s.accounts.now ≤ claims.exp + LEEWAY_SECS ∧ user = currentUser claims) ∨
      ∃ raw, authenticateApiKey env raw s = .ok user := by
  have hsession : ∀ token, sessionUser decode signed s.accounts.now token = .ok user →
      ∃ claims ∈ signed, s.accounts.now ≤ claims.exp + LEEWAY_SECS ∧ user = currentUser claims := by
    intro token htoken
    obtain ⟨claims, hsigned, -, hlive, huser⟩ := sessionUser_ok.1 htoken
    exact ⟨claims, hsigned, hlive, huser⟩
  unfold authMiddleware at h
  split at h
  · split at h
    · exact .inr ⟨_, h⟩
    · exact .inl (hsession _ h)
  · split at h
    · exact .inl (hsession _ h)
    · cases h

/-- **Who a key stands for**: an active user, with rights that its roles give now. -/
theorem authenticateApiKey_ok {env : Env} {raw : String} {s : KeyDb} {user : CurrentUser}
    (h : authenticateApiKey env raw s = .ok user) :
    user.roles = [] ∧ (∃ u ∈ s.accounts.users.rows, u.id = user.userId ∧ u.isActive = true) ∧
      ∀ q ∈ user.permissions, s.held user.userId q = true := by
  unfold authenticateApiKey at h
  split at h
  · cases h
  · rename_i key hkey
    obtain ⟨hid, hroles, hpermissions⟩ := keyUser_ok h
    refine ⟨hroles, ?_, fun q hq => ?_⟩
    · unfold keyUser at h
      split at h
      · cases h
      · split at h
        · cases h
        · rename_i creator hcreator
          obtain ⟨hmem, hactive⟩ := fetchOne_eq_ok hcreator
          simp only [Bool.and_eq_true, beq_iff_eq] at hactive
          exact ⟨creator, hmem, hactive.1.trans hid.symm, hactive.2⟩
    · rw [hpermissions] at hq
      rw [hid]
      exact (mem_effective.1 hq).2.2

/-! ### What is known of roles -/

/-- The roles, who was given which, and the time. -/
abbrev Standing := Set Role × Set (Uuid × Uuid) × Instant

def Standing.Has (w : Standing) (userId : Uuid) (r : Role) : Prop :=
  r ∈ w.1 ∧ (userId, r.id) ∈ w.2.1

def Db.standing (s : Db) : Standing := ({r | r ∈ s.roles.rows}, {given | given ∈ s.userRoles}, s.now)

theorem Standing.Has.mono {w w' : Standing} {userId : Uuid} {r : Role} (h : w.Has userId r)
    (hle : w ≤ w') : w'.Has userId r :=
  ⟨hle.1 h.1, hle.2.1 h.2⟩

theorem has_standing {s : Db} {userId : Uuid} {r : Role} :
    s.standing.Has userId r ↔ r ∈ s.rolesOf userId := by
  simp [Standing.Has, Db.standing, Db.rolesOf]

/-- **Roles are given and never taken.** -/
theorem standing_le (env : Env) (op : Op) (draw : Draw) (s : Db) :
    s.standing ≤ (exec env op draw s).1.standing := by
  have heffect := exec_effect env op draw s
  generalize (exec env op draw s).1 = s' at heffect ⊢
  cases heffect with
  | role _ _ _ _ row t _ _ ht =>
      refine ⟨fun r hr => ?_, le_rfl, le_rfl⟩
      show r ∈ t.rows
      rw [ht]
      exact List.mem_append_left _ hr
  | assign userId roleId => exact ⟨le_rfl, fun given h => List.mem_append_left _ h, le_rfl⟩
  | _ => exact le_rfl

/-- The account was removed. -/
def Db.Retired (userId : Uuid) (s : Db) : Prop :=
  ∃ u ∈ s.users.rows, u.id = userId ∧ u.isActive = false

theorem Db.Retired.kept {userId : Uuid} {s : Db} (h : s.Retired userId) (env : Env) (op : Op)
    (draw : Draw) : (exec env op draw s).1.Retired userId := by
  obtain ⟨u, hu, hid, hinactive⟩ := h
  have heffect := exec_effect env op draw s
  generalize (exec env op draw s).1 = s' at heffect ⊢
  cases heffect with
  | user _ row t _ _ ht =>
      refine ⟨u, ?_, hid, hinactive⟩
      rw [ht]
      exact List.mem_append_left _ hu
  | password id tenantId passwordHash =>
      obtain ⟨hid', -, -, hactive'⟩ := u.setPassword_keys id tenantId passwordHash
      exact ⟨_, List.mem_map_of_mem hu, hid'.trans hid, hactive'.trans hinactive⟩
  | deactivate id =>
      obtain ⟨hid', -⟩ := u.deactivate_keys id
      refine ⟨_, List.mem_map_of_mem hu, hid'.trans hid, ?_⟩
      unfold User.deactivate
      split <;> simp [hinactive]
  | _ => exact ⟨u, hu, hid, hinactive⟩

/-- An active row is of another account. -/
theorem Db.Retired.ne {userId : Uuid} {s : Db} (h : s.Retired userId) {u : User}
    (hu : u ∈ s.users.rows) (hactive : u.isActive = true) : u.id ≠ userId := by
  obtain ⟨v, hv, hid, hinactive⟩ := h
  rintro rfl
  have hclash : sameUser u v = true := by simp [sameUser, hid]
  have hsymm : ∀ a b, sameUser a b = sameUser b a := by
    intro a b
    simp only [sameUser, Bool.beq_comm (a := a.id), Bool.beq_comm (a := a.tenantId),
      Bool.beq_comm (a := a.email)]
  rw [Table.eq_of_clash hsymm hu hv hclash, hinactive] at hactive
  cases hactive

/-! ### What a token says -/

/-- What a reply tells of roles, of the time and of the accounts that are gone. -/
def Op.Certifies (gone : Set Uuid) (w : Standing) : (op : Op) → op.Reply → Prop
  | .clock, now => now ≤ w.2.2
  | .db (.getUserRoles id), .ok roles => ∀ r ∈ roles, w.Has id r
  | .db (.getRoleByName _ name), .ok role => role.name = name ∧ role ∈ w.1
  | .db (.assignRole userId roleId), .ok () => (userId, roleId) ∈ w.2.1
  | .db (.createUser _), .ok user => user.id ∉ gone
  | .db (.getUserById _), .ok user => user.id ∉ gone
  | .db (.findUserByEmail _ _), .ok (some user) => user.id ∉ gone
  | .db (.findUsersByEmail _), .ok users => ∀ user ∈ users, user.id ∉ gone
  | _, _ => True

/-- The claims are of an account that is not gone, with the rights of its roles. -/
structure Claims.Certified (gone : Set Uuid) (w : Standing) (c : Claims) : Prop where
  issued : c.iat ≤ w.2.2
  expires : c.exp = c.iat + ACCESS_TOKEN_TTL_SECS
  present : c.sub ∉ gone
  roles : ∀ name ∈ c.roles, ∃ r, w.Has c.sub r ∧ r.name = name
  permissions : ∀ q ∈ c.permissions, ∃ r, w.Has c.sub r ∧ q ∈ r.permissions

theorem Claims.Certified.mono {gone : Set Uuid} {w w' : Standing} {c : Claims}
    (h : c.Certified gone w) (hle : w ≤ w') : c.Certified gone w' where
  issued := h.issued.trans hle.2.2
  expires := h.expires
  present := h.present
  roles := fun name hname =>
    let ⟨r, hr, hrname⟩ := h.roles name hname
    ⟨r, hr.mono hle, hrname⟩
  permissions := fun q hq =>
    let ⟨r, hr, hrq⟩ := h.permissions q hq
    ⟨r, hr.mono hle, hrq⟩

/-- A request is answered with certified claims. -/
def certified (gone : Set Uuid) : Contract Standing Op Op.Reply (Except AppError Answer) where
  pre _ _ := True
  post w op reply := op.Certifies gone w reply
  ans w answer := ∀ session, answer = .ok (.session session) → session.claims.Certified gone w

theorem certified_stable (gone : Set Uuid) : (certified gone).Stable where
  pre := fun _ _ => trivial
  ans := fun hle h session hsession => (h session hsession).mono hle

/-- **The replies, where those who are gone are removed.** -/
theorem certified_honest {env : Env} {gone : Set Uuid} {s : Db}
    (hgone : ∀ userId ∈ gone, s.Retired userId) :
    Honest (certified gone) (exec env) Db.standing s := by
  intro op draw _
  have hle := standing_le env op draw s
  refine ⟨hle, ?_⟩
  show op.Certifies gone _ (exec env op draw s).2
  generalize hreply : (exec env op draw s).2 = reply
  have hactive : ∀ u ∈ s.users.rows, u.isActive = true → u.id ∉ gone :=
    fun u hu hactive hid => (hgone u.id hid).ne hu hactive rfl
  cases op with
  | clock =>
      obtain rfl : s.now = reply := hreply
      exact hle.2.2
  | db op =>
      cases op with
      | getUserRoles id =>
          obtain rfl : Except.ok (s.rolesOf id) = reply := hreply
          exact fun r hr => (has_standing.2 hr).mono hle
      | getRoleByName tenantId name =>
          cases reply with
          | error e => trivial
          | ok role =>
              obtain ⟨hrole, hname⟩ := fetchOne_eq_ok hreply
              simp only [Bool.and_eq_true, beq_iff_eq] at hname
              exact ⟨hname.2, hle.1 hrole⟩
      | assignRole userId roleId =>
          cases reply with
          | error e => trivial
          | ok =>
              show (userId, roleId) ∈ (exec env (.db (.assignRole userId roleId)) draw s).1.userRoles
              simp only [exec, execDb]
              split
              · assumption
              · simp
      | createUser input =>
          cases reply with
          | error e => trivial
          | ok user =>
              simp only [exec, execDb] at hreply
              rcases insertRow_cases s.users (userRow env draw.uuid input)
                "users_tenant_id_email_key" (fun users => { s with users }) s with
                ⟨e, h⟩ | ⟨row, t, -, hfree, -, h⟩
              · rw [h] at hreply
                cases hreply
              · rw [h] at hreply
                obtain rfl := Except.ok.inj hreply
                intro hid
                obtain ⟨u, hu, huid, -⟩ := hgone row.id hid
                have hfresh := hfree u hu
                simp [sameUser, huid] at hfresh
      | getUserById id =>
          cases reply with
          | error e => trivial
          | ok user =>
              obtain ⟨hmem, huser⟩ := fetchOne_eq_ok hreply
              simp only [Bool.and_eq_true, beq_iff_eq] at huser
              exact hactive user hmem huser.2
      | findUserByEmail tenantId email =>
          cases reply with
          | error e => trivial
          | ok found =>
              cases found with
              | none => trivial
              | some user =>
                  have hfind := Except.ok.inj hreply
                  have huser := List.find?_some hfind
                  simp only [Bool.and_eq_true, beq_iff_eq] at huser
                  exact hactive user (List.mem_of_find?_eq_some hfind) huser.2
      | findUsersByEmail email =>
          cases reply with
          | error e => trivial
          | ok users =>
              intro user huser
              rw [← Except.ok.inj hreply] at huser
              obtain ⟨hmem, huser⟩ := List.mem_filter.1 huser
              simp only [Bool.and_eq_true, beq_iff_eq] at huser
              exact hactive user hmem huser.2
      | _ => trivial
  | _ => trivial

/-! ### Requests that sign in -/

section Requests

variable {env : Env} {gone : Set Uuid} {w : Standing}

theorem certified_error (w : Standing) (e : AppError) : (certified gone).ans w (.error e) := by
  intro session h
  cases h

theorem certified_answer {answer : Answer} (h : ¬ IsSession (.ok answer)) :
    Keeps (certified gone) w (.answer (.ok answer)) := by
  intro session hanswer
  cases hanswer
  exact absurd trivial h

theorem certified_query {op : DbOp} {mapErr : DbError → AppError} {next : op.Value → Endpoint}
    (hnext : ∀ w' value, w ≤ w' → (Op.db op).Certifies gone w' (.ok value) →
      Keeps (certified gone) w' (next value)) : Keeps (certified gone) w (queryOr op mapErr next) :=
  keeps_queryOr certified_error trivial hnext

/-- A session for an account that is there, with roles that it has. -/
theorem certified_issueSession {user : User} {tenant : Tenant} {roleNames : List String}
    (hpresent : user.id ∉ gone) (hroles : ∀ name ∈ roleNames, ∃ r, w.Has user.id r ∧ r.name = name) :
    Keeps (certified gone) w (issueSession env user tenant roleNames) := by
  refine certified_query fun w₁ roles hle₁ hheld => ⟨trivial, fun w₂ now hle₂ hnow => ?_⟩
  cases env.encodeError with
  | some e => exact certified_error w₂ _
  | none =>
      refine ⟨trivial, fun w₃ token hle₃ _ => ⟨trivial, fun w₄ expiry hle₄ _ => ?_⟩⟩
      refine certified_query fun w₅ _ hle₅ _ session hsession => ?_
      obtain rfl : _ = session := by simpa using hsession
      have hle : w₂ ≤ w₅ := (hle₃.trans hle₄).trans hle₅
      refine ⟨hnow.trans hle.2.2, rfl, hpresent, fun name hname => ?_, fun q hq => ?_⟩
      · obtain ⟨r, hr, hrname⟩ := hroles name hname
        exact ⟨r, hr.mono ((hle₁.trans hle₂).trans hle), hrname⟩
      · obtain ⟨r, hr, hrq⟩ : ∃ r ∈ roles, q ∈ r.permissions := by simpa [permissionsOf] using hq
        exact ⟨r, (hheld r hr).mono (hle₂.trans hle), hrq⟩

theorem certified_issueWithRoles {user : User} {tenant : Tenant} (hpresent : user.id ∉ gone) :
    Keeps (certified gone) w (issueWithRoles env user tenant) := by
  refine certified_query fun w₁ roles _ hheld => certified_issueSession hpresent ?_
  intro name hname
  obtain ⟨r, hr, hrname⟩ := List.mem_map.1 hname
  exact ⟨r, hheld r hr, hrname⟩

theorem certified_hashPassword {password : String} {next : String → Endpoint}
    (hnext : ∀ w' passwordHash, w ≤ w' → Keeps (certified gone) w' (next passwordHash)) :
    Keeps (certified gone) w (hashPassword password next) := by
  refine ⟨trivial, fun w' reply hle _ => ?_⟩
  cases reply with
  | error e => exact certified_error w' _
  | ok passwordHash => exact hnext w' passwordHash hle

theorem certified_createRoles {tenantId : Uuid} {next : Endpoint}
    (hnext : ∀ w', Keeps (certified gone) w' next) (roles : List (String × List String)) :
    Keeps (certified gone) w (createRoles env tenantId roles next) := by
  induction roles generalizing w with
  | nil => exact hnext w
  | cons role rest ih => exact certified_query fun _ _ _ _ => ih

theorem certified_picker (users : List User) :
    Keeps (certified gone) w (listOrgs orgPicker users []) := by
  refine keeps_listOrgs (fun _ _ => trivial) (fun w' orgs => ?_) users []
  show Keeps (certified gone) w' (.answer (.ok (.orgPicker orgs)))
  exact certified_answer not_false

/-- A new account, with the role that was looked up by its name. -/
theorem certified_assign {user : User} {tenant : Tenant} {role : Role} {name : String}
    (hpresent : user.id ∉ gone) (hrole : role ∈ w.1) (hname : role.name = name) :
    Keeps (certified gone) w (query env (.assignRole user.id role.id) fun _ =>
      issueSession env user tenant [name]) := by
  refine certified_query fun w' _ hle hgiven => certified_issueSession hpresent ?_
  intro name' hname'
  rw [List.mem_singleton.1 hname']
  exact ⟨role, ⟨hle.1 hrole, hgiven⟩, hname⟩

theorem certified_register (req : RegisterRequest) :
    Keeps (certified gone) w (register env req) := by
  refine keeps_guarded certified_error fun _ => certified_query fun w₁ hasTenants _ _ => ?_
  split
  · exact certified_error w₁ _
  · refine certified_query fun w₂ tenant _ _ => certified_createRoles (fun w₃ => ?_) systemRoles
    refine certified_hashPassword fun w₄ passwordHash _ => ?_
    refine certified_query fun w₅ user _ huser => certified_query fun w₆ role _ hrole => ?_
    exact certified_assign huser hrole.2 hrole.1

theorem certified_acceptInvite (req : AcceptInviteRequest) :
    Keeps (certified gone) w (acceptInvite env req) := by
  refine keeps_guarded certified_error fun _ => certified_query fun w₁ found _ _ => ?_
  cases found with
  | none => exact certified_error w₁ _
  | some invite =>
      refine certified_query fun w₂ tenant _ _ => certified_query fun w₃ role _ hrole => ?_
      refine certified_hashPassword fun w₄ passwordHash hle₄ => ?_
      refine certified_query fun w₅ user hle₅ huser => ?_
      exact certified_assign huser ((hle₄.trans hle₅).1 hrole.2) hrole.1

theorem certified_login (req : LoginRequest) : Keeps (certified gone) w (login env req) := by
  unfold login
  cases givenSlug req.tenantSlug with
  | some slug =>
      refine keeps_memberBySlug certified_error (fun _ => trivial) (fun _ _ => trivial) ?_
      intro _ w₂ tenant user _ _ _ huser
      split
      · exact certified_error w₂ _
      · exact certified_error w₂ _
      · exact certified_issueWithRoles huser
  | none =>
      refine certified_query fun w₁ users _ husers => ?_
      rcases users with _ | ⟨user, _ | ⟨other, users⟩⟩
      · exact certified_error w₁ _
      · refine certified_query fun w₂ tenant _ _ => ?_
        dsimp only
        split
        · exact certified_error w₂ _
        · exact certified_error w₂ _
        · exact certified_issueWithRoles (husers user List.mem_cons_self)
      · exact certified_picker (user :: other :: users)

theorem certified_refresh (cookies : List String) :
    Keeps (certified gone) w (refresh env cookies) := by
  unfold refresh
  cases extractCookie cookies "fp_refresh" with
  | none => exact certified_error w _
  | some token =>
      refine certified_query fun w₁ stored _ _ => certified_query fun w₂ user _ huser => ?_
      refine certified_query fun w₃ tenant _ _ => ?_
      refine Keeps.bind (c := certified gone) (certified_issueWithRoles huser) ?_
      intro w₄ answer _ hanswer
      cases answer with
      | error e => exact certified_error w₄ e
      | ok answer =>
          exact ⟨trivial, fun _ _ hle _ => (certified_stable gone).ans hle hanswer,
            fun _ hle => (certified_stable gone).ans hle hanswer⟩

theorem certified_switchOrg (claims : Except AppError Claims) (tenantSlug : String) :
    Keeps (certified gone) w (switchOrg env claims tenantSlug) := by
  cases claims with
  | error e => exact certified_error w e
  | ok claims =>
      refine keeps_memberBySlug certified_error (fun _ => trivial) (fun _ _ => trivial) ?_
      exact fun _ _ _ _ _ _ _ huser => certified_issueWithRoles huser

theorem certified_magicLinkVerify (req : MagicLinkVerifyRequest) :
    Keeps (certified gone) w (magicLinkVerify env req) := by
  have hconsume : ∀ w' tenant user, user.id ∉ gone → Keeps (certified gone) w'
      (consumeLink env (env.sha256 req.token) tenant user) := by
    intro w' tenant user hpresent
    refine certified_query fun w'' consumed _ _ => ?_
    cases consumed with
    | none => exact certified_error w'' _
    | some link => exact certified_issueWithRoles hpresent
  refine certified_query fun w₁ found _ _ => ?_
  cases found with
  | none => exact certified_error w₁ _
  | some link =>
      dsimp only
      cases givenSlug req.tenantSlug with
      | some slug =>
          refine keeps_memberBySlug certified_error (fun _ => trivial) (fun _ _ => trivial) ?_
          exact fun _ w₃ tenant user _ _ _ huser => hconsume w₃ tenant user huser
      | none =>
          refine certified_query fun w₂ users _ husers => ?_
          rcases users with _ | ⟨user, _ | ⟨other, users⟩⟩
          · exact certified_error w₂ _
          · refine certified_query fun w₃ tenant _ _ => hconsume w₃ tenant user ?_
            exact husers user List.mem_cons_self
          · exact certified_picker (user :: other :: users)

theorem certified_magicLinkRequest (address : String) :
    Keeps (certified gone) w (magicLinkRequest env address) := by
  unfold magicLinkRequest
  split
  · dsimp only
    split
    · exact certified_error w _
    · refine certified_query fun w₁ users _ _ => ?_
      cases users with
      | nil => exact certified_answer not_false
      | cons user users =>
          refine ⟨trivial, fun w₂ token _ _ => ⟨trivial, fun w₃ now _ _ => ?_⟩⟩
          exact certified_query fun _ _ _ _ => ⟨trivial, fun _ _ _ _ => certified_answer not_false⟩
  · exact certified_error w _

theorem certified_inviteMember (caller : CurrentUser) (address role : String) :
    Keeps (certified gone) w (inviteMember env caller address role) := by
  refine keeps_guarded certified_error fun _ => ?_
  dsimp only
  split
  · refine certified_query fun w₁ existing _ _ => certified_query fun w₂ _ _ _ => ?_
    split
    · exact certified_error w₂ _
    · refine ⟨trivial, fun w₃ token _ _ => ⟨trivial, fun w₄ now _ _ => ?_⟩⟩
      refine certified_query fun w₅ invite _ _ => certified_query fun w₆ _ _ _ => ?_
      exact ⟨trivial, fun _ _ _ _ => certified_answer not_false⟩
  · exact certified_error w _

theorem certified_removeMember (caller : CurrentUser) (memberId : Uuid) :
    Keeps (certified gone) w (removeMember env caller memberId) := by
  refine keeps_guarded certified_error fun _ => ?_
  split
  · exact certified_error w _
  · refine certified_query fun w₁ target _ _ => ?_
    split
    · exact certified_query fun _ _ _ _ => certified_answer not_false
    · exact certified_error w₁ _

theorem certified_resetMemberPassword (caller : CurrentUser) (memberId : Uuid) (password : String) :
    Keeps (certified gone) w (resetMemberPassword env caller memberId password) := by
  refine keeps_guarded certified_error fun _ => keeps_guarded certified_error fun _ => ?_
  refine certified_hashPassword fun w₁ passwordHash _ => certified_query fun w₂ rowsAffected _ _ => ?_
  split
  · exact certified_error w₂ _
  · exact certified_query fun _ _ _ _ => certified_answer not_false

/-- **Every session is certified.** -/
theorem certified_program (env : Env) (gone : Set Uuid) (r : Request) (w : Standing) :
    Keeps (certified gone) w (r.program env) := by
  cases r with
  | register req => exact certified_register req
  | login req => exact certified_login req
  | refresh cookies => exact certified_refresh cookies
  | switchOrg claims tenantSlug => exact certified_switchOrg claims tenantSlug
  | acceptInvite req => exact certified_acceptInvite req
  | magicLinkRequest email => exact certified_magicLinkRequest email
  | magicLinkVerify req => exact certified_magicLinkVerify req
  | inviteMember caller email role => exact certified_inviteMember caller email role
  | removeMember caller memberId => exact certified_removeMember caller memberId
  | resetMemberPassword caller memberId password =>
      exact certified_resetMemberPassword caller memberId password

end Requests

/-! ### Runs -/

/-- Each request certifies what it answers, for those who were gone when it came in. -/
structure Certifying (gone : Nat → Set Uuid) (p : ApiPool) : Prop where
  retired : ∀ i, ∀ userId ∈ gone i, p.state.Retired userId
  threads : ∀ i t, p.threads[i]? = some t → Keeps (certified (gone i)) p.state.standing t.program

theorem certifying_step (env : Env) (gone : Nat → Set Uuid) (p : ApiPool)
    (a : Action Draw Request Nat) (hp : Certifying gone p) :
    Certifying gone ((api env).step p a) := by
  rcases (api env).step_cases p a with h | ⟨request, rfl, h⟩ |
    ⟨i, fate, draw, t, s', h', op, rfl, ht, -, hmove, h⟩ | ⟨seconds, rfl, h⟩
  · rw [h]
    exact hp
  · rw [h]
    refine ⟨hp.retired, fun j v hv => ?_⟩
    rcases getElem?_append_one hv with hv | rfl
    · exact hp.threads j v hv
    · exact certified_program env (gone j) request _
  · have hstate : (∀ j, ∀ userId ∈ gone j, s'.Retired userId) ∧ p.state.standing ≤ s'.standing := by
      rcases hmove.state with ⟨-, rfl⟩ | ⟨o, draw, -, -, rfl⟩
      · exact ⟨hp.retired, le_rfl⟩
      · exact ⟨fun j userId hgone => (hp.retired j userId hgone).kept env o draw,
          standing_le env o draw p.state⟩
    rw [h]
    refine ⟨hstate.1, fun j v hv => ?_⟩
    rcases getElem?_set_cases hv with ⟨rfl, rfl⟩ | ⟨-, hv⟩
    · exact ((hp.threads j t ht).moves (certified_honest (hp.retired j)) hmove).2
    · exact (hp.threads j v hv).mono (certified_stable (gone j)) hstate.2
  · rw [h]
    refine ⟨hp.retired, fun j v hv => (hp.threads j v hv).mono (certified_stable (gone j)) ?_⟩
    exact ⟨le_rfl, le_rfl, Nat.le_add_right _ _⟩

theorem certifying_idle (db : Db) : Certifying (fun _ => ∅) (idlePool db) where
  retired := fun _ _ h => absurd h (Set.notMem_empty _)
  threads := fun _ _ ht => absurd (List.mem_of_getElem? ht) not_mem_idle

theorem sessionClaims_eq_some {t : ApiThread} {claims : Claims} :
    sessionClaims t = some claims ↔
      ∃ session, t.program = .answer (.ok (.session session)) ∧ session.claims = claims := by
  unfold sessionClaims
  split
  · rename_i session h
    simp [h]
  · rename_i h
    constructor
    · nofun
    · rintro ⟨session, hsession, -⟩
      exact absurd hsession (h session)

/-- A request with an answer is done. -/
theorem answered_step {env : Env} {p : ApiPool} {i : Nat} {t : ApiThread}
    {a : Except AppError Answer} (ht : p.threads[i]? = some t) (hanswer : t.program = .answer a)
    (action : Action Draw Request Nat) : ((api env).step p action).threads[i]? = some t := by
  rcases (api env).step_cases p action with h | ⟨request, rfl, h⟩ |
    ⟨j, fate, draw, t', s', h', op, rfl, ht', -, hmove, h⟩ | ⟨seconds, rfl, h⟩
  · rw [h]
    exact ht
  · rw [h]
    obtain ⟨hi, -⟩ := List.getElem?_eq_some_iff.1 ht
    rw [List.getElem?_append_left hi, ht]
  · rw [h]
    by_cases hij : j = i
    · subst hij
      rw [ht] at ht'
      obtain rfl := Option.some.inj ht'
      rw [hanswer] at hmove
      exact absurd hmove (Moves.not_answered)
    · rw [List.getElem?_set_ne hij, ht]
  · rw [h]
    exact ht

/-- A token that was given out is certified, if every request certifies. -/
theorem certified_of_signed {p : ApiPool} {claims : Claims} (h : claims ∈ signedClaims p) :
    ∃ i t session, p.threads[i]? = some t ∧ t.program = .answer (.ok (.session session)) ∧
      session.claims = claims ∧
      ∀ gone, Certifying gone p → claims.Certified (gone i) p.state.standing := by
  obtain ⟨t, ht, hclaims⟩ := List.mem_filterMap.1 h
  obtain ⟨session, hsession, rfl⟩ := sessionClaims_eq_some.1 hclaims
  obtain ⟨i, hi⟩ := List.getElem?_of_mem ht
  refine ⟨i, t, session, hi, hsession, rfl, fun gone hp => ?_⟩
  have hkeeps := hp.threads i t hi
  rw [hsession] at hkeeps
  exact hkeeps session rfl

/-- What a certified token permits, the roles of its user permit. -/
theorem held_of_certified {gone : Set Uuid} {s : KeyDb} {claims : Claims}
    (h : claims.Certified gone s.accounts.standing) {q : String}
    (hq : checkPermission (currentUser claims) q = .ok ()) : s.held claims.sub q = true := by
  simp only [KeyDb.held, permissionsIn, Bool.or_eq_true, List.any_eq_true, beq_iff_eq,
    List.mem_flatMap]
  unfold checkPermission at hq
  split at hq
  · rename_i hright
    simp only [Bool.or_eq_true, CurrentUser.hasPermission, CurrentUser.isAdmin, List.any_eq_true,
      beq_iff_eq, currentUser] at hright
    rcases hright with ⟨_, hmem, rfl⟩ | ⟨_, hmem, rfl⟩
    · obtain ⟨r, hr, hrq⟩ := h.permissions _ hmem
      exact .inr ⟨_, ⟨r, has_standing.1 hr, hrq⟩, rfl⟩
    · obtain ⟨r, hr, hname⟩ := h.roles _ hmem
      exact .inl ⟨r, has_standing.1 hr, hname⟩
  · cases hq

/-- **Nobody gets in with rights that its roles do not give.** In every run of the requests that
issue sessions, whatever credential a request presents and whenever it comes, it passes no check
that the roles which its user has at that moment do not pass. A token that was given out is
believed until 16 minutes after it was issued, and no longer. -/
theorem admitted_of_run (env : Env) (decode : String → Option Claims) (db : Db)
    (inputs : List (Action Draw Request Nat)) (apiKeys : Table ApiKey sameKey) :
    let p := run (api env).step (idlePool db) inputs
    (∀ headers user,
      authMiddleware env decode (signedClaims p) ⟨p.state, apiKeys⟩ headers = .ok user →
      ∀ q, checkPermission user q = .ok () →
        (⟨p.state, apiKeys⟩ : KeyDb).held user.userId q = true) ∧
    ∀ claims ∈ signedClaims p, ∀ token, decode token = some claims →
      (sessionUser decode (signedClaims p) p.state.now token = .ok (currentUser claims) ↔
        p.state.now ≤ claims.iat + 960) := by
  intro p
  have hp : Certifying (fun _ => ∅) p :=
    run_invariant _ (certifying_step env _) (certifying_idle db) inputs
  constructor
  · intro headers user hadmitted q hq
    rcases authMiddleware_ok hadmitted with ⟨claims, hsigned, -, rfl⟩ | ⟨raw, hkey⟩
    · obtain ⟨_, _, _, -, -, -, hcertified⟩ := certified_of_signed hsigned
      exact held_of_certified (s := ⟨p.state, apiKeys⟩) (hcertified _ hp) hq
    · obtain ⟨hroles, -, hheld⟩ := authenticateApiKey_ok hkey
      refine hheld q ?_
      unfold checkPermission at hq
      split at hq
      · simp_all [CurrentUser.hasPermission, CurrentUser.isAdmin]
      · cases hq
  · intro claims hsigned token hdecode
    obtain ⟨_, _, _, -, -, -, hcertified⟩ := certified_of_signed hsigned
    have hexpires : claims.exp + LEEWAY_SECS = claims.iat + 960 := by
      rw [(hcertified _ hp).expires]
      rfl
    rw [sessionUser_ok, ← hexpires]
    constructor
    · rintro ⟨claims', -, hdecode', hlive, -⟩
      obtain rfl := Option.some.inj (hdecode.symm.trans hdecode')
      exact hlive
    · exact fun hlive => ⟨claims, hsigned, hdecode, hlive, rfl⟩

/-- The token of Ann's session, under the secret of the example deployment. -/
def annToken : String :=
  "eyJ0eXAiOiJKV1QiLCJhbGciOiJIUzI1NiJ9." ++
    ("eyJzdWIiOiIwMDAwMDAwMC0wMDAwLTAwMDAtMDAwMC0wMDAwMDAwMDAwMDEiLCJ0aWQiOiIwMDAwMDAwMC0wMDAwLTAw" ++
      "MDAtMDAwMC0wMDAwMDAwMDAwMDciLCJlbWFpbCI6ImFubkBhY21lLmlvIiwicm9sZXMiOlsiYWRtaW4iXSwicGVybWlz" ++
      "c2lvbnMiOlsidGVhbV9tYW5hZ2UiXSwiaWF0IjoxMDAsImV4cCI6MTAwMH0" ++
      ".searYYHhuywIpxbTRxOtt1WrRewLRYSUiugpm_8qWxw")

def annClaims : Claims :=
  { sub := 1, tid := 7, email := "ann@acme.io", roles := ["admin"], permissions := ["team_manage"],
    iat := 100, exp := 1000 }

def decodeAnn (token : String) : Option Claims := if token = annToken then some annClaims else none

def annLogin : LoginRequest :=
  { tenantSlug := some "acme", email := "ann@acme.io", password := "secret-hash" }

def bob : CurrentUser :=
  { userId := 2, tenantId := 7, email := "bob@acme.io", roles := ["admin"],
    permissions := ["team_manage"] }

/-- Ann signs in and Bob removes her. -/
def annRemoved : List (Action Draw Request Nat) :=
  sampleRequest (.login annLogin) 0 8 1000 ++ sampleRequest (.removeMember bob 1) 1 2 2000

def annHeaders : RequestHeaders := { authorization := some ("Bearer " ++ annToken), cookies := [] }

def annPool (after : List (Action Draw Request Nat)) : ApiPool :=
  run (api plainEnv).step (idlePool sampleDb) (annRemoved ++ after)

theorem signedClaims_ann : signedClaims (annPool [.world 960]) = [annClaims] := rfl

/-- For 16 minutes Ann still gets in. -/
theorem admitted_ann : authMiddleware plainEnv decodeAnn (signedClaims (annPool [.world 960]))
    ⟨(annPool [.world 960]).state, .empty⟩ annHeaders = .ok (currentUser annClaims) := by
  have hbearer : extractBearerToken annHeaders = some annToken := extractBearerToken_bearer _ _
  have hkey : KEY_PREFIX.toList.isPrefixOf annToken.toList = false := by
    obtain ⟨rest, hrest⟩ : ∃ rest, annToken = "eyJ0eXAiOiJKV1QiLCJhbGciOiJIUzI1NiJ9." ++ rest :=
      ⟨_, rfl⟩
    simp [KEY_PREFIX, hrest, List.isPrefixOf]
  have hnow : (annPool [.world 960]).state.now = 1060 := rfl
  have hdecode : decodeAnn annToken = some annClaims := if_pos rfl
  have hsession : sessionUser decodeAnn [annClaims] 1060 annToken = .ok (currentUser annClaims) :=
    sessionUser_ok.2 ⟨annClaims, List.mem_cons_self, hdecode, by decide, rfl⟩
  rw [authMiddleware, hbearer, signedClaims_ann]
  dsimp only
  rw [hkey, hnow, hsession]
  rfl

/-- Her token is believed, and says what her role says. -/
theorem admitted_of_run_ann :
    sessionUser decodeAnn (signedClaims (annPool [.world 960])) (annPool [.world 960]).state.now
        annToken = .ok (currentUser annClaims) ∧
      (⟨(annPool [.world 960]).state, .empty⟩ : KeyDb).held 1 "team_manage" = true := by
  obtain ⟨hheld, hbelieved⟩ := admitted_of_run plainEnv decodeAnn sampleDb
    (annRemoved ++ [.world 960]) .empty
  have hgiven : annClaims ∈ signedClaims (annPool [.world 960]) :=
    signedClaims_ann ▸ List.mem_cons_self
  exact ⟨(hbelieved annClaims hgiven annToken (if_pos rfl)).2 (by decide),
    hheld annHeaders _ admitted_ann "team_manage" rfl⟩

end Feloxi.Auth
