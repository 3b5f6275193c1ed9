import Feloxi.Auth.Effects

/-!
# Feloxi.Auth.Contracts

What is known about a session by the time it is issued. A handler passes on the rows that
its statements return, so a contract on the replies tells whose the session is
(`keeps_issueSession`).
-/

namespace Feloxi.Auth

open Handlers

def IsSession : Except AppError Answer → Prop
  | .ok (.session _) => True
  | _ => False

/-- The request has answered with a session. -/
def HasSession (t : ApiThread) : Prop := ∃ s, t.program = .answer (.ok (.session s))

/-- The session is one of the user, in the tenant. -/
structure SessionOf (user : User) (tenant : Tenant) (session : Session) : Prop where
  sub : session.claims.sub = user.id
  tid : session.claims.tid = tenant.id
  email : session.claims.email = user.email
  user : session.user.id = user.id ∧ session.user.email = user.email ∧
    session.user.tenantId = tenant.id ∧ session.user.tenantSlug = tenant.slug

/-- The operations of `issue_session` for a user. -/
def Op.Issues (userId : Uuid) : Op → Prop
  | .clock => True
  | .newToken _ => True
  | .db (.getUserRoles id) => id = userId
  | .db (.createRefreshToken id _ _ _) => id = userId
  | _ => False

section Pieces

variable {W : Type} [Preorder W] {c : Contract W Op Op.Reply (Except AppError Answer)} {w : W}

theorem keeps_queryOr (herror : ∀ w e, c.ans w (.error e)) {op : DbOp}
    {mapErr : DbError → AppError} {next : op.Value → Endpoint} (hpre : c.pre w (.db op))
    (hnext : ∀ w' value, w ≤ w' → c.post w' (.db op) (.ok value) → Keeps c w' (next value)) :
    Keeps c w (queryOr op mapErr next) := by
  refine ⟨hpre, fun w' reply hle hpost => ?_, fun w' _ => herror w' _⟩
  cases reply with
  | error e => exact herror w' _
  | ok value => exact hnext w' value hle hpost

theorem keeps_guarded (herror : ∀ w e, c.ans w (.error e)) {check : Except AppError Unit}
    {handler : Endpoint} (h : check = .ok () → Keeps c w handler) :
    Keeps c w (guarded check handler) := by
  cases check with
  | error e => exact herror w e
  | ok => exact h rfl

/-- **A session is issued to the user that it is issued for.** -/
theorem keeps_issueSession (herror : ∀ w e, c.ans w (.error e)) {env : Env} {user : User}
    {tenant : Tenant} {roleNames : List String} (hpre : ∀ w op, op.Issues user.id → c.pre w op)
    (hans : ∀ w' session, w ≤ w' → SessionOf user tenant session →
      c.ans w' (.ok (.session session))) :
    Keeps c w (issueSession env user tenant roleNames) := by
  refine keeps_queryOr herror (hpre w _ rfl) fun w₁ roles hle₁ _ => ?_
  refine ⟨hpre _ _ trivial, fun w₂ now hle₂ _ => ?_⟩
  cases env.encodeError with
  | some e => exact herror w₂ _
  | none =>
      refine ⟨hpre _ _ trivial, fun w₃ token hle₃ _ => ⟨hpre _ _ trivial, fun w₄ now hle₄ _ => ?_⟩⟩
      refine keeps_queryOr herror (hpre _ _ rfl) fun w₅ _ hle₅ _ => ?_
      have hle : w ≤ w₅ := (((hle₁.trans hle₂).trans hle₃).trans hle₄).trans hle₅
      exact hans w₅ _ hle ⟨rfl, rfl, rfl, rfl, rfl, rfl, rfl⟩

theorem keeps_issueWithRoles (herror : ∀ w e, c.ans w (.error e)) {env : Env} {user : User}
    {tenant : Tenant} (hpre : ∀ w op, op.Issues user.id → c.pre w op)
    (hans : ∀ w' session, w ≤ w' → SessionOf user tenant session →
      c.ans w' (.ok (.session session))) :
    Keeps c w (issueWithRoles env user tenant) := by
  refine keeps_queryOr herror (hpre w _ rfl) fun w' roles hle _ => ?_
  exact keeps_issueSession herror hpre fun w'' session hle' => hans w'' session (hle.trans hle')

theorem keeps_memberBySlug (herror : ∀ w e, c.ans w (.error e)) {env : Env} {slug email : String}
    {noTenant noUser : AppError} {next : Tenant → User → Endpoint}
    (htenant : ∀ w, c.pre w (.db (.getTenantBySlug slug)))
    (huser : ∀ w t, c.pre w (.db (.findUserByEmail t email)))
    (hnext : ∀ w₁ w₂ t u, w ≤ w₁ → w₁ ≤ w₂ → c.post w₁ (.db (.getTenantBySlug slug)) (.ok t) →
      c.post w₂ (.db (.findUserByEmail t.id email)) (.ok (some u)) → Keeps c w₂ (next t u)) :
    Keeps c w (memberBySlug env slug email noTenant noUser next) := by
  refine keeps_queryOr herror (htenant w) fun w₁ t hle₁ ht => ?_
  refine keeps_queryOr herror (huser w₁ t.id) fun w₂ found hle₂ hu => ?_
  cases found with
  | none => exact herror w₂ _
  | some u => exact hnext w₁ w₂ t u hle₁ hle₂ ht hu

theorem keeps_listOrgs {next : List OrgSummary → Endpoint}
    (hpre : ∀ w id, c.pre w (.db (.getTenantById id))) (hnext : ∀ w orgs, Keeps c w (next orgs))
    (users : List User) (orgs : List OrgSummary) : Keeps c w (listOrgs next users orgs) := by
  induction users generalizing w orgs with
  | nil => exact hnext w orgs
  | cons u users ih =>
      refine ⟨hpre w u.tenantId, fun w' reply _ _ => ?_, fun w' _ => ih orgs⟩
      cases reply with
      | error e => exact ih orgs
      | ok t => exact ih _

end Pieces

end Feloxi.Auth
