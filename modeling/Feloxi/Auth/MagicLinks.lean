import Feloxi.Auth.Contracts
import Feloxi.Auth.Footprints
import Mathlib.Data.Set.BooleanAlgebra
import Mathlib.Order.CompletePartialOrder

/-!
# Feloxi.Auth.MagicLinks

Sign-in links. `magic_link_verify` only looks at the link until it knows the account, and then
consumes it in one conditional statement, so that of any requests with one link at most one
signs in. A request that answers with the organisations to choose from never gets to consume
the link.
-/

namespace Feloxi.Auth

open Handlers Runs
open Tables (Table)

/-- A request that presents a link with this hash. -/
def Presents (env : Env) (tokenHash : String) (r : Request) : Prop :=
  ∃ req, r = .magicLinkVerify req ∧ env.sha256 req.token = tokenHash

def IsPicker : Except AppError Answer → Prop
  | .ok (.orgPicker _) => True
  | _ => False

/-- The reply that the link was there to consume. -/
def LinkConsumed (tokenHash : String) : (op : Op) → Option op.Reply → Prop
  | .db (.consumeMagicLink hash), some (.ok (some _)) => hash = tokenHash
  | _, _ => False

/-- The statement that consumes the link. -/
def Consumes (tokenHash : String) (op : Op) : Prop := op = .db (.consumeMagicLink tokenHash)

/-! ### What the handler does with a link -/

section Pieces

variable {gate : (op : Op) → Option op.Reply → Prop} {good : Except AppError Answer → Prop}

theorem gated_queryOr {op : DbOp} {mapErr : DbError → AppError} {next : op.Value → Endpoint}
    (herror : ∀ e, ¬ good (.error e))
    (hnext : ∀ value, ¬ gate (.db op) (some (.ok value)) → Gated gate good (next value)) :
    Gated gate good (queryOr op mapErr next) := by
  refine ⟨fun reply hreply => ?_, fun _ => herror _⟩
  cases reply with
  | error e => exact herror _
  | ok value => exact hnext value hreply

theorem gated_memberBySlug {env : Env} {slug email : String} {noTenant noUser : AppError}
    {next : Tenant → User → Endpoint} (herror : ∀ e, ¬ good (.error e))
    (hnext : ∀ t u, Gated gate good (next t u)) :
    Gated gate good (memberBySlug env slug email noTenant noUser next) := by
  refine gated_queryOr herror fun t _ => gated_queryOr herror fun found _ => ?_
  cases found with
  | none => exact herror _
  | some u => exact hnext t u

theorem gated_listOrgs {next : List OrgSummary → Endpoint}
    (hnext : ∀ orgs, Gated gate good (next orgs)) (users : List User) (orgs : List OrgSummary) :
    Gated gate good (listOrgs next users orgs) := by
  induction users generalizing orgs with
  | nil => exact hnext orgs
  | cons u users ih =>
      refine ⟨fun reply _ => ?_, fun _ => ih orgs⟩
      cases reply with
      | error e => exact ih orgs
      | ok t => exact ih _

theorem commits_queryOr {P : Op → Prop} {op : DbOp} {mapErr : DbError → AppError}
    {next : op.Value → Endpoint} (hop : ¬ P (.db op))
    (hnext : ∀ value, (next value).Commits P good) :
    (queryOr op mapErr next).Commits P good := by
  refine ⟨fun reply => ⟨?_, fun h => absurd h hop⟩, trivial, fun h => absurd h hop⟩
  cases reply with
  | error e => trivial
  | ok value => exact hnext value

theorem commits_listOrgs {P : Op → Prop} {next : List OrgSummary → Endpoint}
    (hop : ∀ id, ¬ P (.db (.getTenantById id))) (hnext : ∀ orgs, (next orgs).Commits P good)
    (users : List User) (orgs : List OrgSummary) : (listOrgs next users orgs).Commits P good := by
  induction users generalizing orgs with
  | nil => exact hnext orgs
  | cons u users ih =>
      have hfree : ¬ P (.db (.getTenantById u.tenantId)) := hop u.tenantId
      refine ⟨fun reply => ⟨?_, fun h => absurd h hfree⟩, ih orgs, fun h => absurd h hfree⟩
      cases reply with
      | error e => exact ih orgs
      | ok t => exact ih _

end Pieces

/-- Signing in answers with no organisations to choose from. -/
theorem never_issueWithRoles (env : Env) (user : User) (tenant : Tenant) :
    (issueWithRoles env user tenant).Never IsPicker := by
  refine gated_queryOr (fun _ h => h) fun roles _ => gated_queryOr (fun _ h => h) fun _ _ => ?_
  intro now _
  cases env.encodeError with
  | some e => exact fun h => h
  | none => exact fun token _ now _ => gated_queryOr (fun _ h => h) fun _ _ h => h

theorem never_consumeLink (env : Env) (tokenHash : String) (t : Tenant) (u : User) :
    (consumeLink env tokenHash t u).Never IsPicker := by
  refine gated_queryOr (fun _ h => h) fun consumed _ => ?_
  cases consumed with
  | none => exact fun h => h
  | some link => exact never_issueWithRoles env u t

theorem gated_consumeLink (env : Env) (tokenHash : String) (t : Tenant) (u : User) :
    Gated (LinkConsumed tokenHash) IsSession (consumeLink env tokenHash t u) := by
  refine gated_queryOr (fun _ h => h) fun consumed hconsumed => ?_
  cases consumed with
  | none => exact fun h => h
  | some link => exact absurd rfl hconsumed

/-- **No session before the link is consumed.** -/
theorem gated_magicLinkVerify (env : Env) (req : MagicLinkVerifyRequest) :
    Gated (LinkConsumed (env.sha256 req.token)) IsSession (magicLinkVerify env req) := by
  refine gated_queryOr (fun _ h => h) fun found _ => ?_
  cases found with
  | none => exact fun h => h
  | some link =>
      dsimp only
      cases givenSlug req.tenantSlug with
      | some slug => exact gated_memberBySlug (fun _ h => h) (gated_consumeLink env _)
      | none =>
          refine gated_queryOr (fun _ h => h) fun users _ => ?_
          match users with
          | [] => exact fun h => h
          | [user] => exact gated_queryOr (fun _ h => h) fun t _ => gated_consumeLink env _ t user
          | u :: v :: users =>
              refine gated_listOrgs (fun orgs => ?_) (u :: v :: users) []
              exact fun h => h

/-- **No organisations to choose from once the link is consumed.** -/
theorem commits_magicLinkVerify (env : Env) (req : MagicLinkVerifyRequest) :
    (magicLinkVerify env req).Commits (Consumes (env.sha256 req.token)) IsPicker := by
  have hconsume : ∀ t u, (consumeLink env (env.sha256 req.token) t u).Commits
      (Consumes (env.sha256 req.token)) IsPicker :=
    fun t u => .of_never (never_consumeLink env _ t u)
  refine commits_queryOr nofun fun found => ?_
  cases found with
  | none => trivial
  | some link =>
      dsimp only
      cases givenSlug req.tenantSlug with
      | some slug =>
          refine commits_queryOr nofun fun t => commits_queryOr nofun fun found => ?_
          cases found with
          | none => trivial
          | some u => exact hconsume t u
      | none =>
          refine commits_queryOr nofun fun users => ?_
          match users with
          | [] => trivial
          | [user] => exact commits_queryOr nofun fun t => hconsume t user
          | u :: v :: users =>
              refine commits_listOrgs nofun (fun orgs => ?_) (u :: v :: users) []
              trivial

/-! ### At most one session -/

/-- The link is consumed. -/
def UsedUp (s : Db) (tokenHash : String) : Prop :=
  ∃ link ∈ s.magicLinks.rows, link.tokenHash = tokenHash ∧ link.consumedAt.isSome = true

theorem UsedUp.kept {s : Db} {tokenHash : String} (h : UsedUp s tokenHash) (env : Env) (op : Op)
    (draw : Draw) : UsedUp (exec env op draw s).1 tokenHash := by
  obtain ⟨link, hlink, hhash, hconsumed⟩ := h
  obtain ⟨link', hlink', hkept⟩ := magicLinks_grow env op draw s link hlink
  rw [hkept.consumed hconsumed] at hlink'
  exact ⟨link, hlink', hhash, hconsumed⟩

theorem sameLink_symm (a b : MagicLinkToken) : sameLink a b = sameLink b a := by
  simp only [sameLink, Bool.beq_comm (a := a.id), Bool.beq_comm (a := a.tokenHash)]

theorem MagicLinkToken.usable_iff {now : Instant} {tokenHash : String} {l : MagicLinkToken} :
    l.usable now tokenHash = true ↔
      l.tokenHash = tokenHash ∧ l.consumedAt = none ∧ now < l.expiresAt := by
  simp [usable, and_assoc]

/-- The link that a hash finds is the one with that hash. -/
theorem find_usable {s : Db} {tokenHash : String} {link : MagicLinkToken} :
    s.magicLinks.rows.find? (·.usable s.now tokenHash) = some link ↔
      link ∈ s.magicLinks.rows ∧ link.usable s.now tokenHash = true := by
  refine Table.find?_eq_some sameLink_symm fun a b ha hb => ?_
  simp [sameLink, (MagicLinkToken.usable_iff.1 ha).1, (MagicLinkToken.usable_iff.1 hb).1]

/-- A link is consumed once. -/
theorem consume_once {s : Db} {tokenHash : String} {link : MagicLinkToken}
    (h : s.magicLinks.rows.find? (·.usable s.now tokenHash) = some link) :
    ¬ UsedUp s tokenHash ∧ UsedUp (s.consume tokenHash) tokenHash := by
  obtain ⟨hlink, husable⟩ := find_usable.1 h
  obtain ⟨hhash, hfresh, -⟩ := MagicLinkToken.usable_iff.1 husable
  constructor
  · rintro ⟨other, hother, hohash, hconsumed⟩
    have hclash : sameLink other link = true := by simp [sameLink, hohash, hhash]
    rw [Table.eq_of_clash sameLink_symm hother hlink hclash, hfresh] at hconsumed
    cases hconsumed
  · refine ⟨link.consume s.now tokenHash, List.mem_map_of_mem hlink, ?_, ?_⟩
    · rw [(link.consume_keys s.now tokenHash).2.1, hhash]
    · simp [MagicLinkToken.consume, husable]

/-- The request has consumed the link. -/
def PastLink (env : Env) (tokenHash : String) (t : ApiThread) : Prop :=
  Presents env tokenHash t.request ∧ ¬ Gated (LinkConsumed tokenHash) IsSession t.program

/-- The requests that present the link, and the link. -/
structure SingleLink (env : Env) (tokenHash : String) (p : ApiPool) : Prop where
  lone : Lone (PastLink env tokenHash) p.threads
  used : ∀ t ∈ p.threads, PastLink env tokenHash t → UsedUp p.state tokenHash

/-- What a request replies that consumed the link. -/
theorem linkConsumed_exec {env : Env} {tokenHash : String} {op : Op} {draw : Draw} {s : Db}
    (h : LinkConsumed tokenHash op (some (exec env op draw s).2)) :
    ¬ UsedUp s tokenHash ∧ UsedUp (exec env op draw s).1 tokenHash := by
  unfold LinkConsumed at h
  split at h
  · rename_i hash link hreply
    subst h
    have hfound : (s.magicLinks.rows.find? (·.usable s.now hash)).map (·.consume s.now hash) =
        some link := by
      simpa [exec, execDb] using hreply
    obtain ⟨found, hfound, -⟩ := Option.map_eq_some_iff.1 hfound
    exact consume_once hfound
  · cases h

theorem singleLink_step (env : Env) (tokenHash : String) (p : ApiPool)
    (a : Action Draw Request Nat) (hp : SingleLink env tokenHash p) :
    SingleLink env tokenHash ((api env).step p a) := by
  rcases (api env).step_cases p a with h | ⟨request, rfl, h⟩ |
    ⟨i, fate, draw, t, s', h', op, rfl, ht, -, hmove, h⟩ | ⟨seconds, rfl, h⟩
  · rw [h]
    exact hp
  · have hfresh : ¬ PastLink env tokenHash ⟨request, request.program env⟩ := by
      rintro ⟨⟨req, hreq, hhash⟩, hpast⟩
      obtain rfl : request = .magicLinkVerify req := hreq
      subst hhash
      exact hpast (gated_magicLinkVerify env req)
    rw [h]
    exact ⟨hp.lone.append hfresh, forall_append_one hp.used fun hpast => absurd hpast hfresh⟩
  · have hkept : UsedUp p.state tokenHash → UsedUp s' tokenHash := by
      intro hused
      rcases hmove.state with ⟨-, rfl⟩ | ⟨o, draw, -, -, rfl⟩
      · exact hused
      · exact hused.kept env o draw
    have hothers : ∀ (j : Nat) (u : ApiThread), j ≠ i → p.threads[j]? = some u →
        PastLink env tokenHash u → UsedUp s' tokenHash :=
      fun j u _ hu hpast => hkept (hp.used u (List.mem_of_getElem? hu) hpast)
    rw [h]
    by_cases hpast : PastLink env tokenHash t
    · refine ⟨hp.lone.set_same ht fun _ => hpast, forall_set (fun _ => ?_) hothers⟩
      exact hkept (hp.used t (List.mem_of_getElem? ht) hpast)
    · by_cases hpresents : Presents env tokenHash t.request
      · have hgated : Gated (LinkConsumed tokenHash) IsSession t.program :=
          not_not.1 fun hg => hpast ⟨hpresents, hg⟩
        rcases hgated.moves hmove with hgated' | ⟨o, nonce, -, rfl, hgate⟩ | ⟨o, hgate⟩
        · refine ⟨hp.lone.set fun hnew => absurd hgated' hnew.2, forall_set ?_ hothers⟩
          exact fun hnew => absurd hgated' hnew.2
        · -- this request consumes the link, so none before it has
          obtain ⟨hfresh, hused⟩ := linkConsumed_exec hgate
          refine ⟨hp.lone.set fun _ j u _ hu hother => ?_, forall_set (fun _ => hused) hothers⟩
          exact hfresh (hp.used u (List.mem_of_getElem? hu) hother)
        · unfold LinkConsumed at hgate
          split at hgate
          · rename_i hreply
            cases hreply
          · cases hgate
      · refine ⟨hp.lone.set fun hnew => absurd hnew.1 hpresents, forall_set ?_ hothers⟩
        exact fun hnew => absurd hnew.1 hpresents
  · rw [h]
    exact ⟨hp.lone, hp.used⟩

/-! ### Whose session it is -/

/-- Links with their address, users with their tenant and address, tenants with their slug. -/
abbrev Facts := Set (String × String) × Set (Uuid × Uuid × String) × Set (Uuid × String)

def Db.facts (s : Db) : Facts :=
  ({x | ∃ link ∈ s.magicLinks.rows, (link.tokenHash, link.email) = x},
   {x | ∃ user ∈ s.users.rows, (user.id, user.tenantId, user.email) = x},
   {x | ∃ tenant ∈ s.tenants.rows, (tenant.id, tenant.slug) = x})

/-- What a request learns from the reply. -/
def Op.Tells (env : Env) (w : Facts) : (op : Op) → op.Reply → Prop
  | .db (.peekMagicLink hash), .ok (some link) => link.tokenHash = hash ∧ (hash, link.email) ∈ w.1
  | .db (.getTenantById id), .ok t => t.id = id ∧ (t.id, t.slug) ∈ w.2.2
  | .db (.getTenantBySlug slug), .ok t => t.slug = slug ∧ (t.id, t.slug) ∈ w.2.2
  | .db (.findUserByEmail tenantId email), .ok (some u) =>
    u.tenantId = tenantId ∧ u.email = normalizeEmail env email ∧
      (u.id, u.tenantId, u.email) ∈ w.2.1
  | .db (.findUsersByEmail email), .ok users => ∀ u ∈ users, u.email = normalizeEmail env email ∧
      (u.id, u.tenantId, u.email) ∈ w.2.1
  | _, _ => True

/-- The session is one of the account that a link was mailed to, in the organisation that was
chosen if one was. -/
structure SignsIn (env : Env) (w : Facts) (req : MagicLinkVerifyRequest) (session : Session)
    (email : String) : Prop where
  mailed : (env.sha256 req.token, email) ∈ w.1
  member : (session.claims.sub, session.claims.tid, normalizeEmail env email) ∈ w.2.1
  organization : (session.claims.tid, session.user.tenantSlug) ∈ w.2.2
  chosen : ∀ slug, givenSlug req.tenantSlug = some slug → session.user.tenantSlug = slug
  address : session.claims.email = normalizeEmail env email
  shown : session.user.id = session.claims.sub ∧ session.user.tenantId = session.claims.tid ∧
    session.user.email = session.claims.email

/-- What `magic_link_verify` promises; of other requests nothing is asked. -/
def linkContract (env : Env) (r : Request) :
    Contract Facts Op Op.Reply (Except AppError Answer) where
  pre _ _ := True
  post w op reply := op.Tells env w reply
  ans w answer := ∀ req session, r = .magicLinkVerify req → answer = .ok (.session session) →
    ∃ email, SignsIn env w req session email

theorem linkContract_stable (env : Env) (r : Request) : (linkContract env r).Stable where
  pre := fun _ _ => trivial
  ans := by
    intro w w' answer hle hans req session hr hanswer
    obtain ⟨email, hsession⟩ := hans req session hr hanswer
    exact ⟨email, hle.1 hsession.mailed, hle.2.1 hsession.member, hle.2.2 hsession.organization,
      hsession.chosen, hsession.address, hsession.shown⟩

theorem facts_le (env : Env) (op : Op) (draw : Draw) (s : Db) :
    s.facts ≤ (exec env op draw s).1.facts := by
  refine ⟨?_, ?_, ?_⟩
  · rintro _ ⟨link, hlink, rfl⟩
    obtain ⟨link', hlink', hkept⟩ := magicLinks_grow env op draw s link hlink
    exact ⟨link', hlink', by rw [hkept.tokenHash, hkept.email]⟩
  · rintro _ ⟨user, huser, rfl⟩
    obtain ⟨user', huser', hid, htenant, hemail⟩ := users_grow env op draw s user huser
    exact ⟨user', huser', by rw [hid, htenant, hemail]⟩
  · rintro _ ⟨tenant, htenant, rfl⟩
    obtain ⟨tenant', htenant', rfl⟩ := tenants_grow env op draw s tenant htenant
    exact ⟨tenant, htenant', rfl⟩

theorem linkContract_honest (env : Env) (r : Request) (s : Db) :
    Honest (linkContract env r) (exec env) Db.facts s := by
  intro op draw _
  refine ⟨facts_le env op draw s, ?_⟩
  show op.Tells env _ (exec env op draw s).2
  generalize hreply : (exec env op draw s).2 = reply
  cases op with
  | db op =>
      cases op with
      | peekMagicLink hash =>
          cases reply with
          | error e => trivial
          | ok found =>
              cases found with
              | none => trivial
              | some link =>
                  have hfind : s.magicLinks.rows.find? (·.usable s.now hash) = some link := by
                    simpa [exec, execDb] using hreply
                  obtain ⟨hlink, husable⟩ := find_usable.1 hfind
                  obtain ⟨hhash, -⟩ := MagicLinkToken.usable_iff.1 husable
                  exact ⟨hhash, link, hlink, by rw [hhash]⟩
      | getTenantById id =>
          cases reply with
          | error e => trivial
          | ok t =>
              obtain ⟨ht, hid⟩ := fetchOne_eq_ok hreply
              simp only [Bool.and_eq_true, beq_iff_eq] at hid
              exact ⟨hid.1, t, ht, rfl⟩
      | getTenantBySlug slug =>
          cases reply with
          | error e => trivial
          | ok t =>
              obtain ⟨ht, hslug⟩ := fetchOne_eq_ok hreply
              simp only [Bool.and_eq_true, beq_iff_eq] at hslug
              exact ⟨hslug.1, t, ht, rfl⟩
      | findUserByEmail tenantId email =>
          cases reply with
          | error e => trivial
          | ok found =>
              cases found with
              | none => trivial
              | some u =>
                  have hfind := Except.ok.inj hreply
                  have hu := List.find?_some hfind
                  simp only [Bool.and_eq_true, beq_iff_eq] at hu
                  exact ⟨hu.1.1, hu.1.2, u, List.mem_of_find?_eq_some hfind, rfl⟩
      | findUsersByEmail email =>
          cases reply with
          | error e => trivial
          | ok users =>
              intro u hu
              rw [← Except.ok.inj hreply] at hu
              obtain ⟨hmem, hu⟩ := List.mem_filter.1 hu
              simp only [Bool.and_eq_true, beq_iff_eq] at hu
              exact ⟨hu.1, u, hmem, rfl⟩
      | _ => trivial
  | _ => trivial

/-- **The session is of the account that the link was mailed to.** -/
theorem keeps_magicLinkVerify (env : Env) (req : MagicLinkVerifyRequest) (w : Facts) :
    Keeps (linkContract env (.magicLinkVerify req)) w (magicLinkVerify env req) := by
  have herror : ∀ w e, (linkContract env (.magicLinkVerify req)).ans w (.error e) := by
    intro w e req session _ h
    cases h
  refine keeps_queryOr herror trivial fun w₁ found hle₁ hlink => ?_
  cases found with
  | none => exact herror w₁ _
  | some link =>
      have hconsume : ∀ w₂ t u, w₁ ≤ w₂ → u.tenantId = t.id → u.email = normalizeEmail env link.email →
          (u.id, u.tenantId, u.email) ∈ w₂.2.1 → (t.id, t.slug) ∈ w₂.2.2 →
          (∀ slug, givenSlug req.tenantSlug = some slug → t.slug = slug) →
          Keeps (linkContract env (.magicLinkVerify req)) w₂
            (consumeLink env (env.sha256 req.token) t u) := by
        intro w₂ t u hle₂ htenant hemail huser ht hslug
        refine keeps_queryOr herror trivial fun w₃ consumed hle₃ _ => ?_
        cases consumed with
        | none => exact herror w₃ _
        | some _ =>
            refine keeps_issueWithRoles herror (fun _ _ _ => trivial) ?_
            intro w₄ session hle₄ hof req' session' hreq hsession
            cases hreq
            cases hsession
            obtain ⟨hid, hshown, htid, hslug'⟩ := hof.user
            refine ⟨link.email, ?_, ?_, ?_, ?_, ?_, ?_⟩
            · exact (hle₂.trans (hle₃.trans hle₄)).1 hlink.2
            · rw [hof.sub, hof.tid, ← hemail, ← htenant]
              exact (hle₃.trans hle₄).2.1 huser
            · rw [hof.tid, hslug']
              exact (hle₃.trans hle₄).2.2 ht
            · intro slug hgiven
              rw [hslug']
              exact hslug slug hgiven
            · rw [hof.email, hemail]
            · exact ⟨hid.trans hof.sub.symm, htid.trans hof.tid.symm, hshown.trans hof.email.symm⟩
      dsimp only
      cases hgiven : givenSlug req.tenantSlug with
      | some slug =>
          refine keeps_memberBySlug herror (fun _ => trivial) (fun _ _ => trivial) ?_
          intro w₂ w₃ t u hle₂ hle₃ ht hu
          refine hconsume w₃ t u (hle₂.trans hle₃) hu.1 hu.2.1 hu.2.2 (hle₃.2.2 ht.2) ?_
          intro slug' hslug'
          rw [hgiven] at hslug'
          rw [ht.1]
          exact Option.some.inj hslug'
      | none =>
          refine keeps_queryOr herror trivial fun w₂ users hle₂ husers => ?_
          match users with
          | [] => exact herror w₂ _
          | [user] =>
              obtain ⟨hemail, huser⟩ := husers user List.mem_cons_self
              refine keeps_queryOr herror trivial fun w₃ t hle₃ ht => ?_
              refine hconsume w₃ t user (hle₂.trans hle₃) ht.1.symm hemail (hle₃.2.1 huser) ht.2 ?_
              intro slug hslug
              rw [hgiven] at hslug
              cases hslug
          | u :: v :: users =>
              refine keeps_listOrgs (fun _ _ => trivial) (fun w₃ orgs => ?_) (u :: v :: users) []
              intro req' session _ h
              cases h

/-- Every request for a session keeps its contract. -/
def UnderLinkContract (env : Env) (p : ApiPool) : Prop :=
  p.UnderContract (linkContract env) Db.facts fun _ => True

theorem underLinkContract_step (env : Env) (p : ApiPool) (a : Action Draw Request Nat)
    (hp : UnderLinkContract env p) : UnderLinkContract env ((api env).step p a) := by
  refine (api env).underContract_step (linkContract_stable env)
    (fun r s _ => linkContract_honest env r s) (fun _ _ _ _ _ _ => trivial)
    (fun _ _ _ => ⟨trivial, le_rfl⟩) (fun r _ => ?_) hp
  cases r with
  | magicLinkVerify req => exact keeps_magicLinkVerify env req _
  | _ => exact Keeps.of_ans (fun _ _ => trivial) (fun _ _ _ _ h => by cases h) _ _

/-! ### The link until it is consumed -/

/-- Only the statement that consumes the link changes it. -/
theorem link_kept {env : Env} {op : Op} {draw : Draw} {s : Db} {link : MagicLinkToken}
    (hlink : link ∈ s.magicLinks.rows) (hop : ¬ Consumes link.tokenHash op) :
    link ∈ (exec env op draw s).1.magicLinks.rows := by
  have heffect := exec_effect env op draw s
  generalize (exec env op draw s).1 = s' at heffect ⊢
  cases heffect with
  | link _ _ _ row t _ _ ht =>
      rw [ht]
      exact List.mem_append_left _ hlink
  | consume hash =>
      have hother : ¬ link.usable s.now hash = true := by
        intro husable
        obtain ⟨rfl, -, -⟩ := MagicLinkToken.usable_iff.1 husable
        exact hop rfl
      exact List.mem_map.2 ⟨link, hlink, if_neg hother⟩
  | _ => exact hlink

/-- A request that presents the link answers with no organisations once it carried out the
statement that consumes the link. -/
def Committed (env : Env) (tokenHash : String) (r : Request) (h : Endpoint) : Prop :=
  Presents env tokenHash r → h.Commits (Consumes tokenHash) IsPicker

theorem committed_program (env : Env) (tokenHash : String) (r : Request) :
    Committed env tokenHash r (r.program env) := by
  rintro ⟨req, rfl, rfl⟩
  exact commits_magicLinkVerify env req

/-- A request consumed the link, and it is none that answers with organisations. -/
def Taken (env : Env) (tokenHash : String) (p : ApiPool) : Prop :=
  ∃ t ∈ p.threads, Presents env tokenHash t.request ∧ t.program.Never IsPicker ∧
    (t.request, .db (.consumeMagicLink tokenHash)) ∈ p.log

/-- The link is there as it was, or it was consumed. -/
structure Watched (env : Env) (link : MagicLinkToken) (p : ApiPool) : Prop where
  onFoot : OnFoot env p
  committed : ∀ t ∈ p.threads, Committed env link.tokenHash t.request t.program
  kept : link ∈ p.state.magicLinks.rows ∨ Taken env link.tokenHash p

theorem watched_step (env : Env) (link : MagicLinkToken) (p : ApiPool)
    (a : Action Draw Request Nat) (hp : Watched env link p) :
    Watched env link ((api env).step p a) := by
  refine ⟨onFoot_step env p a hp.onFoot, ?_, ?_⟩
  · exact (api env).forall_threads_step a (committed_program env _)
      (fun _ _ _ _ _ _ h hmove hpresents => ((h hpresents).moves hmove).1) hp.committed
  rcases (api env).step_cases p a with h | ⟨request, rfl, h⟩ |
    ⟨i, fate, draw, t, s', h', op, rfl, ht, -, hmove, h⟩ | ⟨seconds, rfl, h⟩
  · rw [h]
    exact hp.kept
  · rw [h]
    rcases hp.kept with hlink | ⟨t, ht, htaken⟩
    · exact .inl hlink
    · exact .inr ⟨t, List.mem_append_left _ ht, htaken⟩
  · have hi : i < p.threads.length := (List.getElem?_eq_some_iff.1 ht).1
    have hmem : (⟨t.request, h'⟩ : ApiThread) ∈ p.threads.set i ⟨t.request, h'⟩ :=
      List.mem_set hi _
    rw [h]
    rcases hp.kept with hlink | ⟨u, hu, hpresents, hnever, hlog⟩
    · rcases hmove.state with ⟨-, rfl⟩ | ⟨o, draw, rfl, -, rfl⟩
      · exact .inl hlink
      · by_cases ho : Consumes link.tokenHash o
        · -- the step of a request that presents the link
          have hmay := ((hp.onFoot t (List.mem_of_getElem? ht)).moves hmove).2 o rfl
          have hcommits := hp.committed t (List.mem_of_getElem? ht)
          obtain rfl := ho
          have hpresents : Presents env link.tokenHash t.request := hmay
          have hnever := ((hcommits hpresents).moves hmove).2 _ rfl rfl
          exact .inr ⟨_, hmem, hpresents, hnever, by simp⟩
        · exact .inl (link_kept hlink ho)
    · have hset : ∃ v ∈ p.threads.set i ⟨t.request, h'⟩, Presents env link.tokenHash v.request ∧
          v.program.Never IsPicker ∧ v.request = u.request := by
        refine exists_set ⟨u, hu, hpresents, hnever, rfl⟩ ht ?_
        exact fun ⟨hpresents, hnever, hrequest⟩ => ⟨hpresents, hnever.moves hmove, hrequest⟩
      obtain ⟨v, hv, hpresents', hnever', hrequest⟩ := hset
      refine .inr ⟨v, hv, hpresents', hnever', ?_⟩
      rw [hrequest]
      exact List.mem_append_left _ hlog
  · rw [h]
    exact hp.kept

/-! ### Whole runs -/

/-- **Sign-in links.** In every run, at most one request with the link has answered with a
session, and that is one of the account that the link was mailed to. From any state in which the
link is not consumed, it is accepted until it expires, or a request consumes it that does not
answer with the organisations to choose from. -/
theorem link_once (env : Env) (tokenHash : String) (db : Db)
    (before after : List (Action Draw Request Nat)) :
    let p := run (api env).step (idlePool db) before
    let q := run (api env).step p after
    Lone (fun t : ApiThread => Presents env tokenHash t.request ∧ HasSession t) q.threads ∧
      (∀ t ∈ q.threads, ∀ req session, t.request = .magicLinkVerify req →
        t.program = .answer (.ok (.session session)) →
          ∃ email, SignsIn env q.state.facts req session email) ∧
      ∀ link ∈ p.state.magicLinks.rows, link.tokenHash = tokenHash → link.consumedAt = none →
        Taken env tokenHash q ∨ link.expiresAt ≤ q.state.now ∨
          ∀ draw, (execDb env (.peekMagicLink tokenHash) draw q.state).2 = .ok (some link) := by
  intro p q
  have hsingle : SingleLink env tokenHash q :=
    run_invariant _ (singleLink_step env tokenHash)
      (run_invariant _ (singleLink_step env tokenHash) ⟨Lone.nil, fun _ ht => absurd ht not_mem_idle⟩ before) after
  have hcontract : UnderLinkContract env q :=
    run_invariant _ (underLinkContract_step env)
      (run_invariant _ (underLinkContract_step env) ⟨trivial, fun _ ht => absurd ht not_mem_idle⟩ before) after
  refine ⟨?_, ?_, ?_⟩
  · refine hsingle.lone.mono ?_
    rintro t ⟨hpresents, session, hsession⟩
    refine ⟨hpresents, fun hgated => ?_⟩
    rw [hsession] at hgated
    exact hgated trivial
  · intro t ht req session hreq hsession
    have hkeeps := hcontract.threads t ht
    rw [hsession] at hkeeps
    exact hkeeps req session hreq rfl
  · rintro link hlink rfl hfresh
    have honFoot : OnFoot env p := run_invariant _ (onFoot_step env) (fun _ ht => absurd ht not_mem_idle) before
    have hcommitted : ∀ t ∈ p.threads, Committed env link.tokenHash t.request t.program := by
      refine run_invariant
        (fun p : ApiPool => ∀ t ∈ p.threads, Committed env link.tokenHash t.request t.program)
        (fun p a hp => (api env).forall_threads_step a (committed_program env _) ?_ hp)
        (fun _ ht => absurd ht not_mem_idle) before
      exact fun _ _ _ _ _ _ h hmove hpresents => ((h hpresents).moves hmove).1
    have hwatched : Watched env link q :=
      run_invariant _ (watched_step env link) ⟨honFoot, hcommitted, .inl hlink⟩ after
    rcases hwatched.kept with hkept | htaken
    · right
      rcases Nat.lt_or_ge q.state.now link.expiresAt with hnow | hnow
      · have husable : link.usable q.state.now link.tokenHash = true :=
          MagicLinkToken.usable_iff.2 ⟨rfl, hfresh, hnow⟩
        exact .inr fun _ => congrArg Except.ok (find_usable.2 ⟨hkept, husable⟩)
      · exact .inl hnow
    · exact .inl htaken

def sampleVerify : MagicLinkVerifyRequest := { token := "fp_rt_mail", tenantSlug := some "acme" }

def sampleSignIn : List (Action Draw Request Nat) :=
  .arrive (.magicLinkVerify sampleVerify) :: List.replicate 10 (.advance 0 .done (draw 101))

/-- One request on its own signs in with the link. -/
theorem link_once_alone :
    let p := run (api plainEnv).step (idlePool sampleDb) sampleSignIn
    HasSession p.threads[0] ∧
      ∃ session email, SignsIn plainEnv p.state.facts sampleVerify session email := by
  have hsession : HasSession (run (api plainEnv).step (idlePool sampleDb) sampleSignIn).threads[0] :=
    ⟨_, rfl⟩
  have hrequest : (run (api plainEnv).step (idlePool sampleDb) sampleSignIn).threads[0].request =
    .magicLinkVerify sampleVerify := rfl
  have honce := (link_once plainEnv "fp_rt_mail" sampleDb sampleSignIn []).2.1
    (run (api plainEnv).step (idlePool sampleDb) sampleSignIn).threads[0] (List.getElem_mem _)
  obtain ⟨session, hanswer⟩ := hsession
  exact ⟨⟨session, hanswer⟩, session, honce _ session hrequest hanswer⟩

end Feloxi.Auth
