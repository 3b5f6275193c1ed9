import Feloxi.Auth.Contracts
import Feloxi.Auth.Footprints

/-!
# Feloxi.Auth.Setup

The first registration. `register` asks whether there are tenants and then creates one with
its roles and its admin, a statement each and no transaction around them. Two requests that
both ask before either creates end up with two tenants; one that fails half way leaves a
tenant behind that nobody can sign in to, and the next is told that signup is disabled.
-/

namespace Feloxi.Auth

open Handlers Runs

/-! ### The steps after the check -/

/-- The reply of a step that goes through. -/
def Op.Fine (env : Env) : (op : Op) → op.Reply → Prop
  | .clock, _ => env.encodeError = none
  | .hashPassword _, reply => ∃ passwordHash, reply = .ok passwordHash
  | .db _, reply => ∃ value, reply = .ok value
  | _, _ => True

/-- A step of `register` after its check and the creation of its tenant. -/
def Op.Later : Op → Prop
  | .db .hasTenants => False
  | .db (.createTenant _ _) => False
  | _ => True

section Pieces

variable {env : Env} {P : Op → Prop}

theorem delivers_queryOr {op : DbOp} {mapErr : DbError → AppError} {next : op.Value → Endpoint}
    (hop : P (.db op)) (hnext : ∀ value, (next value).Delivers P (Op.Fine env) IsSession) :
    (queryOr op mapErr next).Delivers P (Op.Fine env) IsSession := by
  refine ⟨hop, fun reply hreply => ?_⟩
  obtain ⟨value, rfl⟩ := hreply
  exact hnext value

theorem delivers_hashPassword {password : String} {next : String → Endpoint}
    (hop : P (.hashPassword password))
    (hnext : ∀ passwordHash, (next passwordHash).Delivers P (Op.Fine env) IsSession) :
    (hashPassword password next).Delivers P (Op.Fine env) IsSession := by
  refine ⟨hop, fun reply hreply => ?_⟩
  obtain ⟨passwordHash, rfl⟩ := hreply
  exact hnext passwordHash

end Pieces

variable {env : Env}

theorem delivers_issueSession (user : User) (tenant : Tenant) (roleNames : List String) :
    (issueSession env user tenant roleNames).Delivers Op.Later (Op.Fine env) IsSession := by
  refine delivers_queryOr trivial fun roles => ⟨trivial, fun now hencode => ?_⟩
  have hencode : env.encodeError = none := hencode
  simp only [hencode]
  refine ⟨trivial, fun token _ => ⟨trivial, fun now _ => delivers_queryOr trivial fun _ => ?_⟩⟩
  trivial

theorem delivers_createRoles {tenantId : Uuid} {next : Endpoint}
    (hnext : next.Delivers Op.Later (Op.Fine env) IsSession) (roles : List (String × List String)) :
    (createRoles env tenantId roles next).Delivers Op.Later (Op.Fine env) IsSession := by
  induction roles with
  | nil => exact hnext
  | cons role rest ih => exact delivers_queryOr trivial fun _ => ih

/-- What is left of `register` once the tenant is there. -/
def furnish (env : Env) (req : RegisterRequest) (tenant : Tenant) : Endpoint :=
  createRoles env tenant.id systemRoles <|
    hashPassword req.password fun passwordHash =>
      queryOr (.createUser { tenantId := tenant.id, email := req.email, passwordHash,
                             displayName := req.displayName }) (createUserError env) fun user =>
        query env (.getRoleByName tenant.id "admin") fun adminRole =>
          query env (.assignRole user.id adminRole.id) fun _ =>
            issueSession env user tenant ["admin"]

theorem createAccount_eq (req : RegisterRequest) :
    createAccount env req =
      query env (.createTenant req.tenantName req.tenantSlug) (furnish env req) := rfl

/-- **The rest goes through** if each of its steps does. -/
theorem delivers_furnish (req : RegisterRequest) (tenant : Tenant) :
    (furnish env req tenant).Delivers Op.Later (Op.Fine env) IsSession := by
  refine delivers_createRoles ?_ systemRoles
  refine delivers_hashPassword trivial fun passwordHash => delivers_queryOr trivial fun user => ?_
  refine delivers_queryOr trivial fun adminRole => delivers_queryOr trivial fun _ => ?_
  exact delivers_issueSession user tenant ["admin"]

/-! ### The stages of a request -/

/-- The request has not asked yet, or has failed. -/
def Undecided (env : Env) (t : ApiThread) : Prop :=
  t.program = t.request.program env ∨ ∃ e, t.program = .answer (.error e)

/-- The request was told that there is no tenant, and is about to create one. -/
def Admitted (env : Env) (t : ApiThread) : Prop :=
  ∃ req, t.request = .register req ∧ t.program = createAccount env req

/-- The request has created its tenant and has not failed. -/
def Founded (env : Env) (t : ApiThread) : Prop :=
  t.program.Delivers Op.Later (Op.Fine env) IsSession

/-- The state as at the start, but for the clock. -/
def Untouched (db s : Db) : Prop := s = { db with now := s.now }

/-- Where the requests are, before one of them has created a tenant and after. -/
inductive SetupState (env : Env) (db : Db) (p : ApiPool) : Prop where
  | before (hstate : Untouched db p.state)
      (hthreads : ∀ t ∈ p.threads, Undecided env t ∨ Admitted env t)
      (hlone : Lone (Admitted env) p.threads)
  | after (tenant : Tenant) (hactive : tenant.isActive = true)
      (hstate : p.state.tenants.rows = [tenant])
      (hthreads : ∀ t ∈ p.threads, Undecided env t ∨ Founded env t)
      (hfounded : ∃ t ∈ p.threads, Founded env t)

/-- The check of one request does not fall between that of another and the creation of its
tenant, the creation of a tenant is not reported as failed when it took effect, and no later
step of a request fails. -/
def SetUpInTurn (env : Env) (p : ApiPool) : Action Draw Request Nat → Prop
  | .arrive r => ∃ req, r = .register req
  | .advance i fate draw => ∀ t op, p.threads[i]? = some t → t.program.nextOp = some op →
    (op = .db .hasTenants → ∀ j u, j ≠ i → p.threads[j]? = some u → ∀ name slug,
      u.program.nextOp ≠ some (.db (.createTenant name slug))) ∧
    (∀ name slug, op = .db (.createTenant name slug) → fate = .lost →
      ∃ e, (execDb env (.createTenant name slug) draw p.state).2 = .error e) ∧
    (op.Later → fate = .done ∧ op.Fine env (exec env op draw p.state).2)
  | .world _ => True

/-! ### One step of one request -/

/-- The check. -/
theorem step_register (hallow : env.allowSignup = false) (req : RegisterRequest) (fate : Fate)
    (draw : Draw) (s : Db) :
    ((register env req).step (exec env) fate draw s).1 = s ∧
      ((∃ e, ((register env req).step (exec env) fate draw s).2 = .answer (.error e)) ∨
        s.tenants.rows.any (·.isActive) = false ∧
          (register env req).nextOp = some (.db .hasTenants) ∧
          ((register env req).step (exec env) fate draw s).2 = createAccount env req) := by
  unfold register
  cases validatePassword req.password with
  | error e => exact ⟨rfl, .inl ⟨e, rfl⟩⟩
  | ok =>
      cases fate with
      | failed => exact ⟨rfl, .inl ⟨_, rfl⟩⟩
      | lost => exact ⟨rfl, .inl ⟨_, rfl⟩⟩
      | done =>
          refine ⟨rfl, ?_⟩
          cases hany : s.tenants.rows.any (·.isActive) with
          | true =>
              refine .inl ⟨.forbidden "Public signup is disabled", ?_⟩
              simp [guarded, query, queryOr, ask, Handler.step, exec, execDb, hany, hallow, refuse]
          | false =>
              refine .inr ⟨rfl, rfl, ?_⟩
              simp [guarded, query, queryOr, ask, Handler.step, exec, execDb, hany]

/-- The creation of the tenant. -/
theorem step_createAccount (req : RegisterRequest) {fate : Fate} {draw : Draw} {s : Db}
    (hlost : fate = .lost →
      ∃ e, (execDb env (.createTenant req.tenantName req.tenantSlug) draw s).2 = .error e) :
    ((createAccount env req).step (exec env) fate draw s).1 = s ∧
        (∃ e, ((createAccount env req).step (exec env) fate draw s).2 = .answer (.error e)) ∨
      ∃ tenant : Tenant, tenant.isActive = true ∧
        ((createAccount env req).step (exec env) fate draw s).1.tenants.rows =
          s.tenants.rows ++ [tenant] ∧
        ((createAccount env req).step (exec env) fate draw s).2 = furnish env req tenant := by
  rw [createAccount_eq]
  have hcases := insertRow_cases s.tenants (tenantRow draw.uuid req.tenantName req.tenantSlug)
    "tenants_slug_key" (fun tenants => { s with tenants }) s
  cases fate with
  | failed => exact .inl ⟨rfl, _, rfl⟩
  | lost =>
      obtain ⟨e, he⟩ := hlost rfl
      rcases hcases with ⟨e', h⟩ | ⟨row, t, -, -, -, h⟩
      · exact .inl ⟨congrArg Prod.fst h, _, rfl⟩
      · cases he.symm.trans (congrArg Prod.snd h)
  | done =>
      rcases hcases with ⟨e, h⟩ | ⟨row, t, hrow, -, ht, h⟩
      · left
        refine ⟨congrArg Prod.fst h, e.toAppError env, ?_⟩
        simp [query, queryOr, ask, Handler.step, exec, execDb, h, refuse]
      · right
        have hactive : row.isActive = true := by
          unfold tenantRow at hrow
          split at hrow
          · obtain rfl := Option.some.inj hrow
            rfl
          · cases hrow
        refine ⟨row, hactive, ?_, ?_⟩
        · show (insertRow _ _ _ _ _).1.tenants.rows = _
          rw [h]
          exact ht
        · simp [query, queryOr, ask, Handler.step, exec, execDb, h]

/-- A later step creates no tenant. -/
theorem tenants_exec {op : Op} {draw : Draw} {s : Db} (hop : op.Later) :
    (exec env op draw s).1.tenants = s.tenants := by
  have heffect := exec_effect env op draw s
  generalize (exec env op draw s).1 = s' at heffect ⊢
  cases heffect with
  | tenant => exact hop.elim
  | _ => rfl

theorem Founded.step {t : ApiThread} (h : Founded env t) {fate : Fate} {draw : Draw} {s : Db}
    (hfine : ∀ op, t.program.nextOp = some op → op.Later →
      fate = .done ∧ op.Fine env (exec env op draw s).2) :
    (t.program.step (exec env) fate draw s).1.tenants = s.tenants ∧
      Founded env ⟨t.request, (t.program.step (exec env) fate draw s).2⟩ := by
  obtain ⟨request, program⟩ := t
  cases program with
  | answer a => exact ⟨rfl, h⟩
  | act op next => exact ⟨tenants_exec h.1, h.2 _ (hfine op rfl h.1).2⟩
  | call op next failed =>
      obtain ⟨rfl, hreply⟩ := hfine op rfl h.1
      exact ⟨tenants_exec h.1, h.2 _ hreply⟩

/-! ### Whole runs -/

theorem Admitted.nextOp {t : ApiThread} (h : Admitted env t) :
    ∃ name slug, t.program.nextOp = some (.db (.createTenant name slug)) := by
  obtain ⟨req, -, hprogram⟩ := h
  exact ⟨req.tenantName, req.tenantSlug, by rw [hprogram]; rfl⟩

theorem Founded.not_failed {t : ApiThread} (h : Founded env t) (e : AppError) :
    t.program ≠ .answer (.error e) := by
  intro he
  rw [Founded, he] at h
  exact h

/-- A request that has not asked yet is about to, or has failed. -/
theorem Undecided.nextOp {t : ApiThread} {req : RegisterRequest} (h : Undecided env t)
    (hreq : t.request = .register req) :
    t.program.nextOp = some (.db .hasTenants) ∨ ∃ e, t.program = .answer (.error e) := by
  rcases h with h | h
  · rw [hreq] at h
    rw [h]
    show (register env req).nextOp = _ ∨ ∃ e, register env req = _
    unfold register
    cases validatePassword req.password with
    | error e => exact .inr ⟨e, rfl⟩
    | ok => exact .inl rfl
  · exact .inr h

theorem Undecided.not_admitted {t : ApiThread} {req : RegisterRequest} (h : Undecided env t)
    (hreq : t.request = .register req) : ¬ Admitted env t := by
  intro hadmitted
  obtain ⟨name, slug, hnext⟩ := hadmitted.nextOp
  rcases h.nextOp hreq with h | ⟨e, h⟩
  · cases h.symm.trans hnext
  · rw [h] at hnext
    cases hnext

theorem Undecided.not_founded {t : ApiThread} {req : RegisterRequest} (h : Undecided env t)
    (hreq : t.request = .register req) : ¬ Founded env t := by
  intro hfounded
  rcases h.nextOp hreq with hnext | ⟨e, he⟩
  · unfold Founded at hfounded
    cases hprogram : t.program with
    | answer a =>
        rw [hprogram] at hnext
        cases hnext
    | act op next =>
        rw [hprogram] at hnext hfounded
        obtain rfl := Option.some.inj hnext
        exact hfounded.1
    | call op next failed =>
        rw [hprogram] at hnext hfounded
        obtain rfl := Option.some.inj hnext
        exact hfounded.1
  · exact hfounded.not_failed e he

/-- The requests register, and are as far as their stages say. -/
structure SettingUp (env : Env) (db : Db) (p : ApiPool) : Prop where
  requests : ∀ t ∈ p.threads, ∃ req, t.request = .register req
  stages : SetupState env db p

/-- A step of a request before any has created a tenant. -/
theorem advance_before (hallow : env.allowSignup = false) {db : Db} (hdb : db.tenants.rows = [])
    {p : ApiPool} {i : Nat} {fate : Fate} {draw : Draw} {t : ApiThread} {req : RegisterRequest}
    (ht : p.threads[i]? = some t) (hreq : t.request = .register req)
    (hok : SetUpInTurn env p (.advance i fate draw)) (hstate : Untouched db p.state)
    (hthreads : ∀ u ∈ p.threads, Undecided env u ∨ Admitted env u)
    (hlone : Lone (Admitted env) p.threads) :
    SetupState env db ((api env).advance p i t fate draw) := by
  have hothers : ∀ (j : Nat) (u : ApiThread), j ≠ i → p.threads[j]? = some u →
      Undecided env u ∨ Admitted env u := fun j u _ hu => hthreads u (List.mem_of_getElem? hu)
  have hempty : p.state.tenants.rows = [] := by rw [hstate, hdb]
  obtain ⟨request, program⟩ := t
  obtain rfl : request = .register req := hreq
  -- a step that ends in a refusal and changes nothing
  have hrefused : (program.step (exec env) fate draw p.state).1 = p.state →
      (∃ e, (program.step (exec env) fate draw p.state).2 = .answer (.error e)) →
      SetupState env db ((api env).advance p i ⟨.register req, program⟩ fate draw) := by
    rintro hs ⟨e, he⟩
    have hundecided : Undecided env
        ⟨.register req, (program.step (exec env) fate draw p.state).2⟩ := .inr ⟨e, he⟩
    refine .before ?_ (forall_set (.inl hundecided) hothers) (hlone.set fun hnew => ?_)
    · show Untouched db (program.step (exec env) fate draw p.state).1
      rw [hs]
      exact hstate
    · exact absurd hnew (hundecided.not_admitted rfl)
  rcases hthreads _ (List.mem_of_getElem? ht) with (hfresh | ⟨e, he⟩) | ⟨req', hreq', hprogram⟩
  · obtain rfl : program = register env req := hfresh
    obtain ⟨hs, hrefuse | ⟨-, hnext, hnew⟩⟩ := step_register hallow req fate draw p.state
    · exact hrefused hs hrefuse
    · have hadmitted : Admitted env
          ⟨.register req, ((register env req).step (exec env) fate draw p.state).2⟩ :=
        ⟨req, rfl, hnew⟩
      refine .before ?_ (forall_set (.inr hadmitted) hothers) (hlone.set fun _ j u hj hu hother => ?_)
      · show Untouched db ((register env req).step (exec env) fate draw p.state).1
        rw [hs]
        exact hstate
      · obtain ⟨name, slug, hcreates⟩ := hother.nextOp
        exact (hok _ _ ht hnext).1 rfl j u hj hu name slug hcreates
  · obtain rfl : program = .answer (.error e) := he
    exact hrefused rfl ⟨e, rfl⟩
  · cases hreq'
    obtain rfl : program = createAccount env req := hprogram
    rcases step_createAccount req ((hok _ _ ht rfl).2.1 _ _ rfl) with
      ⟨hs, hrefuse⟩ | ⟨tenant, hactive, hrows, hnew⟩
    · exact hrefused hs hrefuse
    · have hfounded : Founded env
          ⟨.register req, ((createAccount env req).step (exec env) fate draw p.state).2⟩ := by
        rw [Founded, hnew]
        exact delivers_furnish req tenant
      refine .after tenant hactive ?_ (forall_set (.inr hfounded) fun j u hj hu => ?_) ?_
      · exact hrows.trans (by rw [hempty, List.nil_append])
      · rcases hothers j u hj hu with hundecided | hadmitted
        · exact .inl hundecided
        · exact absurd (hlone j i u _ hu ht hadmitted ⟨req, rfl, rfl⟩) hj
      · exact ⟨_, List.mem_set (List.getElem?_eq_some_iff.1 ht).1 _, hfounded⟩

/-- A step of a request once one has created a tenant. -/
theorem advance_after (hallow : env.allowSignup = false) {db : Db} {p : ApiPool} {i : Nat}
    {fate : Fate} {draw : Draw} {t : ApiThread} {req : RegisterRequest} {tenant : Tenant}
    (ht : p.threads[i]? = some t) (hreq : t.request = .register req)
    (hok : SetUpInTurn env p (.advance i fate draw)) (hactive : tenant.isActive = true)
    (hstate : p.state.tenants.rows = [tenant])
    (hthreads : ∀ u ∈ p.threads, Undecided env u ∨ Founded env u)
    (hfounded : ∃ u ∈ p.threads, Founded env u) :
    SetupState env db ((api env).advance p i t fate draw) := by
  have hothers : ∀ (j : Nat) (u : ApiThread), j ≠ i → p.threads[j]? = some u →
      Undecided env u ∨ Founded env u := fun j u _ hu => hthreads u (List.mem_of_getElem? hu)
  obtain ⟨request, program⟩ := t
  obtain rfl : request = .register req := hreq
  rcases hthreads _ (List.mem_of_getElem? ht) with hundecided | hfound
  · -- it is refused, if it was not before
    have hrefused : (program.step (exec env) fate draw p.state).1 = p.state ∧
        ∃ e, (program.step (exec env) fate draw p.state).2 = .answer (.error e) := by
      rcases hundecided with hfresh | ⟨e, he⟩
      · obtain rfl : program = register env req := hfresh
        obtain ⟨hs, hrefuse | ⟨hnone, -⟩⟩ := step_register hallow req fate draw p.state
        · exact ⟨hs, hrefuse⟩
        · simp [hstate, hactive] at hnone
      · obtain rfl : program = .answer (.error e) := he
        exact ⟨rfl, e, rfl⟩
    obtain ⟨hs, e, he⟩ := hrefused
    refine .after tenant hactive ?_ (forall_set (.inl (.inr ⟨e, he⟩)) hothers) ?_
    · show (program.step (exec env) fate draw p.state).1.tenants.rows = _
      rw [hs, hstate]
    · exact exists_set hfounded ht fun h => absurd h (hundecided.not_founded rfl)
  · obtain ⟨htenants, hstep⟩ := hfound.step fun op hnext hlater => (hok _ op ht hnext).2.2 hlater
    refine .after tenant hactive ?_ (forall_set (.inr hstep) hothers) ?_
    · show (program.step (exec env) fate draw p.state).1.tenants.rows = _
      rw [htenants, hstate]
    · exact exists_set hfounded ht fun _ => hstep

theorem settingUp_step (hallow : env.allowSignup = false) {db : Db} (hdb : db.tenants.rows = [])
    (p : ApiPool) (a : Action Draw Request Nat) (hp : SettingUp env db p)
    (hok : SetUpInTurn env p a) : SettingUp env db ((api env).step p a) := by
  cases a with
  | arrive r =>
      obtain ⟨req, rfl⟩ := hok
      have hnew : Undecided env ⟨.register req, (Request.register req).program env⟩ := .inl rfl
      refine ⟨forall_append_one hp.requests ⟨req, rfl⟩, ?_⟩
      cases hp.stages with
      | before hstate hthreads hlone =>
          exact .before hstate (forall_append_one hthreads (.inl hnew))
            (hlone.append (hnew.not_admitted rfl))
      | after tenant hactive hstate hthreads hfounded =>
          obtain ⟨u, hu, hfound⟩ := hfounded
          exact .after tenant hactive hstate (forall_append_one hthreads (.inl hnew))
            ⟨u, List.mem_append_left _ hu, hfound⟩
  | world seconds =>
      refine ⟨hp.requests, ?_⟩
      cases hp.stages with
      | before hstate hthreads hlone =>
          refine .before ?_ hthreads hlone
          show tick seconds p.state = _
          rw [hstate]
          rfl
      | after tenant hactive hstate hthreads hfounded =>
          exact .after tenant hactive hstate hthreads hfounded
  | advance i fate draw =>
      cases ht : p.threads[i]? with
      | none =>
          have hsame : (api env).step p (.advance i fate draw) = p := by
            simp only [Machine.step, ht]
          rwa [hsame]
      | some t =>
          obtain ⟨req, hreq⟩ := hp.requests t (List.mem_of_getElem? ht)
          rw [Machine.step_advance _ ht]
          constructor
          · exact forall_set ⟨req, hreq⟩ fun j u _ hu => hp.requests u (List.mem_of_getElem? hu)
          · cases hp.stages with
            | before hstate hthreads hlone =>
                exact advance_before hallow hdb ht hreq hok hstate hthreads hlone
            | after tenant hactive hstate hthreads hfounded =>
                exact advance_after hallow ht hreq hok hactive hstate hthreads hfounded

/-- With no tenant there, a registration whose own steps go through signs its user in. -/
theorem register_alone {req : RegisterRequest} {script : Nat → Fate × Draw} {s : Db}
    (hempty : s.tenants.rows = []) (hpassword : validatePassword req.password = .ok ())
    (hsmooth : (register env req).Smooth (exec env) (Op.Fine env) script s) :
    IsSession ((register env req).run (exec env) script s).2 := by
  have hdelivers : (createAccount env req).Delivers (fun _ => True) (Op.Fine env) IsSession :=
    delivers_queryOr trivial fun tenant => (delivers_furnish req tenant).mono fun _ _ => trivial
  unfold register at hsmooth ⊢
  rw [hpassword] at hsmooth ⊢
  obtain ⟨hdone, -, hrest⟩ := hsmooth
  have hreply : (exec env (.db .hasTenants) (script 0).2 s).2 = .ok false := by
    simp [exec, execDb, hempty]
  simp only [hreply, Bool.false_and, Bool.false_eq_true, if_false] at hrest
  simp only [guarded, query, queryOr, ask, Handler.run, hdone, hreply, Bool.false_and,
    Bool.false_eq_true, if_false]
  exact hdelivers.run hrest

/-- **The first registration.** In every run of registrations in turn there is at most one
tenant; and as long as each of them has failed or is not past the creation of its tenant,
nothing is stored, so that one more can still succeed. -/
theorem setup_once (env : Env) (hallow : env.allowSignup = false) (db : Db)
    (hdb : db.tenants.rows = []) (inputs : List (Action Draw Request Nat))
    (hall : AllSteps (api env).step (SetUpInTurn env) (idlePool db) inputs) :
    let p := run (api env).step (idlePool db) inputs
    p.state.tenants.rows.length ≤ 1 ∧
      ((∀ t ∈ p.threads, Undecided env t ∨ Admitted env t) →
        Untouched db p.state ∧ ∀ req script, validatePassword req.password = .ok () →
          (register env req).Smooth (exec env) (Op.Fine env) script p.state →
          IsSession ((register env req).run (exec env) script p.state).2) := by
  intro p
  have hstart : SettingUp env db (idlePool db) :=
    ⟨fun _ ht => absurd ht not_mem_idle, .before rfl (fun _ ht => absurd ht not_mem_idle) Lone.nil⟩
  have hp : SettingUp env db p := hall.invariant _ (settingUp_step hallow hdb) hstart
  cases hp.stages with
  | before hstate hthreads hlone =>
      have hempty : p.state.tenants.rows = [] := by rw [hstate, hdb]
      refine ⟨by rw [hempty]; exact Nat.zero_le 1, fun _ => ⟨hstate, ?_⟩⟩
      exact fun req script hpassword hsmooth => register_alone hempty hpassword hsmooth
  | after tenant hactive hstate hthreads hfounded =>
      refine ⟨by rw [hstate]; exact Nat.le_refl 1, fun hnone => ?_⟩
      obtain ⟨t, ht, hfound⟩ := hfounded
      obtain ⟨req, hreq⟩ := hp.requests t ht
      rcases hnone t ht with hundecided | hadmitted
      · exact absurd hfound (hundecided.not_founded hreq)
      · obtain ⟨req', -, hprogram⟩ := hadmitted
        rw [Founded, hprogram] at hfound
        exact hfound.1.elim

/-! ### Samples -/

def sampleRegister : RegisterRequest :=
  { tenantName := "Acme", tenantSlug := "acme", email := "ann@acme.io", password := "long enough",
    displayName := none }

/-- No call fails, and each draws its own id. -/
def sampleScript (n : Nat) : Fate × Draw := (.done, draw (BitVec.ofNat 128 (n + 1)))

/-- A registration that could not create its tenant. -/
def sampleAttempt : List (Action Draw Request Nat) :=
  [.arrive (.register sampleRegister), .advance 0 .done (draw 101), .advance 0 .failed (draw 102)]

/-- The next registration succeeds. -/
theorem setup_once_retry :
    IsSession ((register plainEnv sampleRegister).run (exec plainEnv) sampleScript
      (run (api plainEnv).step (idlePool emptyDb) sampleAttempt).state).2 := by
  have hall : AllSteps (api plainEnv).step (SetUpInTurn plainEnv) (idlePool emptyDb)
      sampleAttempt := by
    refine ⟨⟨_, rfl⟩, ?_, ?_, trivial⟩
    · rintro t op ht hop
      cases ht
      cases hop
      refine ⟨fun _ j u hj hu => ?_, nofun, nofun⟩
      cases j with
      | zero => exact absurd rfl hj
      | succ j => cases hu
    · rintro t op ht hop
      cases ht
      cases hop
      exact ⟨nofun, nofun, nofun⟩
  have hthreads : ∀ t ∈ (run (api plainEnv).step (idlePool emptyDb) sampleAttempt).threads,
      Undecided plainEnv t ∨ Admitted plainEnv t := by
    intro t ht
    obtain rfl := List.mem_singleton.1 ht
    exact .inl (.inr ⟨_, rfl⟩)
  have hsmooth : (register plainEnv sampleRegister).Smooth (exec plainEnv) (Op.Fine plainEnv)
      sampleScript (run (api plainEnv).step (idlePool emptyDb) sampleAttempt).state := by
    show Handler.Smooth (exec plainEnv) (Op.Fine plainEnv) (register plainEnv sampleRegister)
      sampleScript emptyDb
    -- the check, the tenant, its roles, the password, the user with its role, the session
    refine ⟨rfl, ⟨_, rfl⟩, rfl, ⟨_, rfl⟩, rfl, ⟨_, rfl⟩, rfl, ⟨_, rfl⟩, rfl, ⟨_, rfl⟩, rfl, ⟨_, rfl⟩,
      ⟨_, rfl⟩, rfl, ⟨_, rfl⟩, rfl, ⟨_, rfl⟩, rfl, ⟨_, rfl⟩, rfl, ⟨_, rfl⟩, rfl, trivial, rfl, rfl,
      ⟨_, rfl⟩, trivial⟩
  obtain ⟨-, hretry⟩ := setup_once plainEnv rfl emptyDb rfl sampleAttempt hall
  exact (hretry hthreads).2 sampleRegister sampleScript rfl hsmooth

/-- Two registrations that both look for tenants before either creates one. -/
def sampleRace : List (Action Draw Request Nat) :=
  [.arrive (.register sampleRegister),
   .arrive (.register { sampleRegister with tenantSlug := "umbrella" }),
   .advance 0 .done (draw 101), .advance 1 .done (draw 102), .advance 0 .done (draw 103),
   .advance 1 .done (draw 104)]

/-- A registration whose address no column can store. -/
def sampleUnstorable : RegisterRequest := { sampleRegister with email := "ann\x00@acme.io" }

/-- The race leaves two tenants; the registration that cannot store its user leaves one, and
the next is told that signup is disabled. -/
theorem setup_races_and_sticks :
    (run (api plainEnv).step (idlePool emptyDb) sampleRace).state.tenants.rows.length = 2 ∧
      let failed := (register plainEnv sampleUnstorable).run (exec plainEnv) sampleScript emptyDb
      failed.2 = .error (.database "pool timed out") ∧ failed.1.tenants.rows.length = 1 ∧
        ((register plainEnv sampleRegister).run (exec plainEnv) sampleScript failed.1).2 =
          .error (.forbidden "Public signup is disabled") := by
  refine ⟨rfl, ?_, ?_, ?_⟩
  · rfl
  · rfl
  · rfl

end Feloxi.Auth
