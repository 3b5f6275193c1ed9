import Feloxi.Auth.Footprints

/-!
# Feloxi.Auth.Members

The admins of a tenant. `remove_member` asks for `team_manage` in the caller's token and that
the caller does not remove itself. A token outlives its user, so the second check alone leaves
an admin only while callers are admins at the moment of the removal.
-/

namespace Feloxi.Auth

open Handlers Runs

/-- An active user of the tenant with the admin role. -/
def Db.isAdmin (tenant : Uuid) (s : Db) (u : User) : Bool :=
  u.tenantId == tenant && u.isActive && (s.rolesOf u.id).any (·.name == "admin")

def Db.adminsOf (tenant : Uuid) (s : Db) : List User := s.users.rows.filter (s.isAdmin tenant)

/-- The user of this id is an admin of the tenant. -/
def Db.Administers (tenant userId : Uuid) (s : Db) : Prop := ∃ u ∈ s.adminsOf tenant, u.id = userId

theorem administers_iff {tenant userId : Uuid} {s : Db} :
    s.Administers tenant userId ↔
      ∃ u ∈ s.users.rows, ∃ r ∈ s.roles.rows, u.id = userId ∧ u.tenantId = tenant ∧
        u.isActive = true ∧ (userId, r.id) ∈ s.userRoles ∧ r.name = "admin" := by
  simp only [Db.Administers, Db.adminsOf, List.mem_filter, Db.isAdmin, Bool.and_eq_true,
    beq_iff_eq, List.any_eq_true, Db.rolesOf, decide_eq_true_eq]
  constructor
  · rintro ⟨u, ⟨hu, ⟨htenant, hactive⟩, r, ⟨hr, hrole⟩, hname⟩, rfl⟩
    exact ⟨u, hu, r, hr, rfl, htenant, hactive, hrole, hname⟩
  · rintro ⟨u, hu, r, hr, rfl, htenant, hactive, hrole, hname⟩
    exact ⟨u, ⟨hu, ⟨htenant, hactive⟩, r, ⟨hr, hrole⟩, hname⟩, rfl⟩

/-- **An admin stays one** under every operation but its own removal. -/
theorem administers_exec {env : Env} {op : Op} {draw : Draw} {s : Db} {tenant userId : Uuid}
    (hop : op ≠ .db (.deactivateUser userId)) (h : s.Administers tenant userId) :
    (exec env op draw s).1.Administers tenant userId := by
  obtain ⟨u, hu, r, hr, hid, htenant, hactive, hrole, hname⟩ := administers_iff.1 h
  have heffect := exec_effect env op draw s
  generalize (exec env op draw s).1 = s' at heffect ⊢
  rw [administers_iff]
  cases heffect with
  | role _ _ _ _ row t _ _ ht =>
      refine ⟨u, hu, r, ?_, hid, htenant, hactive, hrole, hname⟩
      rw [ht]
      exact List.mem_append_left _ hr
  | assign id roleId =>
      exact ⟨u, hu, r, hr, hid, htenant, hactive, List.mem_append_left _ hrole, hname⟩
  | user _ row t _ _ ht =>
      refine ⟨u, ?_, r, hr, hid, htenant, hactive, hrole, hname⟩
      rw [ht]
      exact List.mem_append_left _ hu
  | password id tenantId passwordHash =>
      obtain ⟨hid', htenant', -, hactive'⟩ := u.setPassword_keys id tenantId passwordHash
      exact ⟨_, List.mem_map_of_mem hu, r, hr, hid'.trans hid, htenant'.trans htenant,
        hactive'.trans hactive, hrole, hname⟩
  | deactivate id =>
      have hother : u.id ≠ id := by
        rintro rfl
        exact hop (by rw [hid])
      refine ⟨u, List.mem_map.2 ⟨u, hu, if_neg hother⟩, r, hr, hid, htenant, hactive, hrole, hname⟩
  | _ => exact ⟨u, hu, r, hr, hid, htenant, hactive, hrole, hname⟩

/-! ### Removals -/

/-- Where the step removes an admin of the tenant, its caller is one at that moment. -/
def RemovedByAdmin (tenant : Uuid) (p : ApiPool) : Action Draw Request Nat → Prop
  | .advance i fate _ => ∀ t caller memberId, p.threads[i]? = some t →
    t.request = .removeMember caller memberId →
    t.program.effect fate = some (.db (.deactivateUser memberId)) →
    p.state.Administers tenant memberId → p.state.Administers tenant caller.userId
  | _ => True

/-- Every request keeps to its footprint, and the tenant has an admin. -/
structure Governed (env : Env) (tenant : Uuid) (p : ApiPool) : Prop where
  onFoot : OnFoot env p
  admin : ∃ userId, p.state.Administers tenant userId

theorem governed_step (env : Env) (tenant : Uuid) (p : ApiPool) (a : Action Draw Request Nat)
    (hp : Governed env tenant p) (hok : RemovedByAdmin tenant p a) :
    Governed env tenant ((api env).step p a) := by
  refine ⟨onFoot_step env p a hp.onFoot, ?_⟩
  obtain ⟨userId, hadmin⟩ := hp.admin
  rcases (api env).step_cases p a with h | ⟨request, rfl, h⟩ |
    ⟨i, fate, draw, t, s', h', op, rfl, ht, heffect, hmove, h⟩ | ⟨seconds, rfl, h⟩
  · rw [h]
    exact ⟨userId, hadmin⟩
  · rw [h]
    exact ⟨userId, hadmin⟩
  · rw [h]
    rcases hmove.state with ⟨-, rfl⟩ | ⟨o, draw, rfl, hnext, rfl⟩
    · exact ⟨userId, hadmin⟩
    · by_cases hself : o = .db (.deactivateUser userId)
      · -- the caller is another admin, and is left
        have hmay := ((hp.onFoot t (List.mem_of_getElem? ht)).moves hmove).2 o rfl
        subst hself
        obtain ⟨caller, hrequest, hother, -⟩ := hmay
        have hcaller := hok t caller userId ht hrequest heffect hadmin
        exact ⟨caller.userId, administers_exec (by simpa using hother) hcaller⟩
      · exact ⟨userId, administers_exec hself hadmin⟩
  · rw [h]
    exact ⟨userId, hadmin⟩

/-- **A tenant keeps an admin** in every run in which admins are removed by admins only. -/
theorem admin_stays (env : Env) (tenant : Uuid) (db : Db) (inputs : List (Action Draw Request Nat))
    (hadmin : ∃ userId, db.Administers tenant userId)
    (hall : AllSteps (api env).step (fun p => RemovedByAdmin tenant p) (idlePool db) inputs) :
    ∃ userId, (run (api env).step (idlePool db) inputs).state.Administers tenant userId :=
  (hall.invariant _ (governed_step env tenant) ⟨fun _ ht => absurd ht not_mem_idle, hadmin⟩).admin

/-! ### Two admins -/

/-- The caller that an admin's token gives, whatever became of the admin. -/
def sampleCaller (id : Uuid) (email : String) : CurrentUser :=
  { userId := id, tenantId := 7, email, roles := ["admin"], permissions := ["team_manage"] }

/-- One admin removes the other. -/
theorem admin_stays_ann :
    ∃ userId, (run (api plainEnv).step (idlePool sampleDb)
      (.arrive (.removeMember (sampleCaller 1 "ann@acme.io") 2) ::
        List.replicate 2 (.advance 0 .done (draw 101)))).state.Administers 7 userId := by
  have hann : sampleDb.Administers 7 1 := ⟨_, List.mem_cons_self, rfl⟩
  refine admin_stays plainEnv 7 sampleDb _ ⟨1, hann⟩ ⟨trivial, ?_, ?_, trivial⟩
  · rintro t caller memberId ht hrequest heffect
    cases ht
    cases heffect
  · rintro t caller memberId ht hrequest _ _
    cases ht
    cases hrequest
    exact hann

/-- Each removes the other, the second with the token of the admin that is gone. -/
theorem no_admin_left :
    (∃ userId, sampleDb.Administers 7 userId) ∧
      ¬ ∃ userId, (run (api plainEnv).step (idlePool sampleDb)
        (.arrive (.removeMember (sampleCaller 1 "ann@acme.io") 2) ::
          .arrive (.removeMember (sampleCaller 2 "bob@acme.io") 1) ::
          .advance 1 .done (draw 101) :: .advance 0 .done (draw 102) ::
          .advance 0 .done (draw 103) :: [.advance 1 .done (draw 104)])).state.Administers
            7 userId := by
  refine ⟨⟨1, _, List.mem_cons_self, rfl⟩, ?_⟩
  rintro ⟨userId, u, hu, -⟩
  cases hu

end Feloxi.Auth
