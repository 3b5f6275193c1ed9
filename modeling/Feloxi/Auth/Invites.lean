import Feloxi.Auth.MagicLinks
import Feloxi.Auth.Setup

/-!
# Feloxi.Auth.Invites

Accepting an invite. `accept_invite` claims the token in its first statement and goes on with
others, without a transaction around them: when one of these fails, the token stays claimed.
-/

namespace Feloxi.Auth

open Handlers

/-! ### Behind the claim -/

/-- `accept_invite`, once it knows what the claim returned. -/
def afterClaim (env : Env) (req : AcceptInviteRequest) : Option UserInvite → Endpoint
  | none => refuse (.notFound "Invite not found or expired")
  | some invite =>
    query env (.getTenantById invite.tenantId) fun tenant =>
      query env (.getRoleByName invite.tenantId invite.roleName) fun role =>
        hashPassword req.password fun passwordHash =>
          let displayName := (req.displayName.map fun s => String.ofList (trim s.toList)).filter
            (· != "")
          let input : CreateUser :=
            { tenantId := invite.tenantId, email := invite.email, passwordHash, displayName }
          queryOr (.createUser input) (createUserError env) fun user =>
            query env (.assignRole user.id role.id) fun _ =>
              issueSession env user tenant [invite.roleName]

theorem acceptInvite_eq (env : Env) (req : AcceptInviteRequest) :
    acceptInvite env req = guarded (validatePassword req.password)
      (query env (.claimInvite (env.sha256 req.token)) (afterClaim env req)) := by
  unfold acceptInvite
  congr
  funext found
  cases found <;> rfl

/-- Any answer but an error. -/
def IsAccepted (a : Except AppError Answer) : Prop := ∃ answer, a = .ok answer

theorem not_isAccepted_error (e : AppError) : ¬ IsAccepted (.error e) := nofun

theorem not_isAccepted {a : Except AppError Answer} : ¬ IsAccepted a ↔ ∃ e, a = .error e := by
  cases a with
  | error e => exact iff_of_true (not_isAccepted_error e) ⟨e, rfl⟩
  | ok answer => exact iff_of_false (fun h => h ⟨answer, rfl⟩) nofun

section Pieces

variable {env : Env}

theorem strict_queryOr {op : DbOp} {mapErr : DbError → AppError} {next : op.Value → Endpoint}
    (hnext : ∀ value, (next value).Strict (Op.Fine env) IsAccepted) :
    (queryOr op mapErr next).Strict (Op.Fine env) IsAccepted := by
  refine ⟨fun reply => ?_, not_isAccepted_error _⟩
  cases reply with
  | error e => exact ⟨nofun, fun _ => not_isAccepted_error _⟩
  | ok value => exact ⟨fun _ => hnext value, fun hnot => absurd ⟨value, rfl⟩ hnot⟩

theorem strict_hashPassword {password : String} {next : String → Endpoint}
    (hnext : ∀ passwordHash, (next passwordHash).Strict (Op.Fine env) IsAccepted) :
    (hashPassword password next).Strict (Op.Fine env) IsAccepted := by
  intro reply
  cases reply with
  | error e => exact ⟨nofun, fun _ => not_isAccepted_error _⟩
  | ok passwordHash => exact ⟨fun _ => hnext passwordHash, fun hnot => absurd ⟨_, rfl⟩ hnot⟩

theorem strict_issueSession (user : User) (tenant : Tenant) (roleNames : List String) :
    (issueSession env user tenant roleNames).Strict (Op.Fine env) IsAccepted := by
  refine strict_queryOr fun roles now => ?_
  cases hencode : env.encodeError with
  | some e =>
      refine ⟨fun hfine => ?_, fun _ => not_isAccepted_error _⟩
      cases hencode.symm.trans hfine
  | none =>
      refine ⟨fun _ token => ⟨fun _ now => ⟨fun _ => ?_, fun hnot => absurd hencode hnot⟩,
        fun hnot => absurd trivial hnot⟩, fun hnot => absurd hencode hnot⟩
      exact strict_queryOr fun _ => trivial

theorem strict_afterClaim (req : AcceptInviteRequest) (found : Option UserInvite) :
    (afterClaim env req found).Strict (Op.Fine env) IsAccepted := by
  cases found with
  | none => trivial
  | some invite =>
      refine strict_queryOr fun tenant => strict_queryOr fun role => ?_
      refine strict_hashPassword fun passwordHash => strict_queryOr fun user => ?_
      exact strict_queryOr fun _ => strict_issueSession user tenant _

end Pieces

/-- It goes through if each of its steps does. -/
theorem delivers_afterClaim {env : Env} (req : AcceptInviteRequest) (invite : UserInvite) :
    (afterClaim env req (some invite)).Delivers (fun _ => True) (Op.Fine env) IsSession := by
  refine delivers_queryOr trivial fun tenant => delivers_queryOr trivial fun role => ?_
  refine delivers_hashPassword trivial fun passwordHash => delivers_queryOr trivial fun user => ?_
  refine delivers_queryOr trivial fun _ => ?_
  exact (delivers_issueSession user tenant _).mono fun _ _ => trivial

/-- A step that is not about invites. -/
def Op.SparesInvites : Op → Prop
  | .db (.createInvite _) => False
  | .db (.claimInvite _) => False
  | _ => True

theorem invites_exec {env : Env} {op : Op} (hop : op.SparesInvites) (draw : Draw) (s : Db) :
    (exec env op draw s).1.invites = s.invites := by
  have heffect := exec_effect env op draw s
  generalize (exec env op draw s).1 = s' at heffect ⊢
  cases heffect with
  | invite => exact hop.elim
  | claim => exact hop.elim
  | _ => rfl

theorem spares_issueSession {env : Env} (user : User) (tenant : Tenant) (roleNames : List String) :
    (issueSession env user tenant roleNames).AllOps Op.SparesInvites := by
  refine allOps_queryOr trivial fun roles => ⟨trivial, fun now => ?_⟩
  cases env.encodeError with
  | some e => trivial
  | none => exact ⟨trivial, fun _ => ⟨trivial, fun _ => allOps_queryOr trivial fun _ => trivial⟩⟩

theorem spares_afterClaim {env : Env} (req : AcceptInviteRequest) (found : Option UserInvite) :
    (afterClaim env req found).AllOps Op.SparesInvites := by
  cases found with
  | none => trivial
  | some invite =>
      refine allOps_queryOr trivial fun tenant => allOps_queryOr trivial fun role => ?_
      refine allOps_hashPassword trivial fun passwordHash => allOps_queryOr trivial fun user => ?_
      exact allOps_queryOr trivial fun _ => spares_issueSession user tenant _

/-- The invites are as the claim has left them. -/
theorem invites_afterClaim (env : Env) (req : AcceptInviteRequest) (found : Option UserInvite)
    (script : Nat → Fate × Draw) (s : Db) :
    ((afterClaim env req found).run (exec env) script s).1.invites = s.invites :=
  (spares_afterClaim req found).run (I := fun s' => s'.invites = s.invites)
    (fun _ draw s' hop hs' => (invites_exec hop draw s').trans hs') rfl

/-! ### Another attempt -/

/-- Every invite that was pending with the token still is, and no user was added. -/
def Repeatable (tokenHash : String) (s s' : Db) : Prop :=
  (∀ invite ∈ s.invites.rows, invite.pending s.now tokenHash = true →
    invite ∈ s'.invites.rows ∧ invite.pending s'.now tokenHash = true) ∧
  s'.users.rows = s.users.rows

theorem repeatable_self (tokenHash : String) (s : Db) : Repeatable tokenHash s s :=
  ⟨fun _ hinvite hpending => ⟨hinvite, hpending⟩, rfl⟩

/-- Without a pending invite the claim does nothing. -/
theorem repeatable_claim {tokenHash : String} {s : Db}
    (h : ∀ invite ∈ s.invites.rows, invite.pending s.now tokenHash = false) :
    Repeatable tokenHash s (s.claim tokenHash) := by
  refine ⟨fun invite hinvite hpending => ?_, rfl⟩
  rw [h invite hinvite] at hpending
  cases hpending

theorem pending_claim (now : Instant) (tokenHash : String) (i : UserInvite) :
    (i.claim now tokenHash).pending now tokenHash = false := by
  unfold UserInvite.claim
  split
  · simp [UserInvite.pending]
  · rename_i hnot
    exact Bool.eq_false_iff.2 hnot

/-- A claimed invite stays claimed. -/
theorem not_repeatable {tokenHash : String} {s s' : Db} {invite : UserInvite}
    (hinvite : invite ∈ s.invites.rows) (hpending : invite.pending s.now tokenHash = true)
    (hs' : s'.invites = (s.claim tokenHash).invites) : ¬ Repeatable tokenHash s s' := by
  intro h
  have hkept := (h.1 invite hinvite hpending).1
  rw [hs'] at hkept
  obtain ⟨i, -, rfl⟩ := List.mem_map.1 hkept
  rw [pending_claim] at hpending
  cases hpending

/-- What the claim finds. -/
def claimed (tokenHash : String) (s : Db) : Option UserInvite :=
  (s.invites.rows.find? (·.pending s.now tokenHash)).map (·.claim s.now tokenHash)

section Run

variable {env : Env} {req : AcceptInviteRequest} {script : Nat → Fate × Draw} {s : Db}

theorem run_acceptInvite_done (hpassword : validatePassword req.password = .ok ())
    (hfate : (script 0).1 = .done) :
    (acceptInvite env req).run (exec env) script s =
      (afterClaim env req (claimed (env.sha256 req.token) s)).run (exec env)
        (fun n => script (n + 1)) (s.claim (env.sha256 req.token)) := by
  rw [acceptInvite_eq, hpassword]
  simp only [guarded, query, queryOr, ask, Handler.run, hfate]
  rfl

theorem run_acceptInvite_failed (hpassword : validatePassword req.password = .ok ())
    (hfate : (script 0).1 = .failed) :
    ((acceptInvite env req).run (exec env) script s).1 = s := by
  rw [acceptInvite_eq, hpassword]
  simp only [guarded, query, queryOr, ask, Handler.run, hfate]
  rfl

theorem run_acceptInvite_lost (hpassword : validatePassword req.password = .ok ())
    (hfate : (script 0).1 = .lost) :
    (acceptInvite env req).run (exec env) script s =
      (s.claim (env.sha256 req.token), .error (.database env.databaseError)) := by
  rw [acceptInvite_eq, hpassword]
  simp only [guarded, query, queryOr, ask, Handler.run, hfate]
  rfl

theorem smooth_acceptInvite (hpassword : validatePassword req.password = .ok ()) :
    (acceptInvite env req).Smooth (exec env) (Op.Fine env) script s ↔
      (script 0).1 = .done ∧
        (afterClaim env req (claimed (env.sha256 req.token) s)).Smooth (exec env) (Op.Fine env)
          (fun n => script (n + 1)) (s.claim (env.sha256 req.token)) := by
  rw [acceptInvite_eq, hpassword]
  constructor
  · intro h
    exact ⟨h.1, h.2.2⟩
  · intro h
    exact ⟨h.1, ⟨_, rfl⟩, h.2⟩

end Run

/-- **Invites.** An attempt that ends in an error can be repeated exactly if no invite was pending,
or the claim was not carried out; or there is no error, because every step goes through. -/
theorem accept_invite_repeatable_iff (env : Env) (req : AcceptInviteRequest)
    (hpassword : validatePassword req.password = .ok ()) (script : Nat → Fate × Draw) (s : Db) :
    ((∃ e, ((acceptInvite env req).run (exec env) script s).2 = .error e) →
        Repeatable (env.sha256 req.token) s
          ((acceptInvite env req).run (exec env) script s).1) ↔
      (∀ invite ∈ s.invites.rows, invite.pending s.now (env.sha256 req.token) = false) ∨
        (script 0).1 = .failed ∨
          (acceptInvite env req).Smooth (exec env) (Op.Fine env) script s := by
  by_cases hnone : ∀ invite ∈ s.invites.rows, invite.pending s.now (env.sha256 req.token) = false
  · refine iff_of_true (fun _ => ?_) (.inl hnone)
    have hfind : claimed (env.sha256 req.token) s = none := by
      rw [claimed, List.find?_eq_none.2 fun i hi => Bool.eq_false_iff.1 (hnone i hi)]
      rfl
    cases hfate : (script 0).1 with
    | done =>
        rw [run_acceptInvite_done hpassword hfate, hfind]
        exact repeatable_claim hnone
    | failed =>
        rw [run_acceptInvite_failed hpassword hfate]
        exact repeatable_self _ s
    | lost =>
        rw [run_acceptInvite_lost hpassword hfate]
        exact repeatable_claim hnone
  · have hpending : ∃ invite ∈ s.invites.rows,
        invite.pending s.now (env.sha256 req.token) = true := by simpa using hnone
    obtain ⟨invite, hinvite, hpending⟩ := hpending
    obtain ⟨found, hfind⟩ : ∃ found, claimed (env.sha256 req.token) s = some found := by
      have hsome : (s.invites.rows.find? (·.pending s.now (env.sha256 req.token))).isSome :=
        List.find?_isSome.2 ⟨invite, hinvite, hpending⟩
      obtain ⟨i, hi⟩ := Option.isSome_iff_exists.1 hsome
      exact ⟨_, by rw [claimed, hi]; rfl⟩
    rw [smooth_acceptInvite hpassword, hfind]
    cases hfate : (script 0).1 with
    | failed =>
        rw [run_acceptInvite_failed hpassword hfate]
        exact iff_of_true (fun _ => repeatable_self _ s) (.inr (.inl rfl))
    | lost =>
        rw [run_acceptInvite_lost hpassword hfate]
        refine iff_of_false (fun h => ?_) (by simp [hnone])
        exact not_repeatable hinvite hpending rfl (h ⟨_, rfl⟩)
    | done =>
        rw [run_acceptInvite_done hpassword hfate, hfind]
        by_cases hsmooth : (afterClaim env req (some found)).Smooth (exec env) (Op.Fine env)
            (fun n => script (n + 1)) (s.claim (env.sha256 req.token))
        · refine iff_of_true (fun herror => ?_) (.inr (.inr ⟨rfl, hsmooth⟩))
          obtain ⟨e, he⟩ := herror
          have hsession := (delivers_afterClaim req found).run hsmooth
          rw [he] at hsession
          exact hsession.elim
        · refine iff_of_false (fun h => ?_) (by simp [hnone, hsmooth])
          have herror := not_isAccepted.1 ((strict_afterClaim req (some found)).run hsmooth)
          have hinvites := invites_afterClaim env req (some found) (fun n => script (n + 1))
            (s.claim (env.sha256 req.token))
          exact not_repeatable hinvite hpending hinvites (h herror)

/-! ### Samples -/

def sampleInvite : UserInvite :=
  { id := 70, tenantId := 7, email := "bob@acme.io", roleName := "admin",
    tokenHash := "fp_inv_mail", invitedBy := some 1, expiresAt := 1000, acceptedAt := none }

def sampleAccept : AcceptInviteRequest :=
  { token := "fp_inv_mail", password := "long enough", displayName := none }

/-- A member that was removed, and invited again. -/
def invitedAgain : Db :=
  { sampleDb with
    users :=
      ⟨[sampleMember 1 "ann@acme.io", { sampleMember 2 "bob@acme.io" with isActive := false }],
        by decide⟩
    invites := ⟨[sampleInvite], List.pairwise_singleton _ _⟩ }

/-- The claim does not reach the database. -/
theorem accept_invite_repeatable_iff_sample :
    Repeatable "fp_inv_mail" invitedAgain
      ((acceptInvite plainEnv sampleAccept).run (exec plainEnv)
        (fun n => (.failed, draw (BitVec.ofNat 128 n))) invitedAgain).1 :=
  (accept_invite_repeatable_iff plainEnv sampleAccept rfl _ invitedAgain).2 (.inr (.inl rfl))
    ⟨_, rfl⟩

/-- The address is still that of the removed member; the second attempt finds no invite. -/
theorem invite_lost_on_conflict :
    sampleInvite ∈ invitedAgain.invites.rows ∧
      sampleInvite.pending invitedAgain.now "fp_inv_mail" = true ∧
      ((acceptInvite plainEnv sampleAccept).run (exec plainEnv) sampleScript invitedAgain).2 =
        .error (.conflict "A user with this email already exists") ∧
      ¬ Repeatable "fp_inv_mail" invitedAgain
        ((acceptInvite plainEnv sampleAccept).run (exec plainEnv) sampleScript invitedAgain).1 ∧
      ((acceptInvite plainEnv sampleAccept).run (exec plainEnv) sampleScript
        ((acceptInvite plainEnv sampleAccept).run (exec plainEnv) sampleScript invitedAgain).1).2 =
          .error (.notFound "Invite not found or expired") := by
  have hpending : sampleInvite.pending invitedAgain.now "fp_inv_mail" = true := by decide
  refine ⟨List.mem_singleton_self _, hpending, by rfl, ?_, by rfl⟩
  exact not_repeatable (List.mem_singleton_self _) hpending (by rfl)

end Feloxi.Auth
