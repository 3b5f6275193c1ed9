import Feloxi.Auth.Contracts

/-!
# Feloxi.Auth.Refresh

Refresh tokens and their single use. `refresh` looks the token up, issues the new session and
only then revokes the token, so two requests that look it up before either revokes it both get
a session, and so does any later one if the revoke fails.
-/

namespace Feloxi.Auth

open Handlers Runs

/-! ### The rotation of one token -/

theorem bind_queryOr (op : DbOp) (mapErr : DbError → AppError) (next : op.Value → Endpoint)
    (id : Uuid) :
    (queryOr op mapErr next).bind (finish id) =
      queryOr op mapErr fun value => (next value).bind (finish id) := by
  simp only [queryOr, ask, Handler.bind_call, refuse, Handler.bind_answer, finish]
  congr 1
  funext reply
  cases reply <;> rfl

/-- Without the revoke there is no session. -/
theorem finish_answer {id : Uuid} {p : Endpoint} {a : Except AppError Answer}
    (h : p.bind (finish id) = .answer a) : ∃ e, a = .error e := by
  cases p with
  | answer result =>
      cases result with
      | error e =>
          cases h
          exact ⟨e, rfl⟩
      | ok answer => cases h
  | act op next => cases h
  | call op next failed => cases h

/-- What follows the look-up ends with the revoke. -/
theorem rotate_eq (env : Env) (stored : RefreshToken) :
    ∃ p : Endpoint, rotate env stored = p.bind (finish stored.id) := by
  refine ⟨queryOr (.getUserById stored.userId) (fun _ => .unauthorized "User not found") fun user =>
    queryOr (.getTenantById stored.tenantId) (fun _ => .unauthorized "Tenant not found") fun tenant =>
      issueWithRoles env user tenant, ?_⟩
  rw [bind_queryOr]
  unfold rotate
  congr 1
  funext user
  rw [bind_queryOr]

/-! ### Requests that carry one token -/

/-- A refresh with a token of this hash. -/
def Carries (env : Env) (tokenHash : String) (r : Request) : Prop :=
  ∃ cookies token, r = .refresh cookies ∧ extractCookie cookies "fp_refresh" = some token ∧
    env.sha256 token = tokenHash

theorem Carries.program_eq {env : Env} {tokenHash : String} {r : Request}
    (h : Carries env tokenHash r) :
    r.program env = queryOr (.findValidRefreshToken tokenHash)
      (fun _ => .unauthorized "Invalid or expired refresh token") (rotate env) := by
  obtain ⟨cookies, token, rfl, hcookie, rfl⟩ := h
  simp only [Request.program, refresh, hcookie]

/-- The request has not looked its token up. -/
def Waiting (env : Env) (t : ApiThread) : Prop := t.program = t.request.program env

/-- The request is on its way to a session, or has one. -/
def Claiming (env : Env) (tokenHash : String) (t : ApiThread) : Prop :=
  Carries env tokenHash t.request ∧ ¬ Waiting env t ∧ ∀ e, t.program ≠ .answer (.error e)

/-- The token is stored under this id. -/
def HasRow (s : Db) (tokenHash : String) (id : Uuid) : Prop :=
  ∃ row ∈ s.refreshTokens.rows, row.id = id ∧ row.tokenHash = tokenHash

/-- The token is revoked. -/
def Dead (s : Db) (tokenHash : String) : Prop :=
  ∃ row ∈ s.refreshTokens.rows, row.tokenHash = tokenHash ∧ row.revokedAt.isSome = true

theorem HasRow.kept {s : Db} {tokenHash : String} {id : Uuid} (h : HasRow s tokenHash id)
    (env : Env) (op : Op) (draw : Draw) : HasRow (exec env op draw s).1 tokenHash id := by
  obtain ⟨row, hrow, hid, hhash⟩ := h
  obtain ⟨row', hrow', hid', hhash', -⟩ := refreshTokens_grow env op draw s row hrow
  exact ⟨row', hrow', hid'.trans hid, hhash'.trans hhash⟩

theorem Dead.kept {s : Db} {tokenHash : String} (h : Dead s tokenHash) (env : Env) (op : Op)
    (draw : Draw) : Dead (exec env op draw s).1 tokenHash := by
  obtain ⟨row, hrow, hhash, hrevoked⟩ := h
  obtain ⟨row', hrow', -, hhash', hrevoked'⟩ := refreshTokens_grow env op draw s row hrow
  exact ⟨row', hrow', hhash'.trans hhash, hrevoked' hrevoked⟩

/-- A revoked token is not found. -/
theorem Dead.not_found {s : Db} {tokenHash : String} (h : Dead s tokenHash) (row : RefreshToken) :
    fetchOne s.refreshTokens.rows (·.valid s.now tokenHash) ≠ .ok row := by
  obtain ⟨dead, hdead, hhash, hrevoked⟩ := h
  intro hfound
  unfold fetchOne at hfound
  split at hfound
  · rename_i found hfind
    have hvalid := List.find?_some hfind
    simp only [RefreshToken.valid, Bool.and_eq_true, beq_iff_eq] at hvalid
    have hsymm : ∀ a b, sameToken a b = sameToken b a := fun a b => by
      simp only [sameToken, Bool.beq_comm (a := a.id), Bool.beq_comm (a := a.tokenHash)]
    have hsame : dead = found := Tables.Table.eq_of_clash hsymm hdead (List.mem_of_find?_eq_some hfind)
      (by simp [sameToken, hhash, hvalid.1.1])
    rw [hsame, Option.isSome_iff_ne_none] at hrevoked
    exact hrevoked (Option.isNone_iff_eq_none.1 hvalid.1.2)
  · cases hfound

/-- Revoking the row of the token ends it. -/
theorem HasRow.revoke {s : Db} {tokenHash : String} {id : Uuid} (h : HasRow s tokenHash id) :
    Dead (s.revoke (·.id == id)) tokenHash := by
  obtain ⟨row, hrow, hid, hhash⟩ := h
  refine ⟨row.revoke s.now (·.id == id), List.mem_map_of_mem hrow, ?_, ?_⟩
  · rw [(row.revoke_keys s.now _).2.1, hhash]
  · simp [RefreshToken.revoke, hid]

/-! ### Steps -/

/-- How far a request that carries the token is. -/
inductive Stage (env : Env) (tokenHash : String) (s : Db) (t : ApiThread) : Prop where
  | waiting (h : Waiting env t)
  | refused (e : AppError) (h : t.program = .answer (.error e))
  | rotating (id : Uuid) (p : Endpoint) (hrow : HasRow s tokenHash id)
      (h : t.program = p.bind (finish id))
  | issued (answer : Answer) (hdead : Dead s tokenHash) (h : t.program = .answer (.ok answer))

theorem Stage.kept {env : Env} {tokenHash : String} {s : Db} {t : ApiThread}
    (h : Stage env tokenHash s t) (op : Op) (draw : Draw) :
    Stage env tokenHash (exec env op draw s).1 t := by
  cases h with
  | waiting h => exact .waiting h
  | refused e h => exact .refused e h
  | rotating id p hrow h => exact .rotating id p (hrow.kept env op draw) h
  | issued answer hdead h => exact .issued answer (hdead.kept env op draw) h

/-- A request that has answered, or waits for its look-up. -/
def Idle (env : Env) (t : ApiThread) : Prop := Waiting env t ∨ ∃ a, t.program = .answer a

/-- A request looks the token up only while every other one that carries it waits or has
answered, and the revoke of the token does not fail. -/
def InTurn (env : Env) (tokenHash : String) (p : ApiPool) : Action Draw Request Nat → Prop
  | .advance i fate _ => ∀ t, p.threads[i]? = some t → Carries env tokenHash t.request →
    (Waiting env t → ∀ j u, j ≠ i → p.threads[j]? = some u → Carries env tokenHash u.request →
      Idle env u) ∧
    ∀ id, t.program.nextOp = some (.db (.revokeRefreshToken id)) → fate ≠ .failed
  | _ => True

/-- The requests that carry the token, and the token. -/
structure SingleUse (env : Env) (tokenHash : String) (p : ApiPool) : Prop where
  stage : ∀ t ∈ p.threads, Carries env tokenHash t.request → Stage env tokenHash p.state t
  lone : Lone (Claiming env tokenHash) p.threads

/-- What the step of a request that carries the token leads to: it stays on its way, or it
was the look-up that found the token. -/
theorem Stage.moves {env : Env} {tokenHash : String} {s s' : Db} {request : Request}
    {h h' : Endpoint} {op : Option Op} (hcarries : Carries env tokenHash request)
    (hstage : Stage env tokenHash s ⟨request, h⟩) (hmove : Moves (exec env) s h s' h' op)
    (hrevoke : ∀ id, h.nextOp = some (.db (.revokeRefreshToken id)) → op ≠ none) :
    Stage env tokenHash s' ⟨request, h'⟩ ∧
      (Claiming env tokenHash ⟨request, h'⟩ → Claiming env tokenHash ⟨request, h⟩ ∨
        Waiting env ⟨request, h⟩ ∧
          ∃ row, fetchOne s.refreshTokens.rows (·.valid s.now tokenHash) = .ok row) := by
  by_cases hwaiting : Waiting env ⟨request, h⟩
  · -- the look-up
    have hprogram : h = queryOr (.findValidRefreshToken tokenHash)
        (fun _ => .unauthorized "Invalid or expired refresh token") (rotate env) :=
      hwaiting.trans hcarries.program_eq
    subst hprogram
    have hrefused : ∀ e, Stage env tokenHash s ⟨request, .answer (.error e)⟩ ∧
        ¬ Claiming env tokenHash ⟨request, .answer (.error e)⟩ :=
      fun e => ⟨.refused e rfl, fun h => h.2.2 e rfl⟩
    unfold queryOr ask at hmove
    cases hmove with
    | done _ _ _ nonce =>
        show Stage env tokenHash s _ ∧ _
        simp only [exec, execDb]
        cases hfound : fetchOne s.refreshTokens.rows (·.valid s.now tokenHash) with
        | error e => exact ⟨(hrefused _).1, fun h => absurd h (hrefused _).2⟩
        | ok row =>
            obtain ⟨p, hp⟩ := rotate_eq env row
            refine ⟨.rotating row.id p ?_ hp, fun _ => .inr ⟨hwaiting, row, rfl⟩⟩
            unfold fetchOne at hfound
            split at hfound
            · rename_i found hfind
              obtain rfl : found = row := by simpa using hfound
              have hvalid := List.find?_some hfind
              simp only [RefreshToken.valid, Bool.and_eq_true, beq_iff_eq] at hvalid
              exact ⟨found, List.mem_of_find?_eq_some hfind, rfl, hvalid.1.1⟩
            · cases hfound
    | failed => exact ⟨(hrefused _).1, fun h => absurd h (hrefused _).2⟩
    | lost => exact ⟨(hrefused _).1, fun h => absurd h (hrefused _).2⟩
  · have hclaiming : Claiming env tokenHash ⟨request, h⟩ := by
      refine ⟨hcarries, hwaiting, ?_⟩
      rintro e rfl
      exact Moves.not_answered hmove
    refine ⟨?_, fun _ => .inl hclaiming⟩
    cases hstage with
    | waiting hw => exact absurd hw hwaiting
    | refused e he =>
        obtain rfl : h = .answer (.error e) := he
        exact absurd hmove Moves.not_answered
    | issued answer _ ha =>
        obtain rfl : h = .answer (.ok answer) := ha
        exact absurd hmove Moves.not_answered
    | rotating id p hrow hp =>
        obtain rfl : h = p.bind (finish id) := hp
        have hrow' : HasRow s' tokenHash id := by
          rcases hmove.state with ⟨-, rfl⟩ | ⟨o, draw, -, -, rfl⟩
          · exact hrow
          · exact hrow.kept env o draw
        rcases hmove.of_bind with ⟨result, rfl, hmove⟩ | ⟨p', rfl, -⟩
        · cases result with
          | error e => exact absurd hmove Moves.not_answered
          | ok answer =>
              have hdead : Dead (s.revoke (·.id == id)) tokenHash := hrow.revoke
              unfold finish ask at hmove
              cases hmove with
              | done => exact .issued answer hdead rfl
              | failed => exact absurd rfl (hrevoke id rfl)
              | lost => exact .issued answer hdead rfl
        · exact .rotating id p' hrow' rfl

theorem singleUse_step (env : Env) (tokenHash : String) (p : ApiPool)
    (a : Action Draw Request Nat) (hp : SingleUse env tokenHash p)
    (hok : InTurn env tokenHash p a) : SingleUse env tokenHash ((api env).step p a) := by
  have hkept : ∀ {s' : Db}, (s' = p.state ∨ ∃ o draw, s' = (exec env o draw p.state).1) →
      ∀ t ∈ p.threads, Carries env tokenHash t.request → Stage env tokenHash s' t := by
    intro s' hs' t ht hcarries
    rcases hs' with rfl | ⟨o, draw, rfl⟩
    · exact hp.stage t ht hcarries
    · exact (hp.stage t ht hcarries).kept o draw
  rcases (api env).step_cases p a with h | ⟨request, rfl, h⟩ |
    ⟨i, fate, draw, t, s', h', op, rfl, ht, heffect, hmove, h⟩ | ⟨seconds, rfl, h⟩
  · rw [h]
    exact hp
  · rw [h]
    refine ⟨forall_append_one hp.stage fun _ => .waiting rfl, hp.lone.append ?_⟩
    exact fun hclaiming => hclaiming.2.1 rfl
  · obtain ⟨request, program⟩ := t
    have hmem := List.mem_of_getElem? ht
    have hs' : s' = p.state ∨ ∃ o draw, s' = (exec env o draw p.state).1 := by
      rcases hmove.state with ⟨-, hs'⟩ | ⟨o, draw, -, -, hs'⟩
      · exact .inl hs'
      · exact .inr ⟨o, draw, hs'⟩
    have hothers : ∀ (j : Nat) (u : ApiThread), j ≠ i → p.threads[j]? = some u →
        Carries env tokenHash u.request → Stage env tokenHash s' u :=
      fun j u _ hu => hkept hs' u (List.mem_of_getElem? hu)
    rw [h]
    by_cases hcarries : Carries env tokenHash request
    · obtain ⟨hturn, hlands⟩ := hok _ ht hcarries
      have hstep := (hp.stage _ hmem hcarries).moves hcarries hmove ?_
      · refine ⟨forall_set (fun _ => hstep.1) hothers, hp.lone.set fun hnew j u hj hu hclaiming => ?_⟩
        rcases hstep.2 hnew with hwas | ⟨hwaiting, row, hfound⟩
        · exact hj (hp.lone j i u _ hu ht hclaiming hwas)
        · -- the token is found, so no other request has a session or is on its way to one
          rcases hturn hwaiting j u hj hu hclaiming.1 with hidle | ⟨answer, hanswer⟩
          · exact hclaiming.2.1 hidle
          · cases hp.stage u (List.mem_of_getElem? hu) hclaiming.1 with
            | waiting hw => exact hclaiming.2.1 hw
            | refused e he => exact hclaiming.2.2 e he
            | issued _ hdead _ => exact hdead.not_found row hfound
            | rotating id q _ hq =>
                obtain ⟨e, rfl⟩ := finish_answer (hq.symm.trans hanswer)
                exact hclaiming.2.2 e hanswer
      · intro id hnext hop
        exact hlands id hnext (Handler.effect_eq_none hnext (heffect.trans hop))
    · refine ⟨forall_set (fun hc => absurd hc hcarries) hothers, hp.lone.set ?_⟩
      exact fun hnew => absurd hnew.1 hcarries
  · rw [h]
    refine ⟨fun t ht hcarries => ?_, hp.lone⟩
    cases hp.stage t ht hcarries with
    | waiting hw => exact .waiting hw
    | refused e he => exact .refused e he
    | rotating id q hrow hq => exact .rotating id q hrow hq
    | issued answer hdead ha => exact .issued answer hdead ha

/-! ### Whole runs -/

/-- **Single use**: in every state that a run of requests in turn reaches, at most one request
with the token has answered with a session, and if one has, the token is not accepted. -/
theorem refresh_once (env : Env) (tokenHash : String) (db : Db)
    (inputs : List (Action Draw Request Nat))
    (hall : AllSteps (api env).step (InTurn env tokenHash) (idlePool db) inputs) :
    let p := run (api env).step (idlePool db) inputs
    Lone (fun t : ApiThread => Carries env tokenHash t.request ∧ HasSession t) p.threads ∧
      ∀ t ∈ p.threads, Carries env tokenHash t.request → HasSession t →
        ∀ draw row, (execDb env (.findValidRefreshToken tokenHash) draw p.state).2 ≠ .ok row := by
  intro p
  have hstart : SingleUse env tokenHash (idlePool db) := ⟨nofun, Lone.nil⟩
  have hp : SingleUse env tokenHash p := hall.invariant _ (singleUse_step env tokenHash) hstart
  have hissued : ∀ t ∈ p.threads, Carries env tokenHash t.request → HasSession t →
      Dead p.state tokenHash ∧ ¬ Waiting env t := by
    rintro t ht hcarries ⟨s, hs⟩
    have hnot : ¬ Waiting env t := by
      intro hw
      rw [Waiting, hcarries.program_eq, hs] at hw
      cases hw
    refine ⟨?_, hnot⟩
    cases hp.stage t ht hcarries with
    | waiting hw => exact absurd hw hnot
    | refused e he => cases he.symm.trans hs
    | rotating id q _ hq =>
        obtain ⟨e, he⟩ := finish_answer (hq.symm.trans hs)
        cases he
    | issued _ hdead _ => exact hdead
  refine ⟨?_, fun t ht hcarries hsession _ row => (hissued t ht hcarries hsession).1.not_found row⟩
  intro i j t u ht hu ⟨hct, hst⟩ ⟨hcu, hsu⟩
  have hclaim : ∀ t ∈ p.threads, Carries env tokenHash t.request → HasSession t →
      Claiming env tokenHash t := by
    intro t ht hcarries hsession
    refine ⟨hcarries, (hissued t ht hcarries hsession).2, fun e he => ?_⟩
    obtain ⟨s, hs⟩ := hsession
    cases hs.symm.trans he
  exact hp.lone i j t u ht hu (hclaim t (List.mem_of_getElem? ht) hct hst)
    (hclaim u (List.mem_of_getElem? hu) hcu hsu)

/-- One request on its own: the token is gone once it has its session. -/
theorem refresh_once_alone :
    let p := run (api plainEnv).step (idlePool sampleDb)
      (.arrive (.refresh ["fp_refresh=fp_rt_old"]) :: List.replicate 10 (.advance 0 .done (draw 101)))
    HasSession p.threads[0] ∧ ∀ draw row,
      (execDb plainEnv (.findValidRefreshToken "fp_rt_old") draw p.state).2 ≠ .ok row := by
  intro p
  have hsession : HasSession p.threads[0] := ⟨_, rfl⟩
  refine ⟨hsession, (refresh_once plainEnv "fp_rt_old" sampleDb _ ?_).2 p.threads[0]
    (List.getElem_mem _) ⟨_, _, rfl, rfl, rfl⟩ hsession⟩
  refine ⟨trivial, ?_, ?_, ?_, ?_, ?_, ?_, ?_, ?_, ?_, ?_, trivial⟩
  all_goals
    intro t _ _
    refine ⟨fun _ j u hj hu _ => ?_, fun _ _ => nofun⟩
    cases j with
    | zero => exact absurd rfl hj
    | succ j => cases hu

/-- Two requests that look the token up before either revokes it: both get a session. -/
theorem two_refreshes_two_sessions :
    let p := run (api plainEnv).step (idlePool sampleDb)
      ([.arrive (.refresh ["fp_refresh=fp_rt_old"]), .arrive (.refresh ["fp_refresh=fp_rt_old"]),
        .advance 0 .done (draw 101), .advance 1 .done (draw 102)] ++
        List.replicate 9 (.advance 0 .done (draw 101)) ++
        List.replicate 9 (.advance 1 .done (draw 102)))
    HasSession p.threads[0] ∧ HasSession p.threads[1] ∧
      ¬ Lone (fun t : ApiThread => Carries plainEnv "fp_rt_old" t.request ∧ HasSession t)
        p.threads := by
  intro p
  have hfirst : HasSession p.threads[0] := ⟨_, rfl⟩
  have hsecond : HasSession p.threads[1] := ⟨_, rfl⟩
  refine ⟨hfirst, hsecond, fun h => ?_⟩
  have hsame := h 0 1 p.threads[0] p.threads[1] rfl rfl ⟨⟨_, _, rfl, rfl, rfl⟩, hfirst⟩
    ⟨⟨_, _, rfl, rfl, rfl⟩, hsecond⟩
  cases hsame

end Feloxi.Auth
