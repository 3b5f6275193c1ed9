import Feloxi.Lib.Handlers
import Feloxi.Lib.Runs
import Mathlib.Data.List.Infix

/-!
# Feloxi.Web.ApiClient

The API client of one browser tab (`apps/web/src/lib/api/client.ts`). All calls that come back with
401 wait for one refresh of the session, and are sent once more if it succeeds. The server rotates
its refresh token at every success, so a tab that presented a token twice would log its user out.
-/

namespace Feloxi.Web

/-! ### Which answers ask for a refresh -/

/-- `REFRESH_EXEMPT`. -/
def refreshExempt : List String :=
  ["/auth/refresh", "/auth/login", "/auth/logout", "/auth/register", "/auth/magic-link",
    "/auth/accept-invite", "/auth/invite/", "/auth/google/"]

def shouldAttemptRefresh (url : String) : Bool :=
  !refreshExempt.any fun p => decide (p.toList <:+: url.toList)

/-! ### The tab -/

/-- A refresh cookie, if there is one. -/
abbrev Cookie := Option Nat

inductive Progress where
  | sent
  /-- `await refreshSession()`, on this promise. -/
  | waiting (promise : Nat)
  /-- The fetch of the middleware. -/
  | resent
  /-- What the caller sees: a status, or a rejection. -/
  | settled (status : Option Nat)
  deriving DecidableEq

structure ApiCall where
  url : String
  /-- A request whose body has been read cannot be fetched again. -/
  body : Bool
  sends : Nat
  progress : Progress

/-- A `POST /api/v1/auth/refresh` on its way: its promise, and the cookie it carries. -/
structure Rotation where
  promise : Nat
  cookie : Cookie
  deriving DecidableEq

structure Tab where
  /-- `fp_refresh` in the browser. -/
  jar : Cookie
  /-- `inflightRefresh`. -/
  inflightRefresh : Option Nat
  rotations : List Rotation
  /-- The promises made so far. -/
  promises : Nat
  /-- The refreshes that ended, with the cookie they carried and `r.ok`. -/
  ended : List (Rotation × Bool)
  calls : List ApiCall
  /-- `window.location.href` was set. -/
  leaving : Bool

def Tab.start (jar : Cookie) : Tab := ⟨jar, none, [], 0, [], [], false⟩

inductive TabInput where
  | call (url : String) (body : Bool)
  /-- The answer to a call arrives. -/
  | respond (i : Nat) (status : Nat)
  /-- A call is rejected. -/
  | reject (i : Nat)
  /-- A refresh is answered: `r.ok`, and the cookie that is set. -/
  | refreshed (k : Nat) (ok : Bool) (setCookie : Option Cookie)
  /-- A refresh is rejected. -/
  | refreshRejected (k : Nat)
  /-- A call that waits for a promise that is fulfilled goes on. -/
  | resume (i : Nat)
  /-- Another answer sets the cookie, or removes it. -/
  | setCookie (cookie : Cookie)

namespace Tab

/-- `refreshSession`, and the promise it returns. -/
def refreshSession (s : Tab) : Tab × Nat :=
  match s.inflightRefresh with
  | some promise => (s, promise)
  | none =>
    ({ s with inflightRefresh := some s.promises, promises := s.promises + 1,
              rotations := s.rotations ++ [⟨s.promises, s.jar⟩] }, s.promises)

def setCall (s : Tab) (i : Nat) (c : ApiCall) : Tab := { s with calls := s.calls.set i c }

/-- `onResponse`, for the first answer to a call. -/
def onResponse (s : Tab) (i : Nat) (c : ApiCall) (status : Nat) : Tab :=
  if status = 401 ∧ shouldAttemptRefresh c.url = true then
    s.refreshSession.1.setCall i { c with progress := .waiting s.refreshSession.2 }
  else s.setCall i { c with progress := .settled (some status) }

/-- `onResponse` behind the `await`. -/
def resume (s : Tab) (i : Nat) (c : ApiCall) (ok : Bool) : Tab :=
  if ok then
    if c.body then s.setCall i { c with progress := .settled none }
    else s.setCall i { c with progress := .resent, sends := c.sends + 1 }
  else { s.setCall i { c with progress := .settled (some 401) } with leaving := true }

/-- A refresh ends, and `finally` clears `inflightRefresh`. -/
def endRefresh (s : Tab) (k : Nat) (r : Rotation) (ok : Bool) (jar : Cookie) : Tab :=
  { s with jar := jar, inflightRefresh := none, rotations := s.rotations.eraseIdx k,
           ended := s.ended ++ [(r, ok)] }

def step (s : Tab) : TabInput → Tab
  | .call url body => { s with calls := s.calls ++ [⟨url, body, 1, .sent⟩] }
  | .respond i status =>
    match s.calls[i]? with
    | none => s
    | some c =>
      match c.progress with
      | .sent => s.onResponse i c status
      | .resent => s.setCall i { c with progress := .settled (some status) }
      | _ => s
  | .reject i =>
    match s.calls[i]? with
    | none => s
    | some c =>
      match c.progress with
      | .sent => s.setCall i { c with progress := .settled none }
      | .resent => s.setCall i { c with progress := .settled none }
      | _ => s
  | .refreshed k ok setCookie =>
    match s.rotations[k]? with
    | none => s
    | some r => s.endRefresh k r ok (setCookie.getD s.jar)
  | .refreshRejected k =>
    match s.rotations[k]? with
    | none => s
    | some r => s.endRefresh k r false s.jar
  | .resume i =>
    match s.calls[i]? with
    | none => s
    | some c =>
      match c.progress with
      | .waiting promise =>
        match s.ended.find? fun e => e.1.promise = promise with
        | none => s
        | some e => s.resume i c e.2
      | _ => s
  | .setCookie cookie => { s with jar := cookie }

def run (s : Tab) (inputs : List TabInput) : Tab := Runs.run step s inputs

/-- The cookie is not one that was ever presented. -/
def Unused (s : Tab) (cookie : Cookie) : Prop :=
  (∀ e ∈ s.ended, e.1.cookie ≠ cookie) ∧ ∀ r ∈ s.rotations, r.cookie ≠ cookie

/-- The server refreshes with a cookie only, and then sets a new one; so does whatever else sets a
cookie. -/
def Honest (s : Tab) : TabInput → Prop
  | .refreshed k true setCookie => ∀ r, s.rotations[k]? = some r →
    r.cookie ≠ none ∧ ∃ token, setCookie = some (some token) ∧ s.Unused (some token)
  | .refreshed _ false setCookie => setCookie = none ∨ setCookie = some none
  | .setCookie (some token) => s.Unused (some token)
  | _ => True

/-! ### The invariant -/

/-- The refreshes that succeeded used their cookies up. -/
def spent (s : Tab) : List Cookie := (s.ended.filter (·.2)).map (·.1.cookie)

/-- What a call may have done: it was sent again only after a refresh that succeeded. -/
def CallSound (s : Tab) (c : ApiCall) : Prop :=
  match c.progress with
  | .sent => c.sends = 1
  | .waiting promise => c.sends = 1 ∧
    (s.inflightRefresh = some promise ∨ ∃ e ∈ s.ended, e.1.promise = promise)
  | .resent => c.sends = 2 ∧ ∃ e ∈ s.ended, e.2 = true
  | .settled _ => c.sends = 1 ∨ c.sends = 2 ∧ ∃ e ∈ s.ended, e.2 = true

structure Sound (s : Tab) : Prop where
  /-- `inflightRefresh` is the one refresh that is on its way. -/
  single : s.rotations = [] ∧ s.inflightRefresh = none ∨
    ∃ r, s.rotations = [r] ∧ s.inflightRefresh = some r.promise ∧ r.cookie ∉ s.spent
  jar : s.jar ∉ s.spent
  real : none ∉ s.spent
  once : s.spent.Nodup
  calls : ∀ c ∈ s.calls, s.CallSound c
  leaves : s.leaving = true → ∃ e ∈ s.ended, e.2 = false

variable {s s' : Tab} {c : ApiCall} {i : Nat}

/-- What a call may rely on stays. -/
theorem CallSound.mono (h : s.CallSound c) (hended : ∀ e ∈ s.ended, e ∈ s'.ended)
    (hinflight : ∀ promise, s.inflightRefresh = some promise →
      s'.inflightRefresh = some promise ∨ ∃ e ∈ s'.ended, e.1.promise = promise) :
    s'.CallSound c := by
  unfold CallSound at h ⊢
  split at h
  · exact h
  · obtain ⟨hsends, hwait | ⟨e, he, hpromise⟩⟩ := h
    · exact ⟨hsends, hinflight _ hwait⟩
    · exact ⟨hsends, .inr ⟨e, hended e he, hpromise⟩⟩
  · obtain ⟨hsends, e, he, hok⟩ := h
    exact ⟨hsends, e, hended e he, hok⟩
  · rcases h with h | ⟨hsends, e, he, hok⟩
    · exact .inl h
    · exact .inr ⟨hsends, e, hended e he, hok⟩

/-- A call goes on by itself. -/
theorem Sound.setCall (h : s.Sound) (hc : s.CallSound c) (i : Nat) : (s.setCall i c).Sound where
  single := h.single
  jar := h.jar
  real := h.real
  once := h.once
  calls := Handlers.forall_set hc fun _ other _ hj => h.calls other (List.mem_of_getElem? hj)
  leaves := h.leaves

theorem Sound.setCookie (h : s.Sound) {cookie : Cookie} (hcookie : cookie ∉ s.spent) :
    Sound { s with jar := cookie } where
  single := h.single
  jar := hcookie
  real := h.real
  once := h.once
  calls := h.calls
  leaves := h.leaves

/-- The session is refreshed, or already is. -/
theorem Sound.refreshSession (h : s.Sound) :
    s.refreshSession.1.Sound ∧ s.refreshSession.1.inflightRefresh = some s.refreshSession.2 ∧
      s.refreshSession.1.calls = s.calls := by
  unfold Tab.refreshSession
  cases hinflight : s.inflightRefresh with
  | some promise => exact ⟨h, hinflight, rfl⟩
  | none =>
      have hidle : s.rotations = [] := by
        rcases h.single with ⟨hnone, -⟩ | ⟨r, -, hsome, -⟩
        · exact hnone
        · rw [hinflight] at hsome
          cases hsome
      refine ⟨?_, rfl, rfl⟩
      exact { single := .inr ⟨⟨s.promises, s.jar⟩, by simp [hidle], rfl, h.jar⟩
              jar := h.jar
              real := h.real
              once := h.once
              calls := fun c hc => (h.calls c hc).mono (fun _ he => he)
                (by simp [hinflight])
              leaves := h.leaves }

theorem mem_spent_endRefresh {k : Nat} {r : Rotation} {ok : Bool} {jar : Cookie} :
    (s.endRefresh k r ok jar).spent = s.spent ++ if ok then [r.cookie] else [] := by
  cases ok <;> simp [spent, endRefresh, List.filter_append]

theorem not_mem_spent_of_unused {cookie : Cookie} (h : s.Unused cookie) : cookie ∉ s.spent := by
  intro hmem
  obtain ⟨e, he, heq⟩ := List.mem_map.1 hmem
  exact h.1 e (List.mem_filter.1 he).1 heq

/-- The refresh ends: its cookie is spent if it succeeded. -/
theorem Sound.endRefresh (h : s.Sound) {k : Nat} {r : Rotation} {ok : Bool} {jar : Cookie}
    (hk : s.rotations[k]? = some r) (hjar : jar ∉ (s.endRefresh k r ok jar).spent)
    (hreal : ok = true → r.cookie ≠ none) : (s.endRefresh k r ok jar).Sound := by
  obtain ⟨hidle, -⟩ | ⟨r', hone, hinflight, hcookie⟩ := h.single
  · simp [hidle] at hk
  · obtain ⟨rfl, rfl⟩ : k = 0 ∧ r' = r := by
      rw [hone] at hk
      cases k with
      | zero => exact ⟨rfl, Option.some.inj hk⟩
      | succ k => cases hk
    have hspent : (s.endRefresh 0 r' ok jar).spent = s.spent ++ if ok then [r'.cookie] else [] :=
      mem_spent_endRefresh
    refine { single := .inl ⟨by simp [Tab.endRefresh, hone], rfl⟩, jar := hjar, real := ?_,
             once := ?_, calls := ?_, leaves := ?_ }
    · rw [hspent]
      cases ok with
      | false => simpa using h.real
      | true => simpa [h.real] using Ne.symm (hreal rfl)
    · rw [hspent]
      cases ok with
      | false => simpa using h.once
      | true => simpa using List.nodup_append.2 ⟨h.once, by simp, by
          rintro a ha b hb rfl
          rw [List.mem_singleton.1 hb] at ha
          exact hcookie ha⟩
    · intro c hc
      refine (h.calls c hc).mono (fun e he => List.mem_append_left _ he) fun promise hpromise => ?_
      rw [hinflight] at hpromise
      exact .inr ⟨(r', ok), List.mem_append_right _ (List.mem_singleton_self _),
        Option.some.inj hpromise⟩
    · intro hleaving
      obtain ⟨e, he, hfalse⟩ := h.leaves hleaving
      exact ⟨e, List.mem_append_left _ he, hfalse⟩

/-! ### Steps -/

theorem CallSound.sends_le (h : s.CallSound c) : c.sends ≤ 2 := by
  unfold CallSound at h
  split at h
  · omega
  · omega
  · omega
  · rcases h with h | ⟨h, -⟩ <;> omega

theorem Sound.onResponse (h : s.Sound) (hc : s.CallSound c) (hsent : c.progress = .sent) (i : Nat)
    (status : Nat) : (s.onResponse i c status).Sound := by
  have hone : c.sends = 1 := by simpa [CallSound, hsent] using hc
  unfold Tab.onResponse
  split
  · obtain ⟨hsound, hinflight, -⟩ := h.refreshSession
    exact hsound.setCall (c := { c with progress := .waiting s.refreshSession.2 })
      (And.intro hone (.inl hinflight)) i
  · exact h.setCall (c := { c with progress := .settled (some status) }) (Or.inl hone) i

theorem Sound.resume (h : s.Sound) {promise : Nat} (hc : s.CallSound c)
    (hwaiting : c.progress = .waiting promise) {e : Rotation × Bool} (he : e ∈ s.ended) (i : Nat) :
    (s.resume i c e.2).Sound := by
  have hone : c.sends = 1 := by
    rw [CallSound, hwaiting] at hc
    exact hc.1
  unfold Tab.resume
  cases hok : e.2 with
  | true =>
      simp only [if_true]
      split
      · exact h.setCall (c := { c with progress := .settled none }) (Or.inl hone) i
      · exact h.setCall (c := { c with progress := .resent, sends := c.sends + 1 })
          (And.intro (congrArg (· + 1) hone) ⟨e, he, hok⟩) i
  | false =>
      have hset := h.setCall (c := { c with progress := .settled (some 401) }) (Or.inl hone) i
      exact { hset with leaves := fun _ => ⟨e, he, hok⟩ }

/-- **One step** of the tab, with a server that rotates. -/
theorem Sound.step (h : s.Sound) {input : TabInput} (hin : s.Honest input) :
    (s.step input).Sound := by
  cases input with
  | call url body =>
      exact { h with calls := Handlers.forall_append_one h.calls rfl }
  | setCookie cookie =>
      cases cookie with
      | none => exact h.setCookie h.real
      | some token => exact h.setCookie (not_mem_spent_of_unused hin)
  | refreshRejected k =>
      simp only [Tab.step]
      split
      · exact h
      · refine h.endRefresh ‹_› ?_ (by simp)
        simpa [mem_spent_endRefresh] using h.jar
  | refreshed k ok setCookie =>
      simp only [Tab.step]
      split
      · exact h
      · rename_i r hk
        cases ok with
        | true =>
            obtain ⟨hcookie, token, rfl, hunused⟩ := hin r hk
            refine h.endRefresh hk ?_ fun _ => hcookie
            have hne := hunused.2 r (List.mem_of_getElem? hk)
            simpa [mem_spent_endRefresh, not_mem_spent_of_unused hunused] using Ne.symm hne
        | false =>
            refine h.endRefresh hk ?_ (by simp)
            rcases hin with rfl | rfl
            · simpa [mem_spent_endRefresh] using h.jar
            · simpa [mem_spent_endRefresh] using h.real
  | respond i status =>
      simp only [Tab.step]
      split
      · exact h
      · rename_i c hi
        have hc := h.calls c (List.mem_of_getElem? hi)
        split
        · exact h.onResponse hc ‹_› i status
        · rename_i hresent
          rw [CallSound, hresent] at hc
          exact h.setCall (c := { c with progress := .settled (some status) }) (Or.inr hc) i
        · exact h
  | reject i =>
      simp only [Tab.step]
      split
      · exact h
      · rename_i c hi
        have hc := h.calls c (List.mem_of_getElem? hi)
        split
        · rename_i hsent
          rw [CallSound, hsent] at hc
          exact h.setCall (c := { c with progress := .settled none }) (Or.inl hc) i
        · rename_i hresent
          rw [CallSound, hresent] at hc
          exact h.setCall (c := { c with progress := .settled none }) (Or.inr hc) i
        · exact h
  | resume i =>
      simp only [Tab.step]
      split
      · exact h
      · rename_i c hi
        have hc := h.calls c (List.mem_of_getElem? hi)
        split
        · split
          · exact h
          · rename_i e he
            exact h.resume hc ‹_› (List.mem_of_find?_eq_some he) i
        · exact h

theorem sound_start (jar : Cookie) : (start jar).Sound where
  single := .inl ⟨rfl, rfl⟩
  jar := by simp [spent, start]
  real := by simp [spent, start]
  once := by simp [spent, start]
  calls := by simp [start]
  leaves := by simp [start]

/-- **Every run of a tab.** There is at most one refresh at a time, no cookie is presented again once
a refresh with it has succeeded, every call is sent at most twice, and a second time only after a
refresh that succeeded; a call that waits, waits for a refresh that is on its way or has ended; and
the user is sent to the login page only after a refresh that failed. -/
theorem refreshes_of_run (jar : Cookie) (inputs : List TabInput)
    (h : Runs.AllSteps step Honest (start jar) inputs) : ((start jar).run inputs).Sound :=
  h.invariant Sound (fun _ _ hs hin => hs.step hin) (sound_start jar)

/-- Two calls whose access token has expired. -/
def twoCalls : List TabInput :=
  [.call "/api/v1/tasks" false, .call "/api/v1/workers" false, .respond 0 401, .respond 1 401,
    .refreshed 0 true (some (some 2)), .resume 0, .resume 1]

theorem refreshes_of_run_twoCalls : ((start (some 1)).run twoCalls).Sound := by
  refine refreshes_of_run (some 1) twoCalls
    ⟨trivial, trivial, trivial, trivial, ?_, trivial, trivial, trivial⟩
  have htasks : shouldAttemptRefresh "/api/v1/tasks" = true := by decide +kernel
  have hworkers : shouldAttemptRefresh "/api/v1/workers" = true := by decide +kernel
  simp [step, start, onResponse, htasks, hworkers, refreshSession, setCall, Honest, Unused]

end Tab

end Feloxi.Web
