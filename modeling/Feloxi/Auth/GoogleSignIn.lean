import Feloxi.Auth.OAuthFlow
import Feloxi.Auth.Store
import Feloxi.Lib.Handlers
import Feloxi.Lib.Json

/-!
# Feloxi.Auth.GoogleSignIn

"Sign in with Google" (`crates/api/src/routes/oauth_google.rs`): browsers that connect and come back,
in any order with each other and with the OAuth flows of the integrations, which use the same cookie
and the same nonces. A callback waits for Redis, for Google and for the database, and ends with a
sign-in link for the browser or with a message. Redis may be unavailable; then the nonce is not
checked.

Google SSO is configured, and the redirects that carry the answer are left out.
-/

namespace Feloxi.GoogleSignIn

open Auth (Env User normalizeEmail)
open Handlers (forall_append_one forall_set)
open OAuth (Encryptor Hmac Issue OAuthState Timestamp signedBy verifyState)

/-! ### What a callback looks at -/

def GOOGLE_DOMAIN : String := "feloxi-sso-google-v1"

/-- `SSO_TOKEN_TTL_MINUTES`, in seconds. -/
def SSO_TOKEN_TTL : Int := 2 * 60

def STATE_COOKIE : String := "fp_oauth_state"

/-- `cookie_value`. -/
def cookieValue (cookieHeader : Option String) (name : String) : Option String := do
  let header ← cookieHeader
  (header.toList.splitOn ';').findSome? fun kv => do
    let (k, v) ← splitOnce '=' (String.ofList kv)
    if String.ofList (trim k.toList) = name then some (String.ofList (trim v.toList)) else none

structure CallbackParams where
  code : Option String
  state : Option String
  error : Option String

/-- An answer of Google over HTTP: whether its status is a success, and its body, or why it is no
JSON. -/
structure Response where
  success : Bool
  body : Except String Json

def tryAgain : String := "Google sign-in failed — try again"

/-- The access token in the answer of the token endpoint, if there is an answer. -/
def accessToken : Option Response → Except String String
  | none => .error tryAgain
  | some resp => do
    let body ← resp.body
    if resp.success then
      match (body.get "access_token").bind Json.asStr with
      | some token => .ok token
      | none => .error "no access token from Google"
    else .error tryAgain

def emailVerified (userinfo : Json) : Bool :=
  match userinfo.get "email_verified" with
  | none => false
  | some v => v.asBool.getD (decide (v.asStr = some "true"))

/-- The address that Google vouches for; the status of the answer is not looked at. -/
def googleEmail (env : Env) : Option Response → Except String String
  | none => .error tryAgain
  | some resp => do
    let userinfo ← resp.body
    match (userinfo.get "email").bind Json.asStr with
    | none => .error "Google account has no email"
    | some email =>
      if emailVerified userinfo then .ok (normalizeEmail env email)
      else .error "your Google email address is not verified"

/-! ### Callbacks -/

/-- What a callback carries along: whose it is, what it came with, the payload of its state, when it
came, and whether its nonce was checked. -/
structure Callback where
  browser : Nat
  code : String
  raw : String
  payload : OAuthState
  arrivedAt : Int
  checked : Bool

/-- Where a callback waits. -/
inductive Phase where
  | consuming (c : Callback)
  | exchanging (c : Callback)
  | profiling (c : Callback) (accessToken : String)
  | looking (c : Callback) (userinfo : Option Response) (email : String)
  | storing (c : Callback) (userinfo : Option Response) (email : String) (users : List User)
  | answered (browser : Nat) (result : Except String String)

/-- A row of `magic_link_tokens`, with the callback that wrote it. -/
structure Link where
  email : String
  token : String
  createdAt : Int
  expiresAt : Int
  callback : Callback
  userinfo : Option Response
  users : List User

structure World where
  oauth : OAuth.World
  /-- Who connected to what. -/
  connects : List (Nat × Issue)
  /-- The state cookies of the browsers. -/
  jar : Nat → Option String
  users : List User
  callbacks : List Phase
  links : List Link

def start (now : Int) : World := ⟨OAuth.start now, [], fun _ => none, [], [], []⟩

inductive Action where
  /-- `google_connect`. -/
  | connect (browser : Nat) (nonce : Uuid) (issuedAt : Timestamp)
  /-- A connect of another flow. -/
  | otherConnect (browser : Nat) (issue : Issue)
  /-- A nonce is stored, another flow checks a state, or time passes. -/
  | flow (action : OAuth.Action)
  /-- Accounts come and go. -/
  | accounts (users : List User)
  | arrive (browser : Nat) (cookieHeader : Option String) (params : CallbackParams)
  /-- The reply to `consume_oauth_nonce`, if Redis is available. -/
  | consumed (i : Nat) (available : Bool)
  | exchanged (i : Nat) (reply : Option Response)
  | profiled (i : Nat) (reply : Option Response)
  /-- The reply to `find_users_by_email`, or its error. -/
  | looked (i : Nat) (error : Option String)
  /-- The reply to `create_magic_link` for this token, or its error. -/
  | stored (i : Nat) (token : String) (error : Option String)

section

variable (mac : Hmac) (enc : Encryptor) (env : Env)

/-- The state of `google_connect`: no tenant yet. -/
def googleIssue (nonce : Uuid) (issuedAt : Timestamp) : Issue :=
  { enc, domain := GOOGLE_DOMAIN, tenantId := 0, name := none, nonce, issuedAt }

def World.connect (w : World) (browser : Nat) (issue : Issue) : World :=
  { w with
    oauth := OAuth.step mac w.oauth (.connect issue)
    connects := (browser, issue) :: w.connects
    jar := Function.update w.jar browser (some issue.nonce.display) }

/-- What a callback does before it waits for anything. -/
def World.check (w : World) (browser : Nat) (cookieHeader : Option String)
    (params : CallbackParams) : Except String Callback :=
  match params.error, params.code, params.state with
  | some err, _, _ => .error s!"Google sign-in was declined ({err})"
  | none, none, _ => .error "missing authorization code"
  | none, some _, none => .error "missing state"
  | none, some code, some raw =>
    match cookieValue cookieHeader STATE_COOKIE with
    | none => .error "missing state cookie — try signing in again"
    | some nonce =>
      match verifyState mac (signedBy mac w.oauth.issued) enc GOOGLE_DOMAIN raw nonce
          w.oauth.now with
      | none => .error "invalid or expired state — try signing in again"
      | some payload => .ok ⟨browser, code, raw, payload, w.oauth.now, false⟩

/-- The callback gives its answer, and the state cookie is cleared with it. -/
def World.answer (w : World) (i browser : Nat) (result : Except String String) : World :=
  { w with
    callbacks := w.callbacks.set i (.answered browser result)
    jar := Function.update w.jar browser none }

def World.await (w : World) (i : Nat) (phase : Phase) : World :=
  { w with callbacks := w.callbacks.set i phase }

/-- `consume_oauth_nonce`: without Redis the check is skipped. -/
def World.consumed (w : World) (i : Nat) (c : Callback) (available : Bool) : World :=
  if available then
    if (OAuth.consumeOauthNonce w.oauth.redis w.oauth.now c.payload.nonce).1 then
      { w with oauth := w.oauth.consume c.raw c.payload }.await i
        (.exchanging { c with checked := true })
    else
      { w with oauth := w.oauth.consume c.raw c.payload }.answer i c.browser
        (.error "sign-in link already used — try again")
  else w.await i (.exchanging c)

/-- The active users with the address. -/
def World.findUsersByEmail (w : World) (email : String) : List User :=
  w.users.filter fun u => u.email = normalizeEmail env email ∧ u.isActive

def World.looked (w : World) (i : Nat) (c : Callback) (userinfo : Option Response) (email : String)
    (error : Option String) : World :=
  match error with
  | some e => w.answer i c.browser (.error e)
  | none =>
    match w.findUsersByEmail env email with
    | [] => w.answer i c.browser
        (.error s!"no Feloxi account for {email} — ask an admin to invite you")
    | u :: us => w.await i (.storing c userinfo email (u :: us))

def World.stored (w : World) (i : Nat) (c : Callback) (userinfo : Option Response) (email : String)
    (users : List User) (token : String) : Option String → World
  | some e => w.answer i c.browser (.error e)
  | none =>
    let link : Link := ⟨email, token, w.oauth.now, w.oauth.now + SSO_TOKEN_TTL, c, userinfo, users⟩
    { w with links := link :: w.links }.answer i c.browser (.ok token)

def step (w : World) : Action → World
  | .connect browser nonce issuedAt => w.connect mac browser (googleIssue enc nonce issuedAt)
  | .otherConnect browser issue => w.connect mac browser issue
  | .flow action => { w with oauth := OAuth.step mac w.oauth action }
  | .accounts users => { w with users }
  | .arrive browser cookieHeader params =>
    match w.check mac enc browser cookieHeader params with
    | .ok c => { w with callbacks := w.callbacks ++ [.consuming c] }
    | .error e =>
      { w with
        callbacks := w.callbacks ++ [.answered browser (.error e)]
        jar := Function.update w.jar browser none }
  | .consumed i available =>
    match w.callbacks[i]? with
    | some (.consuming c) => w.consumed i c available
    | _ => w
  | .exchanged i reply =>
    match w.callbacks[i]? with
    | some (.exchanging c) =>
      match accessToken reply with
      | .ok token => w.await i (.profiling c token)
      | .error e => w.answer i c.browser (.error e)
    | _ => w
  | .profiled i reply =>
    match w.callbacks[i]? with
    | some (.profiling c _) =>
      match googleEmail env reply with
      | .ok email => w.await i (.looking c reply email)
      | .error e => w.answer i c.browser (.error e)
    | _ => w
  | .looked i error =>
    match w.callbacks[i]? with
    | some (.looking c userinfo email) => w.looked env i c userinfo email error
    | _ => w
  | .stored i token error =>
    match w.callbacks[i]? with
    | some (.storing c userinfo email users) => w.stored i c userinfo email users token error
    | _ => w

/-- What the environment keeps to: connects read the time and draw nonces that no other one has, and
a browser sends the state cookie that it was last given, or none. -/
def Honest (w : World) : Action → Prop
  | .connect _ nonce issuedAt =>
    issuedAt.1 = w.oauth.now ∧ ∀ i ∈ w.oauth.issued, i.nonce ≠ nonce
  | .otherConnect _ issue => OAuth.Fresh w.oauth (.connect issue)
  | .flow (.connect _) => False
  | .arrive browser cookieHeader _ => cookieValue cookieHeader STATE_COOKIE = w.jar browser ∨
      cookieValue cookieHeader STATE_COOKIE = none
  | _ => True

end

/-! ### What a callback knows -/

section

variable (mac : Hmac) (enc : Encryptor) (env : Env) (connects : List (Nat × Issue))

/-- The callback came in time with a state that its own browser had asked Google's flow for. -/
def Callback.Connected (c : Callback) : Prop :=
  ∃ issue, (c.browser, issue) ∈ connects ∧ issue.enc = enc ∧ issue.domain = GOOGLE_DOMAIN ∧
    c.raw = (issue.buildState mac).1 ∧ c.payload = issue.payload ∧ c.arrivedAt ≤ issue.payload.exp

/-- Google vouches for the address, and active accounts have it. -/
def Known (userinfo : Option Response) (email : String) (users : List User) : Prop :=
  googleEmail env userinfo = .ok email ∧ users ≠ [] ∧
    ∀ u ∈ users, u.email = normalizeEmail env email ∧ u.isActive = true

def Phase.Good : Phase → Prop
  | .consuming c => c.Connected mac enc connects ∧ c.checked = false
  | .exchanging c | .profiling c _ => c.Connected mac enc connects
  | .looking c userinfo email => c.Connected mac enc connects ∧ googleEmail env userinfo = .ok email
  | .storing c userinfo email users => c.Connected mac enc connects ∧ Known env userinfo email users
  | .answered _ _ => True

/-- The link of an answer is there, and it is the browser's own. -/
def Phase.Linked (links : List Link) : Phase → Prop
  | .answered browser (.ok token) =>
    ∃ link ∈ links, link.token = token ∧ link.callback.browser = browser
  | _ => True

structure Link.Good (link : Link) : Prop where
  connected : link.callback.Connected mac enc connects
  known : Known env link.userinfo link.email link.users
  expires : link.expiresAt = link.createdAt + SSO_TOKEN_TTL

end

/-- The callback has the state and has passed the check of its nonce. -/
def Callback.holds (raw : String) (c : Callback) : Bool := c.checked && decide (c.raw = raw)

/-- It may still end with a link. -/
def Phase.holds (raw : String) : Phase → Bool
  | .exchanging c | .profiling c _ | .looking c _ _ | .storing c _ _ _ => c.holds raw
  | .consuming _ | .answered _ _ => false

/-- The callbacks and links that passed the check with a state. -/
def World.holders (w : World) (raw : String) : Nat :=
  w.callbacks.countP (·.holds raw) + w.links.countP (·.callback.holds raw)

structure Inv (mac : Hmac) (enc : Encryptor) (env : Env) (w : World) : Prop where
  once : OAuth.Once mac w.oauth
  connects : ∀ x ∈ w.connects, x.2 ∈ w.oauth.issued
  jar : ∀ b nonce, w.jar b = some nonce → ∃ issue, (b, issue) ∈ w.connects ∧
    issue.nonce.display = nonce
  phases : ∀ ph ∈ w.callbacks, ph.Good mac enc env w.connects
  links : ∀ link ∈ w.links, link.Good mac enc env w.connects
  answers : ∀ ph ∈ w.callbacks, ph.Linked w.links
  single : ∀ raw, w.holders raw ≤ w.oauth.passed.count raw

/-! ### What each action keeps -/

variable {mac : Hmac} {enc : Encryptor} {env : Env}

theorem inv_start (now : Int) : Inv mac enc env (start now) where
  once := OAuth.Once.start mac now
  connects := by simp [start]
  jar := by simp [start]
  phases := by simp [start]
  links := by simp [start]
  answers := by simp [start]
  single _ := Nat.zero_le _

theorem Callback.Connected.cons {connects : List (Nat × Issue)} {c : Callback}
    (h : c.Connected mac enc connects) (x : Nat × Issue) : c.Connected mac enc (x :: connects) := by
  obtain ⟨issue, hmem, hrest⟩ := h
  exact ⟨issue, List.mem_cons_of_mem x hmem, hrest⟩

theorem Phase.Good.cons {connects : List (Nat × Issue)} {ph : Phase}
    (h : ph.Good mac enc env connects) (x : Nat × Issue) : ph.Good mac enc env (x :: connects) := by
  cases ph with
  | consuming c => exact ⟨h.1.cons x, h.2⟩
  | exchanging c => exact Callback.Connected.cons h x
  | profiling c token => exact Callback.Connected.cons h x
  | looking c userinfo email => exact ⟨h.1.cons x, h.2⟩
  | storing c userinfo email users => exact ⟨h.1.cons x, h.2⟩
  | answered browser result => trivial

theorem Phase.Linked.cons {links : List Link} {ph : Phase} (h : ph.Linked links) (link : Link) :
    ph.Linked (link :: links) := by
  unfold Linked at *
  split at h
  · obtain ⟨l, hl, hrest⟩ := h
    exact ⟨l, List.mem_cons_of_mem link hl, hrest⟩
  · trivial

theorem countP_set_add {α : Type} {l : List α} {i : Nat} {x : α} (h : l[i]? = some x) (y : α)
    (p : α → Bool) : (l.set i y).countP p + (p x).toNat = l.countP p + (p y).toNat := by
  obtain ⟨hi, rfl⟩ := List.getElem?_eq_some_iff.1 h
  have hle := List.boole_getElem_le_countP (p := p) (l := l) hi
  rw [List.countP_set hi]
  cases hx : p l[i] with
  | false => simp [Bool.toNat, Bool.cond_eq_ite]
  | true =>
      simp only [hx, if_true, Bool.toNat_true] at hle ⊢
      simp only [Bool.toNat, Bool.cond_eq_ite]
      omega

/-- A step of another flow issues nothing, and passes no fewer states. -/
theorem flow_frame (w : OAuth.World) {action : OAuth.Action}
    (hconnect : ∀ issue, action ≠ .connect issue) :
    (OAuth.step mac w action).issued = w.issued ∧
      ∀ raw, w.passed.count raw ≤ (OAuth.step mac w action).passed.count raw := by
  cases action with
  | connect issue => exact absurd rfl (hconnect issue)
  | store issue =>
      rw [OAuth.step]
      split <;> exact ⟨rfl, fun _ => Nat.le_refl _⟩
  | verify enc domain raw nonce =>
      rw [OAuth.step]
      split <;> exact ⟨rfl, fun _ => Nat.le_refl _⟩
  | consume raw payload =>
      rw [OAuth.step]
      split
      · refine ⟨rfl, fun raw' => ?_⟩
        rw [OAuth.World.consume]
        split
        · exact List.count_le_count_cons
        · exact Nat.le_refl _
      · exact ⟨rfl, fun _ => Nat.le_refl _⟩
  | tick secs => exact ⟨rfl, fun _ => Nat.le_refl _⟩

namespace Inv

variable {w : World}

theorem connect (h : Inv mac enc env w) (browser : Nat) {issue : Issue}
    (hfresh : ∀ i ∈ w.oauth.issued, i.nonce ≠ issue.nonce) :
    Inv mac enc env (w.connect mac browser issue) where
  once := h.once.connect hfresh
  connects x hx := by
    rcases List.mem_cons.1 hx with rfl | hx
    · exact List.mem_cons_self
    · exact List.mem_cons_of_mem _ (h.connects x hx)
  jar b nonce hjar := by
    by_cases hb : b = browser
    · subst hb
      refine ⟨issue, List.mem_cons_self, ?_⟩
      simpa [World.connect] using hjar
    · obtain ⟨i, hi, hnonce⟩ := h.jar b nonce (by simpa [World.connect, hb] using hjar)
      exact ⟨i, List.mem_cons_of_mem _ hi, hnonce⟩
  phases ph hph := (h.phases ph hph).cons _
  links link hlink :=
    let hgood := h.links link hlink
    ⟨hgood.connected.cons _, hgood.known, hgood.expires⟩
  answers := h.answers
  single := h.single

/-- The cookie of a browser is cleared. -/
theorem jar_cleared (h : Inv mac enc env w) (browser b : Nat) (nonce : String)
    (hjar : Function.update w.jar browser none b = some nonce) :
    ∃ issue, (b, issue) ∈ w.connects ∧ issue.nonce.display = nonce := by
  by_cases hb : b = browser
  · simp [hb] at hjar
  · exact h.jar b nonce (by simpa [hb] using hjar)

theorem flow (h : Inv mac enc env w) {action : OAuth.Action} (hfresh : OAuth.Fresh w.oauth action)
    (hconnect : ∀ issue, action ≠ .connect issue) :
    Inv mac enc env { w with oauth := OAuth.step mac w.oauth action } where
  once := h.once.step hfresh
  connects x hx := (flow_frame w.oauth hconnect).1.symm ▸ h.connects x hx
  jar := h.jar
  phases := h.phases
  links := h.links
  answers := h.answers
  single raw := (h.single raw).trans ((flow_frame w.oauth hconnect).2 raw)

theorem await (h : Inv mac enc env w) {i : Nat} {ph ph' : Phase} (hi : w.callbacks[i]? = some ph)
    (hgood : ph'.Good mac enc env w.connects) (hlinked : ph'.Linked w.links)
    (hholds : ∀ raw, ph'.holds raw = ph.holds raw) :
    Inv mac enc env (w.await i ph') where
  once := h.once
  connects := h.connects
  jar := h.jar
  phases := forall_set hgood fun _ y _ hy => h.phases y (List.mem_of_getElem? hy)
  links := h.links
  answers := forall_set hlinked fun _ y _ hy => h.answers y (List.mem_of_getElem? hy)
  single raw := by
    have hset := countP_set_add hi ph' (·.holds raw)
    rw [hholds raw] at hset
    have hle := h.single raw
    simp only [World.holders, World.await] at hle ⊢
    omega

theorem answer (h : Inv mac enc env w) {i : Nat} {ph : Phase} (hi : w.callbacks[i]? = some ph)
    {browser : Nat} {result : Except String String}
    (hlinked : Phase.Linked w.links (.answered browser result)) :
    Inv mac enc env (w.answer i browser result) where
  once := h.once
  connects := h.connects
  jar := h.jar_cleared browser
  phases := forall_set trivial fun _ y _ hy => h.phases y (List.mem_of_getElem? hy)
  links := h.links
  answers := forall_set hlinked fun _ y _ hy => h.answers y (List.mem_of_getElem? hy)
  single raw := by
    have hset := countP_set_add hi (.answered browser result) (·.holds raw)
    have hle := h.single raw
    simp only [World.holders, World.answer, Phase.holds, Bool.toNat_false] at hset hle ⊢
    omega

/-- A callback whose state verifies was asked for by its own browser. -/
theorem connected_of_check (h : Inv mac enc env w) {browser : Nat} {cookieHeader : Option String}
    {params : CallbackParams} {c : Callback}
    (hcookie : cookieValue cookieHeader STATE_COOKIE = w.jar browser ∨
      cookieValue cookieHeader STATE_COOKIE = none)
    (hcheck : w.check mac enc browser cookieHeader params = .ok c) :
    c.Connected mac enc w.connects ∧ c.checked = false := by
  unfold World.check at hcheck
  split at hcheck
  · cases hcheck
  · cases hcheck
  · cases hcheck
  · rename_i code raw _ _ _
    cases hnonce : cookieValue cookieHeader STATE_COOKIE with
    | none => simp [hnonce] at hcheck
    | some nonce =>
        simp only [hnonce] at hcheck
        split at hcheck
        · cases hcheck
        · rename_i payload hverify
          obtain ⟨issue, hmem, henc, hdomain, hraw, hexp, hsame, rfl⟩ :=
            OAuth.verifyState_eq_some_iff.1 hverify
          cases hcheck
          have hjar : w.jar browser = some nonce := by
            rcases hcookie with h' | h'
            · rw [← h', hnonce]
            · rw [hnonce] at h'
              cases h'
          obtain ⟨asked, hasked, hdisplay⟩ := h.jar browser nonce hjar
          -- the nonce tells the issue
          have heq : asked = issue := h.once.eq_of_nonce (h.connects _ hasked) hmem
            (Uuid.display_injective (hdisplay.trans hsame.symm))
          subst heq
          exact ⟨⟨asked, hasked, henc, hdomain, hraw, rfl, hexp⟩, rfl⟩

theorem arrive (h : Inv mac enc env w) {browser : Nat} {cookieHeader : Option String}
    (hcookie : cookieValue cookieHeader STATE_COOKIE = w.jar browser ∨
      cookieValue cookieHeader STATE_COOKIE = none) (params : CallbackParams) :
    Inv mac enc env (step mac enc env w (.arrive browser cookieHeader params)) := by
  simp only [step]
  cases hcheck : w.check mac enc browser cookieHeader params with
  | ok c =>
      refine { once := h.once, connects := h.connects, jar := h.jar,
               phases := forall_append_one h.phases (h.connected_of_check hcookie hcheck),
               links := h.links, answers := forall_append_one h.answers trivial,
               single := fun raw => ?_ }
      simpa [World.holders, List.countP_append, Phase.holds] using h.single raw
  | error e =>
      refine { once := h.once, connects := h.connects, jar := fun b nonce hjar => ?_,
               phases := forall_append_one h.phases trivial,
               links := h.links, answers := forall_append_one h.answers trivial,
               single := fun raw => ?_ }
      · exact h.jar_cleared browser b nonce hjar
      · simpa [World.holders, List.countP_append, Phase.holds] using h.single raw

/-- The nonce of a state is consumed. -/
theorem consume (h : Inv mac enc env w) {c : Callback} (hc : c.Connected mac enc w.connects) :
    Inv mac enc env { w with oauth := w.oauth.consume c.raw c.payload } := by
  obtain ⟨issue, hmem, -, -, hraw, hpayload, -⟩ := hc
  rw [hraw, hpayload]
  refine { once := h.once.consume (h.connects _ hmem), connects := h.connects, jar := h.jar,
           phases := h.phases, links := h.links, answers := h.answers,
           single := fun raw => ?_ }
  refine (h.single raw).trans ?_
  rw [OAuth.passed_consume]
  split
  · exact List.count_le_count_cons
  · exact Nat.le_refl _

theorem consumed (h : Inv mac enc env w) {i : Nat} {c : Callback}
    (hi : w.callbacks[i]? = some (.consuming c)) (available : Bool) :
    Inv mac enc env (w.consumed i c available) := by
  obtain ⟨hc, hchecked⟩ := h.phases _ (List.mem_of_getElem? hi)
  unfold World.consumed
  cases available with
  | false => exact h.await hi hc trivial fun raw => by simp [Phase.holds, Callback.holds, hchecked]
  | true =>
      have hconsume := h.consume hc
      simp only [if_true]
      split
      · rename_i hexisted
        refine { once := hconsume.once, connects := hconsume.connects, jar := hconsume.jar,
                 phases := forall_set hc fun _ y _ hy => h.phases y (List.mem_of_getElem? hy),
                 links := h.links,
                 answers := forall_set trivial fun _ y _ hy => h.answers y (List.mem_of_getElem? hy),
                 single := fun raw => ?_ }
        have hpassed : (w.oauth.consume c.raw c.payload).passed = c.raw :: w.oauth.passed :=
          if_pos hexisted
        have hset := countP_set_add hi (.exchanging { c with checked := true }) (·.holds raw)
        have hle := h.single raw
        rw [World.await, World.holders, hpassed, List.count_cons]
        simp only [World.holders, Phase.holds, Callback.holds, Bool.true_and, Bool.toNat_false,
          Nat.add_zero] at hset hle ⊢
        by_cases hraw : c.raw = raw
        · simp only [hraw, decide_true, Bool.toNat_true, beq_self_eq_true, if_true] at hset ⊢
          omega
        · simp only [hraw, decide_false, Bool.toNat_false, beq_iff_eq, if_false] at hset ⊢
          omega
      · exact hconsume.answer hi trivial

theorem looked (h : Inv mac enc env w) {i : Nat} {c : Callback} {userinfo : Option Response}
    {email : String} (hi : w.callbacks[i]? = some (.looking c userinfo email))
    (error : Option String) : Inv mac enc env (w.looked env i c userinfo email error) := by
  obtain ⟨hc, hemail⟩ := h.phases _ (List.mem_of_getElem? hi)
  unfold World.looked
  cases error with
  | some e => exact h.answer hi trivial
  | none =>
      cases hfound : w.findUsersByEmail env email with
      | nil => exact h.answer hi trivial
      | cons u us =>
          refine h.await hi ⟨hc, hemail, List.cons_ne_nil u us, fun v hv => ?_⟩ trivial fun _ => rfl
          rw [← hfound] at hv
          simpa using (List.mem_filter.1 hv).2

theorem stored (h : Inv mac enc env w) {i : Nat} {c : Callback} {userinfo : Option Response}
    {email : String} {users : List User}
    (hi : w.callbacks[i]? = some (.storing c userinfo email users)) (token : String)
    (error : Option String) :
    Inv mac enc env (w.stored i c userinfo email users token error) := by
  obtain ⟨hc, hknown⟩ := h.phases _ (List.mem_of_getElem? hi)
  unfold World.stored
  cases error with
  | some e => exact h.answer hi trivial
  | none =>
      refine { once := h.once, connects := h.connects, jar := (h.jar_cleared c.browser),
               phases := forall_set trivial fun _ y _ hy => h.phases y (List.mem_of_getElem? hy),
               links := List.forall_mem_cons.2 ⟨⟨hc, hknown, rfl⟩, h.links⟩,
               answers := forall_set ⟨_, List.mem_cons_self, rfl, rfl⟩ fun _ y _ hy => ?_,
               single := fun raw => ?_ }
      · exact (h.answers y (List.mem_of_getElem? hy)).cons _
      · have hset := countP_set_add hi (.answered c.browser (.ok token)) (·.holds raw)
        have hle := h.single raw
        simp only [World.holders, World.answer, Phase.holds, Bool.toNat_false, List.countP_cons]
          at hset hle ⊢
        cases hc : c.holds raw <;> simp only [hc, Bool.toNat_false, Bool.toNat_true] at hset ⊢ <;>
          simp <;> omega

protected theorem step (h : Inv mac enc env w) {action : Action} (hok : Honest w action) :
    Inv mac enc env (step mac enc env w action) := by
  cases action with
  | connect browser nonce issuedAt => exact h.connect browser hok.2
  | otherConnect browser issue => exact h.connect browser hok.2
  | flow action =>
      cases action with
      | connect issue => exact hok.elim
      | store issue => exact h.flow trivial (by simp)
      | verify enc' domain raw nonce => exact h.flow trivial (by simp)
      | consume raw payload => exact h.flow trivial (by simp)
      | tick secs => exact h.flow trivial (by simp)
  | accounts users => exact ⟨h.once, h.connects, h.jar, h.phases, h.links, h.answers, h.single⟩
  | arrive browser cookieHeader params => exact h.arrive hok params
  | consumed i available =>
      simp only [GoogleSignIn.step]
      split
      · rename_i c hi
        exact h.consumed hi available
      · exact h
  | exchanged i reply =>
      simp only [GoogleSignIn.step]
      split
      · rename_i c hi
        have hc := h.phases _ (List.mem_of_getElem? hi)
        split
        · exact h.await hi hc trivial fun _ => rfl
        · exact h.answer hi trivial
      · exact h
  | profiled i reply =>
      simp only [GoogleSignIn.step]
      split
      · rename_i c token hi
        have hc := h.phases _ (List.mem_of_getElem? hi)
        split
        · rename_i email hemail
          exact h.await hi ⟨hc, hemail⟩ trivial fun _ => rfl
        · exact h.answer hi trivial
      · exact h
  | looked i error =>
      simp only [GoogleSignIn.step]
      split
      · rename_i c userinfo email hi
        exact h.looked hi error
      · exact h
  | stored i token error =>
      simp only [GoogleSignIn.step]
      split
      · rename_i c userinfo email users hi
        exact h.stored hi token error
      · exact h

end Inv

/-! ### Every sign-in -/

/-- **Where a sign-in link comes from.** The browser that is sent there came back, within ten minutes,
with a state that it had itself asked Google's flow for; Google vouches for the address of the link,
and an active account has it; the link expires after two minutes. Among those whose nonce was checked,
no two links come from one state. -/
theorem links_of_run (mac : Hmac) (enc : Encryptor) (env : Env) (now : Int) (actions : List Action)
    (h : Runs.AllSteps (step mac enc env) Honest (start now) actions) :
    (∀ link ∈ (Runs.run (step mac enc env) (start now) actions).links,
      link.Good mac enc env (Runs.run (step mac enc env) (start now) actions).connects) ∧
    (∀ browser token, .answered browser (.ok token) ∈
        (Runs.run (step mac enc env) (start now) actions).callbacks →
      ∃ link ∈ (Runs.run (step mac enc env) (start now) actions).links,
        link.token = token ∧ link.callback.browser = browser) ∧
    ∀ raw, (Runs.run (step mac enc env) (start now) actions).links.countP
      (·.callback.holds raw) ≤ 1 := by
  have hinv := h.invariant (Inv mac enc env) (fun w action hw hok => hw.step hok) (inv_start now)
  generalize Runs.run (step mac enc env) (start now) actions = w at hinv
  refine ⟨hinv.links, fun browser token hmem => hinv.answers _ hmem, fun raw => ?_⟩
  have hle := hinv.single raw
  have honce := List.nodup_iff_count_le_one.1 hinv.once.nodup raw
  rw [World.holders] at hle
  omega

/-! ### A sign-in -/

def samplePayload : String :=
  "eyJ0aWQiOiIwMDAwMDAwMC0wMDAwLTAwMDAtMDAwMC0wMDAwMDAwMDAwMDAiLCJub25jZSI6IjZiYTdiODEwLTlkYWQt" ++
    "NDFkMS04MGI0LTAwYzA0ZmQ0MzBjOCIsImV4cCI6MTcwMDAwMDYwMH0"

/-- HMAC-SHA256 of the message that is signed for the state. -/
def googleMac : Hmac where
  tag enc message :=
    if enc = OAuth.sampleEncryptor ∧
        message = OAuth.macInput GOOGLE_DOMAIN (asBytes samplePayload) then
      [22, 196, 10, 62, 190, 223, 179, 234, 201, 190, 53, 61, 32, 39, 85, 69, 33, 186, 226, 23, 181,
        71, 70, 235, 29, 15, 231, 231, 131, 19, 116, 142]
    else []
  base64 := Base64.urlSafeNoPad

def googleEnv : Env where
  allowSignup := false
  systemSmtp := true
  appBaseUrl := "https://feloxi.dev"
  toLowercase s := String.ofList (s.toList.map Char.toLower)
  sha256 s := s
  hashPassword _ p := .ok p
  verifyPassword _ _ := .ok false
  encodeError := none
  databaseError := ""

def ada : User :=
  ⟨1, 2, "ada@acme.dev", "", none, true⟩

def signIn : List Action :=
  [.accounts [ada],
    .connect 1 0x6ba7b8109dad41d180b400c04fd430c8 OAuth.sampleIssue.issuedAt,
    .flow (.store (googleIssue OAuth.sampleEncryptor 0x6ba7b8109dad41d180b400c04fd430c8
      OAuth.sampleIssue.issuedAt)),
    .arrive 1 (some "fp_oauth_state=6ba7b810-9dad-41d1-80b4-00c04fd430c8")
      ⟨some "4/0A", some (samplePayload ++ ".FsQKPr7fs-rJvjU9ICdVRSG64he1R0brHQ_n54MTdI4"), none⟩,
    .consumed 0 true,
    .exchanged 0 (some ⟨true, .ok (.obj [("access_token", .str "ya29")])⟩),
    .profiled 0 (some ⟨true, .ok (.obj [("email", .str "Ada@acme.dev"),
      ("email_verified", .bool true)])⟩),
    .looked 0 none, .stored 0 "token" none]

theorem links_of_run_signIn :
    (Runs.run (step googleMac OAuth.sampleEncryptor googleEnv) (start 1700000000) signIn).links.map
        (·.token) = ["token"] ∧
      ∀ link ∈ (Runs.run (step googleMac OAuth.sampleEncryptor googleEnv) (start 1700000000)
        signIn).links, link.expiresAt = link.createdAt + SSO_TOKEN_TTL := by
  have hlinks := (links_of_run googleMac OAuth.sampleEncryptor googleEnv 1700000000 signIn
    ⟨trivial, ⟨rfl, by simp [step, start, OAuth.start]⟩, trivial, .inl (by decide +kernel), trivial,
      trivial, trivial, trivial, trivial, trivial⟩).1
  exact ⟨by decide +kernel, fun link hlink => (hlinks link hlink).expires⟩

end Feloxi.GoogleSignIn
