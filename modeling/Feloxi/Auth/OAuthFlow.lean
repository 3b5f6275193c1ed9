import Feloxi.Auth.OAuth
import Feloxi.Lib.Runs
import Feloxi.Redis.Keys
import Mathlib.Logic.Function.Basic

/-!
# Feloxi.Auth.OAuthFlow

Connects and callbacks of OAuth flows, in any order (`crates/api/src/routes/oauth_slack.rs` and
its siblings): a connect builds a state and then stores its nonce, a callback verifies a state and
then consumes its nonce. Redis is available, and no nonce is drawn twice.
-/

namespace Feloxi.OAuth

/-! ### Nonces in Redis -/

/-- The keys that were set, each with the second at which it expires. -/
abbrev Redis := String → Option Int

/-- `SET key 1 EX ttl`. -/
def storeOauthNonce (redis : Redis) (now : Int) (nonce : String) (ttl : Int) : Redis :=
  Function.update redis (Redis.oauthNonce nonce) (some (now + ttl))

/-- `DEL key`: whether there was one. -/
def consumeOauthNonce (redis : Redis) (now : Int) (nonce : String) : Bool × Redis :=
  let key := Redis.oauthNonce nonce
  ((redis key).any (now < ·), Function.update redis key none)

/-! ### Steps -/

structure World where
  now : Int
  issued : List Issue
  /-- The connects that have built their state and not stored its nonce yet. -/
  connecting : List Issue
  redis : Redis
  /-- The callbacks between their two checks: the state and its payload. -/
  verified : List (String × OAuthState)
  /-- The states that passed both checks, for each callback. -/
  passed : List String

def start (now : Int) : World := ⟨now, [], [], fun _ => none, [], []⟩

inductive Action where
  | connect (issue : Issue)
  | store (issue : Issue)
  | verify (enc : Encryptor) (domain raw cookieNonce : String)
  | consume (raw : String) (payload : OAuthState)
  | tick (secs : Nat)

/-- `consume_oauth_nonce` of a callback: it passes if the nonce existed. -/
def World.consume (w : World) (raw : String) (payload : OAuthState) : World :=
  { w with
    verified := w.verified.erase (raw, payload)
    redis := (consumeOauthNonce w.redis w.now payload.nonce).2
    passed :=
      if (consumeOauthNonce w.redis w.now payload.nonce).1 then raw :: w.passed else w.passed }

def step (mac : Hmac) (w : World) : Action → World
  | .connect issue => { w with issued := issue :: w.issued, connecting := issue :: w.connecting }
  | .store issue =>
    if issue ∈ w.connecting then
      { w with
        connecting := w.connecting.erase issue
        redis := storeOauthNonce w.redis w.now issue.nonce.display 600 }
    else w
  | .verify enc domain raw cookieNonce =>
    match verifyState mac (signedBy mac w.issued) enc domain raw cookieNonce w.now with
    | none => w
    | some payload => { w with verified := (raw, payload) :: w.verified }
  | .consume raw payload =>
    if (raw, payload) ∈ w.verified then w.consume raw payload else w
  | .tick secs => { w with now := w.now + secs }

/-- A connect reads the time and draws a nonce that no other one has. -/
def Fresh (w : World) : Action → Prop
  | .connect issue => issue.issuedAt.1 = w.now ∧ ∀ i ∈ w.issued, i.nonce ≠ issue.nonce
  | _ => True

/-! ### A state is passed once -/

def Issue.key (issue : Issue) : String := Redis.oauthNonce issue.nonce.display

theorem key_eq (issue : Issue) : issue.key = Redis.oauthNonce issue.payload.nonce := rfl

theorem key_injective {i j : Issue} (h : i.key = j.key) : i.nonce = j.nonce :=
  Uuid.display_injective ((String.append_right_inj "fp:oauth:nonce:").1 h)

theorem storeOauthNonce_of_ne {i issue : Issue} (h : i.key ≠ issue.key) (redis : Redis)
    (now ttl : Int) : storeOauthNonce redis now issue.nonce.display ttl i.key = redis i.key :=
  Function.update_of_ne h _ _

theorem redis_consume (w : World) (raw : String) (issue : Issue) (key : String) :
    (w.consume raw issue.payload).redis key = if key = issue.key then none else w.redis key :=
  Function.update_apply _ _ _ _

theorem passed_consume (w : World) (raw : String) (issue : Issue) :
    (w.consume raw issue.payload).passed =
      if (w.redis issue.key).any (w.now < ·) then raw :: w.passed else w.passed := rfl

/-- A state has one payload. -/
theorem payload_of_buildState {mac : Hmac} {i j : Issue}
    (h : (i.buildState mac).1 = (j.buildState mac).1) : i.payload = j.payload := by
  have hsplit : ∀ k : Issue, splitOnce '.' (k.buildState mac).1 = some (k.b64 mac, _) :=
    fun k => Issue.splitOnce_eq_some_iff.2 rfl
  have hb64 := hsplit i
  rw [h, hsplit j] at hb64
  have hjson := encode_injective (Prod.mk.inj (Option.some.inj hb64)).1
  have hread := i.fromSlice_payload
  rw [← hjson, j.fromSlice_payload] at hread
  exact (Option.some.inj hread).symm

/-- A nonce can be consumed from when it is stored until it is consumed, and is not stored
again. -/
structure Once (mac : Hmac) (w : World) : Prop where
  nonces : (w.issued.map Issue.nonce).Nodup
  connecting : w.connecting.Nodup ∧ ∀ i ∈ w.connecting, i ∈ w.issued
  stored : ∀ i : Issue, w.redis i.key ≠ none → i ∉ w.connecting ∧ i.nonce ∈ w.issued.map Issue.nonce
  verified : ∀ c ∈ w.verified, ∃ i ∈ w.issued, c.1 = (i.buildState mac).1 ∧ c.2 = i.payload
  passed : ∀ raw ∈ w.passed, ∃ i ∈ w.issued,
    raw = (i.buildState mac).1 ∧ w.redis i.key = none ∧ i ∉ w.connecting
  nodup : w.passed.Nodup

namespace Once

variable {mac : Hmac} {w : World}

theorem start (mac : Hmac) (now : Int) : Once mac (start now) where
  nonces := List.nodup_nil
  connecting := ⟨List.nodup_nil, by simp [OAuth.start]⟩
  stored := by simp [OAuth.start]
  verified := by simp [OAuth.start]
  passed := by simp [OAuth.start]
  nodup := List.nodup_nil

theorem eq_of_nonce (h : Once mac w) {i j : Issue} (hi : i ∈ w.issued) (hj : j ∈ w.issued)
    (hnonce : i.nonce = j.nonce) : i = j := List.inj_on_of_nodup_map h.nonces hi hj hnonce

theorem connect (h : Once mac w) {issue : Issue} (hfresh : ∀ i ∈ w.issued, i.nonce ≠ issue.nonce) :
    Once mac (step mac w (.connect issue)) := by
  have hnot : issue ∉ w.issued := fun hmem => hfresh issue hmem rfl
  have hnew : issue.nonce ∉ w.issued.map Issue.nonce := by simpa using hfresh
  constructor
  · exact List.nodup_cons.2 ⟨hnew, h.nonces⟩
  · obtain ⟨hnodup, hsub⟩ := h.connecting
    refine ⟨List.nodup_cons.2 ⟨fun hmem => hnot (hsub issue hmem), hnodup⟩, ?_⟩
    exact fun i hi => List.cons_subset_cons issue hsub hi
  · intro i hkey
    obtain ⟨hconnecting, hmem⟩ := h.stored i hkey
    refine ⟨fun hi => ?_, List.mem_cons_of_mem _ hmem⟩
    rcases List.mem_cons.1 hi with rfl | hi
    · exact hnew hmem
    · exact hconnecting hi
  · intro c hc
    obtain ⟨i, hi, heq⟩ := h.verified c hc
    exact ⟨i, List.mem_cons_of_mem _ hi, heq⟩
  · intro raw hraw
    obtain ⟨i, hi, heq, hkey, hconnecting⟩ := h.passed raw hraw
    refine ⟨i, List.mem_cons_of_mem _ hi, heq, hkey, fun hmem => ?_⟩
    rcases List.mem_cons.1 hmem with rfl | hmem
    · exact hnot hi
    · exact hconnecting hmem
  · exact h.nodup

theorem store (h : Once mac w) (issue : Issue) : Once mac (step mac w (.store issue)) := by
  rw [OAuth.step]
  split
  · rename_i hwaiting
    obtain ⟨hnodup, hsub⟩ := h.connecting
    -- another issue has another key
    have hkeys : ∀ i ∈ w.issued, i.key = issue.key → i = issue := fun i hi hkey =>
      h.eq_of_nonce hi (hsub issue hwaiting) (key_injective hkey)
    constructor
    · exact h.nonces
    · exact ⟨hnodup.erase issue, fun i hi => hsub i (List.mem_of_mem_erase hi)⟩
    · intro i hstored
      by_cases hkey : i.key = issue.key
      · refine ⟨fun hi => ?_, ?_⟩
        · obtain rfl := hkeys i (hsub i (List.mem_of_mem_erase hi)) hkey
          exact hnodup.not_mem_erase hi
        · rw [key_injective hkey]
          exact List.mem_map_of_mem (hsub issue hwaiting)
      · have hsame := storeOauthNonce_of_ne hkey w.redis w.now 600
        obtain ⟨hconnecting, hmem⟩ := h.stored i (hsame ▸ hstored)
        exact ⟨fun hi => hconnecting (List.mem_of_mem_erase hi), hmem⟩
    · exact h.verified
    · intro raw hraw
      obtain ⟨i, hi, heq, hnone, hconnecting⟩ := h.passed raw hraw
      have hkey : i.key ≠ issue.key := fun hkey => hconnecting (hkeys i hi hkey ▸ hwaiting)
      refine ⟨i, hi, heq, ?_, fun hmem => hconnecting (List.mem_of_mem_erase hmem)⟩
      exact (storeOauthNonce_of_ne hkey w.redis w.now 600).trans hnone
    · exact h.nodup
  · exact h

theorem verify (h : Once mac w) (enc : Encryptor) (domain raw cookieNonce : String) :
    Once mac (step mac w (.verify enc domain raw cookieNonce)) := by
  rw [step]
  split
  · exact h
  · rename_i payload hpayload
    obtain ⟨issue, hmem, -, -, hraw, -, -, rfl⟩ := verifyState_eq_some_iff.1 hpayload
    refine ⟨h.nonces, h.connecting, h.stored, ?_, h.passed, h.nodup⟩
    intro c hc
    rcases List.mem_cons.1 hc with rfl | hc
    · exact ⟨issue, hmem, hraw, rfl⟩
    · exact h.verified c hc

theorem consume (h : Once mac w) {issue : Issue} (hissue : issue ∈ w.issued) :
    Once mac (w.consume (issue.buildState mac).1 issue.payload) := by
  have hredis := redis_consume w (issue.buildState mac).1 issue
  have hpassed := passed_consume w (issue.buildState mac).1 issue
  have hverified : ∀ c ∈ (w.consume (issue.buildState mac).1 issue.payload).verified,
      c ∈ w.verified := fun c hc => List.mem_of_mem_erase hc
  have hissued : (w.consume (issue.buildState mac).1 issue.payload).issued = w.issued := rfl
  have hconnecting : (w.consume (issue.buildState mac).1 issue.payload).connecting =
      w.connecting := rfl
  generalize w.consume (issue.buildState mac).1 issue.payload = w' at *
  have hkeep : ∀ raw ∈ w.passed, ∃ i ∈ w.issued,
      raw = (i.buildState mac).1 ∧ w'.redis i.key = none ∧ i ∉ w.connecting := by
    intro raw hraw
    obtain ⟨i, hi, heq, hkey, hnot⟩ := h.passed raw hraw
    refine ⟨i, hi, heq, ?_, hnot⟩
    rw [hredis, hkey, ite_self]
  constructor
  · rw [hissued]
    exact h.nonces
  · rw [hissued, hconnecting]
    exact h.connecting
  · intro i hi
    rw [hredis] at hi
    rw [hissued, hconnecting]
    split at hi
    · exact absurd rfl hi
    · exact h.stored i hi
  · rw [hissued]
    exact fun c hc => h.verified c (hverified c hc)
  · intro raw hraw
    rw [hpassed] at hraw
    rw [hissued, hconnecting]
    split at hraw
    · rename_i hexisted
      rcases List.mem_cons.1 hraw with rfl | hraw
      · have hstored : w.redis issue.key ≠ none := fun hnone => by simp [hnone] at hexisted
        exact ⟨issue, hissue, rfl, by rw [hredis, if_pos rfl], (h.stored issue hstored).1⟩
      · exact hkeep raw hraw
    · exact hkeep raw hraw
  · rw [hpassed]
    split
    · rename_i hexisted
      refine List.nodup_cons.2 ⟨fun hmem => ?_, h.nodup⟩
      -- it passed before, so its nonce was consumed
      obtain ⟨i, -, heq, hkey, -⟩ := h.passed _ hmem
      have hsame : issue.key = i.key := by
        rw [key_eq, payload_of_buildState heq, key_eq]
      simp [hsame, hkey] at hexisted
    · exact h.nodup

protected theorem step {action : Action} (h : Once mac w) (hfresh : Fresh w action) :
    Once mac (step mac w action) := by
  cases action with
  | connect issue => exact h.connect hfresh.2
  | store issue => exact h.store issue
  | verify enc domain raw cookieNonce => exact h.verify enc domain raw cookieNonce
  | consume raw payload =>
      rw [OAuth.step]
      by_cases hmem : (raw, payload) ∈ w.verified
      · obtain ⟨issue, hissue, hraw, hpayload⟩ := h.verified _ hmem
        simp only at hraw hpayload
        rw [if_pos hmem, hraw, hpayload]
        exact h.consume hissue
      · rw [if_neg hmem]
        exact h
  | tick secs => exact ⟨h.nonces, h.connecting, h.stored, h.verified, h.passed, h.nodup⟩

end Once

/-- A state verifies exactly if it was issued, and passes both checks once at most. -/
theorem state_integrity (mac : Hmac) :
    (∀ (issues : List Issue) (enc : Encryptor) (domain raw cookieNonce : String) (now : Int)
      (payload : OAuthState),
      verifyState mac (signedBy mac issues) enc domain raw cookieNonce now = some payload ↔
        ∃ issue ∈ issues, issue.enc = enc ∧ issue.domain = domain ∧
          raw = (issue.buildState mac).1 ∧ now ≤ issue.payload.exp ∧
          issue.payload.nonce = cookieNonce ∧ payload = issue.payload) ∧
    ∀ (now : Int) (actions : List Action),
      Runs.AllSteps (step mac) Fresh (start now) actions →
        ∀ raw, (Runs.run (step mac) (start now) actions).passed.count raw ≤ 1 := by
  constructor
  · intro issues enc domain raw cookieNonce now payload
    exact verifyState_eq_some_iff
  · intro now actions hall raw
    have honce := hall.invariant (Once mac) (fun w action h hfresh => h.step hfresh)
      (Once.start mac now)
    exact List.nodup_iff_count_le_one.1 honce.nodup raw

/-! ### A flow -/

def sampleEncryptor : Encryptor := ⟨List.replicate 32 7, rfl⟩

def sampleIssue : Issue :=
  ⟨sampleEncryptor, "feloxi-oauth-slack-v1", 0x550e8400e29b41d4a716446655440000, none,
    0x6ba7b8109dad41d180b400c04fd430c8, ⟨1700000000, by decide⟩⟩

def sampleB64 : String :=
  "eyJ0aWQiOiI1NTBlODQwMC1lMjliLTQxZDQtYTcxNi00NDY2NTU0NDAwMDAiLCJub25jZSI6IjZiYTdiODEwLTlkYWQt" ++
    "NDFkMS04MGI0LTAwYzA0ZmQ0MzBjOCIsImV4cCI6MTcwMDAwMDYwMH0"

/-- HMAC-SHA256 of the message that is signed for the issue. -/
def sampleMac : Hmac where
  tag enc message :=
    if enc = sampleEncryptor ∧ message = macInput "feloxi-oauth-slack-v1" (asBytes sampleB64) then
      [39, 172, 201, 94, 253, 129, 1, 143, 8, 131, 220, 253, 59, 204, 237, 69, 215, 44, 35, 96, 21,
        223, 118, 43, 79, 239, 118, 56, 147, 144, 177, 14]
    else []
  base64 := Base64.urlSafeNoPad

def sampleState : String := sampleB64 ++ ".J6zJXv2BAY8Ig9z9O8ztRdcsI2AV33YrT-92OJOQsQ4"

theorem sampleState_eq : sampleState = (sampleIssue.buildState sampleMac).1 := by decide +kernel

/-- It verifies in its last second, and of two callbacks one passes at most. -/
theorem state_integrity_sample :
    verifyState sampleMac (signedBy sampleMac [sampleIssue]) sampleEncryptor
        "feloxi-oauth-slack-v1" sampleState sampleIssue.nonce.display 1700000600 =
      some sampleIssue.payload ∧
    (Runs.run (step sampleMac) (start 1700000000)
      [.connect sampleIssue, .store sampleIssue,
        .verify sampleEncryptor "feloxi-oauth-slack-v1" sampleState sampleIssue.nonce.display,
        .verify sampleEncryptor "feloxi-oauth-slack-v1" sampleState sampleIssue.nonce.display,
        .consume sampleState sampleIssue.payload,
        .consume sampleState sampleIssue.payload]).passed.count sampleState ≤ 1 := by
  obtain ⟨hverify, honce⟩ := state_integrity sampleMac
  constructor
  · exact (hverify _ _ _ _ _ _ _).2
      ⟨sampleIssue, List.mem_singleton_self _, rfl, rfl, sampleState_eq, by decide, rfl, rfl⟩
  · refine honce _ _ ?_ _
    exact ⟨⟨rfl, by simp [start]⟩, trivial, trivial, trivial, trivial, trivial, trivial⟩

end Feloxi.OAuth
