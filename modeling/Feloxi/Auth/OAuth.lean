import Feloxi.Lib.Base64
import Feloxi.Lib.JsonValues
import Feloxi.Lib.Text
import Feloxi.Lib.Uuid

/-!
# Feloxi.Auth.OAuth

The signed `state` of an OAuth flow (`crates/api/src/oauth.rs`), and the signatures of an
`Encryptor` (`crates/common/src/crypto.rs`).

HMAC is an ideal keyed function: a tag is only accepted for a message that was signed under
the key.
-/

namespace Feloxi.OAuth

/-! ### Signatures -/

/-- The HMAC key of an `Encryptor`. -/
structure Encryptor where
  hmacKey : List UInt8
  length_eq : hmacKey.length = 32
  deriving DecidableEq

/-- HMAC-SHA256, and the engine of `base64` for its tags. -/
structure Hmac where
  tag : Encryptor → List UInt8 → List UInt8
  base64 : Base64.Engine

/-- The messages that were signed, each under its key. -/
abbrev Signed := List (Encryptor × List UInt8)

def macInput (domain : String) (payload : List UInt8) : List UInt8 := asBytes domain ++ 0 :: payload

namespace Hmac

variable (mac : Hmac)

/-- `Encryptor::sign`. -/
def sign (enc : Encryptor) (domain : String) (payload : List UInt8) : String :=
  mac.base64.encode (mac.tag enc (macInput domain payload))

/-- `Encryptor::verify`. -/
def verify (signed : Signed) (enc : Encryptor) (domain : String) (payload : List UInt8)
    (signature : String) : Bool :=
  match mac.base64.decode signature with
  | none => false
  | some sig =>
    let message := macInput domain payload
    decide ((enc, message) ∈ signed) && decide (sig = mac.tag enc message)

end Hmac

/-! ### The payload -/

/-- `STATE_TTL_SECS`. -/
def STATE_TTL_SECS : Int := 600

structure OAuthState where
  tid : Uuid
  nonce : String
  name : Option String
  exp : Int
  deriving DecidableEq

open JsonText Json

namespace OAuthState

def toTree (payload : OAuthState) : JsonTree Numeral :=
  .obj ([("tid", .str payload.tid.display), ("nonce", .str payload.nonce)] ++
    -- skip_serializing_if = "Option::is_none"
    (payload.name.map fun name => ("name", JsonTree.str name)).toList ++
    [("exp", .num (Numeral.ofInt payload.exp))])

/-- `serde_json::to_vec`. -/
def toVec (payload : OAuthState) : List UInt8 := asBytes (String.ofList payload.toTree.print)

/-- A field of an object; one that is given twice is refused. -/
def field (entries : Entries (JsonTree Numeral)) (key : String) :
    Option (Option (JsonTree Numeral)) :=
  match entries.filter fun e => e.1 = key with
  | [] => some none
  | [e] => some (some e.2)
  | _ => none

def readText : Option (JsonTree Numeral) → Option String
  | some (.str s) => some s
  | _ => none

def readName : Option (JsonTree Numeral) → Option (Option String)
  | none => some none
  | some .null => some none
  | some (.str s) => some (some s)
  | _ => none

def readI64 : Option (JsonTree Numeral) → Option Int
  | some (.num n) => (whole? n).filter fun i => decide (i < 2 ^ 63)
  | _ => none

def read (tid nonce name exp : Option (JsonTree Numeral)) : Option OAuthState := do
  let tid ← (readText tid).bind Uuid.parseStr
  let nonce ← readText nonce
  let name ← readName name
  let exp ← readI64 exp
  some ⟨tid, nonce, name, exp⟩

/-- The payload that a tree is: an object, or an array of the fields in their order. -/
def ofTree : JsonTree Numeral → Option OAuthState
  | .obj entries => do
    let tid ← field entries "tid"
    let nonce ← field entries "nonce"
    let name ← field entries "name"
    let exp ← field entries "exp"
    read tid nonce name exp
  | .arr [tid, nonce, name, exp] => read (some tid) (some nonce) (some name) (some exp)
  | _ => none

/-- `serde_json::from_slice`. -/
def fromSlice (json : List UInt8) : Option OAuthState := do
  let text ← fromUtf8 json
  let tree ← JsonText.parse text.toList
  ofTree tree

end OAuthState

/-! ### Issuing and verifying -/

/-- The seconds of a `DateTime<Utc>`. -/
abbrev Timestamp := {secs : Int // -8334601228800 ≤ secs ∧ secs ≤ 8210266876799}

/-- A call of `build_state`: its arguments, the nonce it draws and the time it reads. -/
structure Issue where
  enc : Encryptor
  domain : String
  tenantId : Uuid
  name : Option String
  nonce : Uuid
  issuedAt : Timestamp
  deriving DecidableEq

namespace Issue

def payload (issue : Issue) : OAuthState :=
  ⟨issue.tenantId, issue.nonce.display, issue.name, issue.issuedAt.1 + STATE_TTL_SECS⟩

def b64 (mac : Hmac) (issue : Issue) : String := mac.base64.encode issue.payload.toVec

/-- `build_state`: the signed state, and the nonce for the cookie. -/
def buildState (mac : Hmac) (issue : Issue) : String × String :=
  let b64 := issue.b64 mac
  let sig := mac.sign issue.enc issue.domain (asBytes b64)
  (b64 ++ "." ++ sig, issue.nonce.display)

/-- What it has signed. -/
def signedMessage (mac : Hmac) (issue : Issue) : Encryptor × List UInt8 :=
  (issue.enc, macInput issue.domain (asBytes (issue.b64 mac)))

end Issue

/-- What was signed for the states that were issued. -/
def signedBy (mac : Hmac) (issues : List Issue) : Signed := issues.map (Issue.signedMessage mac)

/-- `verify_state` at time `now`. -/
def verifyState (mac : Hmac) (signed : Signed) (enc : Encryptor) (domain raw cookieNonce : String)
    (now : Int) : Option OAuthState := do
  let (b64, sig) ← splitOnce '.' raw
  if mac.verify signed enc domain (asBytes b64) sig then
    let json ← mac.base64.decode b64
    let payload ← OAuthState.fromSlice json
    if payload.exp < now then none
    else if payload.nonce ≠ cookieNonce then none
    else some payload
  else none

/-! ### What is signed -/

section

variable {mac : Hmac}

theorem alphabet_ne {c : Char} (h : c.isAlphanum = true ∨ c = '-' ∨ c = '_') :
    c ≠ '.' ∧ c ≠ '\x00' := by
  constructor <;> rintro rfl <;> revert h <;> decide

theorem dot_not_mem_encode {bytes : List UInt8} : '.' ∉ (mac.base64.encode bytes).toList :=
  fun h => (alphabet_ne (mac.base64.alphabet h)).1 rfl

theorem zero_not_mem_encode {bytes : List UInt8} : 0 ∉ asBytes (mac.base64.encode bytes) :=
  zero_not_mem_asBytes fun h => (alphabet_ne (mac.base64.alphabet h)).2 rfl

theorem encode_injective {bytes bytes' : List UInt8}
    (h : mac.base64.encode bytes = mac.base64.encode bytes') : bytes = bytes' := by
  have hdecode := mac.base64.decode_eq_some.2 h
  rw [mac.base64.decode_eq_some.2 rfl] at hdecode
  exact Option.some.inj hdecode

/-- The domain ends at the last zero byte of what is signed. -/
theorem macInput_inj {domain domain' : String} {payload payload' : List UInt8}
    (h : 0 ∉ payload) (h' : 0 ∉ payload') :
    macInput domain payload = macInput domain' payload' ↔
      domain = domain' ∧ payload = payload' := by
  refine ⟨fun heq => ?_, fun heq => by rw [heq.1, heq.2]⟩
  have hsplit := Separators.splitLast_append (asBytes domain) h
  rw [← macInput, heq, macInput, Separators.splitLast_append _ h'] at hsplit
  obtain ⟨hdomain, hpayload⟩ := Prod.mk.inj (Option.some.inj hsplit)
  exact ⟨(asBytes_injective hdomain).symm, hpayload.symm⟩

/-- Verified is what was signed in the domain, with its tag. -/
theorem verify_signedBy_iff {issues : List Issue} {enc : Encryptor} {domain sig : String}
    {json : List UInt8} :
    mac.verify (signedBy mac issues) enc domain (asBytes (mac.base64.encode json)) sig = true ↔
      ∃ issue ∈ issues, issue.enc = enc ∧ issue.domain = domain ∧ issue.payload.toVec = json ∧
        sig = mac.sign enc domain (asBytes (mac.base64.encode json)) := by
  have hmessage : ∀ issue : Issue, issue.signedMessage mac =
      (enc, macInput domain (asBytes (mac.base64.encode json))) ↔
        issue.enc = enc ∧ issue.domain = domain ∧ issue.payload.toVec = json := by
    intro issue
    rw [Issue.signedMessage, Prod.mk.injEq, Issue.b64,
      macInput_inj zero_not_mem_encode zero_not_mem_encode]
    refine and_congr_right fun _ => and_congr_right fun _ => ⟨fun heq => ?_, fun heq => by rw [heq]⟩
    exact encode_injective (asBytes_injective heq)
  have hsigned : (enc, macInput domain (asBytes (mac.base64.encode json))) ∈ signedBy mac issues ↔
      ∃ issue ∈ issues, issue.enc = enc ∧ issue.domain = domain ∧ issue.payload.toVec = json := by
    simp only [signedBy, List.mem_map, hmessage]
  have hverify : mac.verify (signedBy mac issues) enc domain (asBytes (mac.base64.encode json)) sig =
      true ↔ (∃ issue ∈ issues, issue.enc = enc ∧ issue.domain = domain ∧
        issue.payload.toVec = json) ∧
        sig = mac.sign enc domain (asBytes (mac.base64.encode json)) := by
    rw [← hsigned, Hmac.verify, Hmac.sign, ← mac.base64.decode_eq_some]
    cases mac.base64.decode sig with
    | none => simp
    | some tag => simp
  rw [hverify]
  constructor
  · rintro ⟨⟨issue, hmem, henc, hdomain, hjson⟩, hsig⟩
    exact ⟨issue, hmem, henc, hdomain, hjson, hsig⟩
  · rintro ⟨issue, hmem, henc, hdomain, hjson, hsig⟩
    exact ⟨⟨issue, hmem, henc, hdomain, hjson⟩, hsig⟩

end

/-! ### There and back -/

theorem whole?_ofInt {i : Int} (h : -(2 ^ 63) ≤ i ∧ i < 2 ^ 64) :
    whole? (Numeral.ofInt i) = some i := by
  have hneg : ((Numeral.ofInt i).neg && i == 0) = false := by
    simp only [Numeral.ofInt]
    rcases Decidable.em (i < 0) with hlt | hle
    · simp [Int.ne_of_lt hlt]
    · simp [hle]
  have hrange : decide (-(2 ^ 63) ≤ i ∧ i < 2 ^ 64) = true := decide_eq_true h
  rw [whole?, Numeral.int?_ofInt, Option.filter_some, hneg, hrange]
  rfl

namespace OAuthState

theorem ofTree_toTree {payload : OAuthState}
    (h : -(2 ^ 63) ≤ payload.exp ∧ payload.exp < 2 ^ 63) :
    ofTree payload.toTree = some payload := by
  have hexp : readI64 (some (.num (Numeral.ofInt payload.exp))) = some payload.exp := by
    rw [readI64, whole?_ofInt (by omega), Option.filter_some, if_pos (by simpa using h.2)]
  obtain ⟨tid, nonce, name, exp⟩ := payload
  cases name <;>
    simp [toTree, ofTree, field, read, readText, readName, hexp, Uuid.parseStr_display]

theorem fromSlice_toVec {payload : OAuthState}
    (h : -(2 ^ 63) ≤ payload.exp ∧ payload.exp < 2 ^ 63) :
    fromSlice payload.toVec = some payload := by
  rw [fromSlice, toVec, fromUtf8_asBytes]
  simp only [Option.bind_eq_bind, Option.bind_some, String.toList_ofList, JsonText.parse_print,
    ofTree_toTree h]

end OAuthState

theorem Issue.fromSlice_payload (issue : Issue) :
    OAuthState.fromSlice issue.payload.toVec = some issue.payload := by
  obtain ⟨hlower, hupper⟩ := issue.issuedAt.2
  refine OAuthState.fromSlice_toVec ?_
  simp only [Issue.payload, STATE_TTL_SECS]
  omega

theorem Issue.splitOnce_eq_some_iff {mac : Hmac} {issue : Issue} {raw sig : String} :
    splitOnce '.' raw = some (issue.b64 mac, sig) ↔ raw = issue.b64 mac ++ "." ++ sig := by
  have hdot : '.' ∉ (issue.b64 mac).toList := dot_not_mem_encode
  rw [splitOnce_eq_some, and_iff_left hdot, ← String.toList_inj]
  simp

/-- Verified is a state that was issued with the key in the domain, until it expires, and for the
nonce of its cookie. -/
theorem verifyState_eq_some_iff {mac : Hmac} {issues : List Issue} {enc : Encryptor}
    {domain raw cookieNonce : String} {now : Int} {payload : OAuthState} :
    verifyState mac (signedBy mac issues) enc domain raw cookieNonce now = some payload ↔
      ∃ issue ∈ issues, issue.enc = enc ∧ issue.domain = domain ∧ raw = (issue.buildState mac).1 ∧
        now ≤ issue.payload.exp ∧ issue.payload.nonce = cookieNonce ∧
        payload = issue.payload := by
  constructor
  · intro h
    simp only [verifyState, Option.bind_eq_bind, Option.bind_eq_some_iff] at h
    obtain ⟨⟨b64, sig⟩, hsplit, h⟩ := h
    split at h
    · rename_i hverify
      simp only [Option.bind_eq_some_iff] at h
      obtain ⟨json, hjson, payload', hpayload, h⟩ := h
      obtain rfl := mac.base64.decode_eq_some.1 hjson
      obtain ⟨issue, hmem, henc, hdomain, rfl, hsig⟩ := verify_signedBy_iff.1 hverify
      rw [issue.fromSlice_payload] at hpayload
      cases hpayload
      split_ifs at h with hexp hnonce
      cases h
      refine ⟨issue, hmem, henc, hdomain, ?_, by omega, by simpa using hnonce, rfl⟩
      have hsig' : sig = mac.sign enc domain (asBytes (issue.b64 mac)) := hsig
      rw [Issue.splitOnce_eq_some_iff.1 hsplit, hsig', ← henc, ← hdomain]
      rfl
    · cases h
  · rintro ⟨issue, hmem, rfl, rfl, rfl, hexp, rfl, rfl⟩
    have hverify : mac.verify (signedBy mac issues) issue.enc issue.domain
        (asBytes (issue.b64 mac)) (mac.sign issue.enc issue.domain (asBytes (issue.b64 mac))) =
        true := verify_signedBy_iff.2 ⟨issue, hmem, rfl, rfl, rfl, rfl⟩
    have hsplit : splitOnce '.' (issue.buildState mac).1 = some (issue.b64 mac, _) :=
      Issue.splitOnce_eq_some_iff.2 rfl
    have hdecode : mac.base64.decode (issue.b64 mac) = some issue.payload.toVec :=
      mac.base64.decode_eq_some.2 rfl
    simp only [verifyState, hsplit, Option.bind_eq_bind, Option.bind_some, hverify, if_true, hdecode, issue.fromSlice_payload]
    rw [if_neg (by omega), if_neg (by simp)]

end Feloxi.OAuth
