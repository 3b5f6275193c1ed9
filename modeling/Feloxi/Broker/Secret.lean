import Feloxi.Broker.Manager
import Feloxi.Broker.Passwords
import Feloxi.Lib.Sweeps

/-!
# Feloxi.Broker.Secret

Broker URLs at rest (`crates/api/src/broker_conn/secret.rs`): what `seal` stores and `open`
reads, and the rewriting of old rows at startup, which can stop between any two of them.
-/

namespace Feloxi.Broker

open Sweeps (Write Update Keyed Sweep)

/-! ### Encryption -/

/-- The ciphers and encodings of other crates. -/
structure Crypto where
  /-- `Aes256Gcm` under the key of the server: nonce and plaintext. -/
  encrypt : List UInt8 → List UInt8 → Option (List UInt8)
  decrypt : List UInt8 → List UInt8 → Option (List UInt8)
  decrypt_encrypt : ∀ nonce plaintext ct,
    encrypt nonce plaintext = some ct → decrypt nonce ct = some plaintext
  /-- The `STANDARD` engine of `base64`. -/
  encode : List UInt8 → String
  decode : String → Option (List UInt8)
  decode_encode : ∀ bytes, decode (encode bytes) = some bytes

inductive CryptoError where
  | invalidKey (reason : String)
  | encrypt
  | decrypt
  | malformed
  deriving Repr, DecidableEq

def CryptoError.display : CryptoError → String
  | .invalidKey reason => "invalid encryption key: " ++ reason
  | .encrypt => "encryption failed"
  | .decrypt => "decryption failed"
  | .malformed => "malformed ciphertext"

def VERSION_V1 : UInt8 := 1

def NONCE_LEN : Nat := 12

abbrev Nonce := {bytes : List UInt8 // bytes.length = NONCE_LEN}

namespace Crypto

variable (crypto : Crypto)

/-- `Encryptor::encrypt`, with the nonce it draws. -/
def encryptBytes (nonce : Nonce) (plaintext : List UInt8) : Except CryptoError (List UInt8) :=
  match crypto.encrypt nonce.1 plaintext with
  | none => .error .encrypt
  | some ct => .ok (VERSION_V1 :: (nonce.1 ++ ct))

/-- `Encryptor::decrypt`. -/
def decryptBytes : List UInt8 → Except CryptoError (List UInt8)
  | [] => .error .malformed
  | version :: blob =>
    if version = VERSION_V1 ∧ NONCE_LEN < (version :: blob).length then
      match crypto.decrypt (blob.take NONCE_LEN) (blob.drop NONCE_LEN) with
      | none => .error .decrypt
      | some plaintext => .ok plaintext
    else .error .malformed

def encryptStr (nonce : Nonce) (s : String) : Except CryptoError (List UInt8) :=
  crypto.encryptBytes nonce (asBytes s)

def decryptStr (blob : List UInt8) : Except CryptoError String :=
  match crypto.decryptBytes blob with
  | .error e => .error e
  | .ok bytes =>
    match fromUtf8 bytes with
    | none => .error .malformed
    | some s => .ok s

end Crypto

/-! ### Stored URLs -/

/-- `PREFIX`. -/
def sealedPrefix : String := "enc:v1:"

/-- `strip_prefix`. -/
def stripPrefix (s lead : String) : Option String :=
  (s.toList.dropPrefix? lead.toList).map String.ofList

/-- `seal`. -/
def sealUrl (crypto : Crypto) (nonce : Nonce) (url : String) : Except AppError String :=
  match crypto.encryptStr nonce url with
  | .error e => .error (.internal ("Failed to encrypt broker URL: " ++ e.display))
  | .ok blob => .ok (sealedPrefix ++ crypto.encode blob)

/-- `open`. -/
def openUrl (crypto : Crypto) (stored : String) : Except AppError String :=
  match stripPrefix stored sealedPrefix with
  | none => .ok stored
  | some b64 =>
    match crypto.decode b64 with
    | none => .error (.internal "Stored broker URL is malformed")
    | some blob =>
      match crypto.decryptStr blob with
      | .error _ =>
        .error (.internal "Stored broker URL can't be decrypted; was ENCRYPTION_KEY changed?")
      | .ok url => .ok url

def isSealed (stored : String) : Bool := sealedPrefix.toList.isPrefixOf stored.toList

/-- `secret` as the handlers of requests use it. -/
def secretEnv (crypto : Crypto) (nonce : Nonce) (databaseError : String) : Env :=
  { sealUrl := sealUrl crypto nonce, connectionUrl := openUrl crypto, databaseError }

/-! ### Rows -/

/-- A row of `broker_configs` with its saved error. -/
structure BrokerRow extends BrokerConfig where
  lastError : Option String
  deriving Repr, DecidableEq

abbrev Brokers := Keyed fun row : BrokerRow => row.id

/-- `rewrite_broker_secrets`: the columns that it sets. -/
def rewriteBrokerSecrets (connectionEnc : String) (lastError : Option String) :
    Update fun row : BrokerRow => row.id :=
  ⟨fun row => { row with connectionEnc, lastError }, fun _ => rfl⟩

/-- What a run takes from outside. -/
structure Startup where
  /-- The rows in the order in which they are listed. -/
  order : List BrokerRow → List BrokerRow
  order_perm : ∀ rows, (order rows).Perm rows
  listError : Option AppError
  nonce : Uuid → Nonce
  write : Uuid → Write AppError

/-- What `seal_legacy_rows` writes for a row. -/
def sealRow (crypto : Crypto) (nonce : Nonce) (config : BrokerRow) :
    Except AppError (Option (Update fun row : BrokerRow => row.id)) :=
  let redactedError := config.lastError.map redactUrlCredentials
  if isSealed config.connectionEnc then
    if redactedError = config.lastError then .ok none
    else .ok (some (rewriteBrokerSecrets config.connectionEnc redactedError))
  else
    -- Older demo seeds wrote a literal `encrypted:` in front of the URL.
    let url := (stripPrefix config.connectionEnc "encrypted:").getD config.connectionEnc
    match sealUrl crypto nonce url with
    | .error e => .error e
    | .ok connectionEnc => .ok (some (rewriteBrokerSecrets connectionEnc redactedError))

def sealSweep (crypto : Crypto) (startup : Startup) :
    Sweep (fun row : BrokerRow => row.id) AppError where
  plan config := sealRow crypto (startup.nonce config.id) config
  write config := startup.write config.id

/-- `seal_legacy_rows`. -/
def sealLegacyRows (crypto : Crypto) (startup : Startup) (db : Brokers) :
    Except AppError Unit × Brokers :=
  match startup.listError with
  | some e => (.error e, db)
  | none => (sealSweep crypto startup).run (startup.order db.rows) db

/-- The table after some startups. -/
def afterStartups (crypto : Crypto) (startups : List Startup) (db : Brokers) : Brokers :=
  startups.foldl (fun db startup => (sealLegacyRows crypto startup db).2) db

/-! ### What is sealed opens -/

theorem stripPrefix_eq_some {s lead rest : String} :
    stripPrefix s lead = some rest ↔ s = lead ++ rest := by
  rw [stripPrefix, Option.map_eq_some_iff]
  constructor
  · rintro ⟨chars, hchars, rfl⟩
    rw [Separators.dropPrefix?_eq_some] at hchars
    rw [← String.toList_inj, String.toList_append, String.toList_ofList, hchars]
  · rintro rfl
    exact ⟨rest.toList, Separators.dropPrefix?_eq_some.2 String.toList_append,
      String.ofList_toList⟩

theorem isSealed_iff {stored : String} :
    isSealed stored = true ↔ ∃ b64, stored = sealedPrefix ++ b64 := by
  rw [isSealed, List.isPrefixOf_iff_prefix]
  constructor
  · rintro ⟨chars, hchars⟩
    exact ⟨String.ofList chars, by
      rw [← String.toList_inj, String.toList_append, String.toList_ofList, hchars]⟩
  · rintro ⟨b64, rfl⟩
    exact ⟨b64.toList, String.toList_append.symm⟩

section

variable (crypto : Crypto)

theorem decryptBytes_encryptBytes {nonce : Nonce} {plaintext blob : List UInt8}
    (h : crypto.encryptBytes nonce plaintext = .ok blob) :
    crypto.decryptBytes blob = .ok plaintext := by
  unfold Crypto.encryptBytes at h
  cases hct : crypto.encrypt nonce.1 plaintext with
  | none => rw [hct] at h; cases h
  | some ct =>
      rw [hct] at h
      cases h
      have hlen : NONCE_LEN < (VERSION_V1 :: (nonce.1 ++ ct)).length := by
        rw [List.length_cons, List.length_append, nonce.2]
        omega
      rw [Crypto.decryptBytes, if_pos ⟨rfl, hlen⟩, List.take_left' nonce.2,
        List.drop_left' nonce.2, crypto.decrypt_encrypt _ _ _ hct]

theorem decryptStr_encryptStr {nonce : Nonce} {s : String} {blob : List UInt8}
    (h : crypto.encryptStr nonce s = .ok blob) : crypto.decryptStr blob = .ok s := by
  rw [Crypto.decryptStr, decryptBytes_encryptBytes crypto h]
  simp only
  rw [fromUtf8_asBytes]

variable {crypto}

theorem sealUrl_ok {nonce : Nonce} {url stored : String}
    (h : sealUrl crypto nonce url = .ok stored) :
    ∃ blob, crypto.encryptStr nonce url = .ok blob ∧ stored = sealedPrefix ++ crypto.encode blob := by
  unfold sealUrl at h
  cases hblob : crypto.encryptStr nonce url with
  | error e => rw [hblob] at h; cases h
  | ok blob =>
      rw [hblob] at h
      cases h
      exact ⟨blob, rfl, rfl⟩

theorem isSealed_sealUrl {nonce : Nonce} {url stored : String}
    (h : sealUrl crypto nonce url = .ok stored) : isSealed stored = true := by
  obtain ⟨blob, -, rfl⟩ := sealUrl_ok h
  exact isSealed_iff.2 ⟨_, rfl⟩

theorem openUrl_sealUrl {nonce : Nonce} {url stored : String}
    (h : sealUrl crypto nonce url = .ok stored) : openUrl crypto stored = .ok url := by
  obtain ⟨blob, hblob, rfl⟩ := sealUrl_ok h
  rw [openUrl, stripPrefix_eq_some.2 rfl]
  simp only
  rw [crypto.decode_encode]
  simp only
  rw [decryptStr_encryptStr crypto hblob]

/-- The URL of a config that was created is the one of the request. -/
theorem connectionUrl_secretEnv {nonce : Nonce} {databaseError url stored : String}
    (h : (secretEnv crypto nonce databaseError).sealUrl url = .ok stored) :
    (secretEnv crypto nonce databaseError).connectionUrl stored = .ok url := openUrl_sealUrl h

end

/-! ### What a run does with a row -/

section

variable (crypto : Crypto)

/-- The URL that a stored value is for. -/
def bareUrl (stored : String) : Except AppError String :=
  if isSealed stored then openUrl crypto stored
  else .ok ((stripPrefix stored "encrypted:").getD stored)

/-- There is nothing left to do for the row. -/
structure IsDone (row : BrokerRow) : Prop where
  isSealed : isSealed row.connectionEnc = true
  redacted : row.lastError.map redactUrlCredentials = row.lastError

/-- What `row` has in common with the row it is the successor of. -/
structure Continues (original row : BrokerRow) : Prop where
  others : row.toBrokerConfig = { original.toBrokerConfig with connectionEnc := row.connectionEnc }
  url : bareUrl crypto row.connectionEnc = bareUrl crypto original.connectionEnc
  error : row.lastError = original.lastError ∨
    row.lastError = original.lastError.map redactUrlCredentials

variable {crypto}

theorem Continues.refl (row : BrokerRow) : Continues crypto row row := ⟨rfl, rfl, .inl rfl⟩

theorem bareUrl_sealUrl {nonce : Nonce} {url stored : String}
    (h : sealUrl crypto nonce url = .ok stored) : bareUrl crypto stored = .ok url := by
  rw [bareUrl, if_pos (isSealed_sealUrl h), openUrl_sealUrl h]

theorem sealRow_of_isDone {nonce : Nonce} {config : BrokerRow} (h : IsDone config) :
    sealRow crypto nonce config = .ok none := by
  simp only [sealRow, h.isSealed, h.redacted, if_true]

/-- A row is kept if it is done; else it gets a sealed value for its URL, and its error redacted. -/
theorem sealRow_ok {nonce : Nonce} {config : BrokerRow}
    {plan : Option (Update fun row : BrokerRow => row.id)}
    (h : sealRow crypto nonce config = .ok plan) :
    (IsDone config ∧ plan = none) ∨
      ∃ connectionEnc, isSealed connectionEnc = true ∧
        bareUrl crypto connectionEnc = bareUrl crypto config.connectionEnc ∧
        plan = some (rewriteBrokerSecrets connectionEnc
          (config.lastError.map redactUrlCredentials)) := by
  unfold sealRow at h
  by_cases hsealed : isSealed config.connectionEnc = true
  · simp only [hsealed, if_true] at h
    by_cases hredacted : config.lastError.map redactUrlCredentials = config.lastError
    · rw [if_pos hredacted] at h
      exact .inl ⟨⟨hsealed, hredacted⟩, by cases h; rfl⟩
    · rw [if_neg hredacted] at h
      exact .inr ⟨config.connectionEnc, hsealed, rfl, by cases h; rfl⟩
  · simp only [hsealed, Bool.false_eq_true, if_false] at h
    cases hurl : sealUrl crypto nonce
        ((stripPrefix config.connectionEnc "encrypted:").getD config.connectionEnc) with
    | error e => rw [hurl] at h; cases h
    | ok connectionEnc =>
        rw [hurl] at h
        refine .inr ⟨connectionEnc, isSealed_sealUrl hurl, ?_, by cases h; rfl⟩
        rw [bareUrl_sealUrl hurl, bareUrl, if_neg hsealed]

theorem map_redact_idem (error : Option String) :
    (error.map redactUrlCredentials).map redactUrlCredentials =
      error.map redactUrlCredentials := by
  cases error with
  | none => rfl
  | some text => rw [Option.map_some, Option.map_some, redactUrlCredentials_idem]

/-- Visited by a run, a row is done and still continues the original. -/
theorem visit_sealSweep {startup : Startup} {original row : BrokerRow}
    (h : Continues crypto original row) (hplan : ∃ u, (sealSweep crypto startup).plan row = .ok u) :
    IsDone ((sealSweep crypto startup).visit row) ∧
      Continues crypto original ((sealSweep crypto startup).visit row) := by
  obtain ⟨plan, hplan⟩ := hplan
  rcases sealRow_ok hplan with ⟨hdone, rfl⟩ | ⟨connectionEnc, hsealed, hurl, rfl⟩
  · rw [Sweep.visit_of_none hplan]
    exact ⟨hdone, h⟩
  · rw [Sweep.visit_of_some hplan]
    refine ⟨⟨hsealed, map_redact_idem _⟩, ?_, hurl.trans h.url, .inr ?_⟩
    · show { row.toBrokerConfig with connectionEnc } = _
      rw [h.others]
      rfl
    · show row.lastError.map redactUrlCredentials = _
      rcases h.error with herror | herror <;> rw [herror]
      exact map_redact_idem _

/-! ### Runs -/

theorem sealLegacyRows_continues {startup : Startup} {originals : List BrokerRow} {db : Brokers}
    (h : List.Forall₂ (Continues crypto) originals db.rows) :
    List.Forall₂ (Continues crypto) originals (sealLegacyRows crypto startup db).2.rows := by
  unfold sealLegacyRows
  split
  · exact h
  · exact Sweep.run_preserves (fun _ _ hrow hplan => (visit_sealSweep hrow hplan).2)
      (startup.order_perm db.rows) h

/-- Whatever the startups got done, by induction on them. -/
theorem afterStartups_continues (startups : List Startup) {originals : List BrokerRow}
    {db : Brokers} (h : List.Forall₂ (Continues crypto) originals db.rows) :
    List.Forall₂ (Continues crypto) originals (afterStartups crypto startups db).rows := by
  induction startups generalizing db with
  | nil => exact h
  | cons startup startups ih => exact ih (sealLegacyRows_continues h)

theorem isDone_of_sealLegacyRows_ok {startup : Startup} {db db' : Brokers}
    (h : sealLegacyRows crypto startup db = (.ok (), db')) : ∀ row ∈ db'.rows, IsDone row := by
  unfold sealLegacyRows at h
  cases hlist : startup.listError with
  | some e => rw [hlist] at h; cases h
  | none =>
      rw [hlist] at h
      obtain ⟨hrows, hplans⟩ := Sweep.run_ok (startup.order_perm db.rows) h
      intro row hrow
      rw [hrows] at hrow
      obtain ⟨before, hbefore, rfl⟩ := List.mem_map.1 hrow
      exact (visit_sealSweep (Continues.refl before) (hplans before hbefore)).1

theorem sealLegacyRows_of_isDone (startup : Startup) {db : Brokers}
    (h : ∀ row ∈ db.rows, IsDone row) : (sealLegacyRows crypto startup db).2 = db := by
  unfold sealLegacyRows
  split
  · rfl
  · rw [Sweep.run_of_none]
    intro row hrow
    exact sealRow_of_isDone (h row ((startup.order_perm db.rows).mem_iff.1 hrow))

theorem sealRow_completes {nonce : Nonce} {config : BrokerRow}
    (h : ∀ url, (crypto.encrypt nonce.1 (asBytes url)).isSome) :
    ∃ plan, sealRow crypto nonce config = .ok plan := by
  have hseal : ∀ url, ∃ stored, sealUrl crypto nonce url = .ok stored := by
    intro url
    obtain ⟨ct, hct⟩ := Option.isSome_iff_exists.1 (h url)
    refine ⟨sealedPrefix ++ crypto.encode (VERSION_V1 :: (nonce.1 ++ ct)), ?_⟩
    simp only [sealUrl, Crypto.encryptStr, Crypto.encryptBytes, hct]
  simp only [sealRow]
  split
  · split
    · exact ⟨_, rfl⟩
    · exact ⟨_, rfl⟩
  · obtain ⟨stored, hstored⟩ :=
      hseal ((stripPrefix config.connectionEnc "encrypted:").getD config.connectionEnc)
    simp only [hstored]
    exact ⟨_, rfl⟩

/-- With a database that answers and a cipher that encrypts, a run completes. -/
theorem sealLegacyRows_completes {startup : Startup} (db : Brokers)
    (hlist : startup.listError = none) (hwrite : ∀ id, startup.write id = .done)
    (hencrypt : ∀ id url, (crypto.encrypt (startup.nonce id).1 (asBytes url)).isSome) :
    (sealLegacyRows crypto startup db).1 = .ok () := by
  simp only [sealLegacyRows, hlist]
  exact Sweep.run_completes db (fun row _ => sealRow_completes (hencrypt row.id))
    fun row _ => hwrite row.id

/-- A row as a completed run leaves it. -/
structure Sealed (crypto : Crypto) (original row : BrokerRow) : Prop where
  others : row.toBrokerConfig = { original.toBrokerConfig with connectionEnc := row.connectionEnc }
  isSealed : isSealed row.connectionEnc = true
  opens : openUrl crypto row.connectionEnc = bareUrl crypto original.connectionEnc
  error : row.lastError = original.lastError.map redactUrlCredentials

theorem Sealed.id {original row : BrokerRow} (h : Sealed crypto original row) :
    row.id = original.id := by
  rw [h.others]

theorem Continues.sealed {original row : BrokerRow} (h : Continues crypto original row)
    (hdone : IsDone row) : Sealed crypto original row := by
  refine ⟨h.others, hdone.isSealed, ?_, ?_⟩
  · rw [← h.url, bareUrl, if_pos hdone.isSealed]
  · rcases h.error with herror | herror
    · rw [← herror, hdone.redacted]
    · exact herror

/-- A completed run after any startups leaves what it would leave without them. -/
theorem sealed_of_sealLegacyRows_ok {startups : List Startup} {startup : Startup}
    {db db' : Brokers}
    (h : sealLegacyRows crypto startup (afterStartups crypto startups db) = (.ok (), db')) :
    List.Forall₂ (Sealed crypto) db.rows db'.rows := by
  have hcontinues : List.Forall₂ (Continues crypto) db.rows db'.rows := by
    have hrefl : List.Forall₂ (Continues crypto) db.rows db.rows :=
      List.forall₂_same.2 fun row _ => Continues.refl row
    have hlast := @sealLegacyRows_continues crypto startup _ _ (afterStartups_continues startups hrefl)
    rwa [h] at hlast
  have hdone := isDone_of_sealLegacyRows_ok h
  rw [List.forall₂_iff_zip] at hcontinues ⊢
  exact ⟨hcontinues.1, fun hpair => (hcontinues.2 hpair).sealed (hdone _ (List.of_mem_zip hpair).2)⟩

/-- What there is to read of a table. -/
def contents (crypto : Crypto) (db : Brokers) :
    List (Uuid × Except AppError String × Option String) :=
  db.rows.map fun row => (row.id, openUrl crypto row.connectionEnc, row.lastError)

theorem contents_of_sealed {db db' : Brokers} (h : List.Forall₂ (Sealed crypto) db.rows db'.rows) :
    contents crypto db' = db.rows.map fun row =>
      (row.id, bareUrl crypto row.connectionEnc, row.lastError.map redactUrlCredentials) := by
  rw [contents]
  generalize db.rows = originals, db'.rows = rows at h
  induction h with
  | nil => rfl
  | cons hrow _ ih =>
      rw [List.map_cons, List.map_cons, ih, hrow.opens, hrow.error, hrow.id]

end

end Feloxi.Broker
