import Feloxi.Auth.Sessions
import Feloxi.Lib.Runs
import Mathlib.Data.List.Chain

/-!
# Feloxi.Auth.ApiKeys

API keys (`crates/auth/src/api_key.rs`, `crates/api/src/routes/api_keys.rs`) and how a request
is authenticated with one (`authenticate_api_key` in `crates/auth/src/middleware.rs`). A key
can create keys; the scopes of the new one are checked against it, but for the wildcard.
-/

namespace Feloxi.Auth

open Runs
open Tables (Table storeVarchar)

/-! ### Keys -/

structure ApiKey where
  id : Uuid
  tenantId : Uuid
  createdBy : Uuid
  name : String
  keyPrefix : String
  keyHash : String
  permissions : List String
  expiresAt : Option Instant
  isActive : Bool
  deriving Repr, DecidableEq

def sameKey (a b : ApiKey) : Bool := a.id == b.id

/-- The keys beside the accounts. -/
structure KeyDb where
  accounts : Db
  apiKeys : Table ApiKey sameKey

def KEY_PREFIX : String := "fp_key_"

/-- The eight characters after `fp_key_`. -/
def keySlice (raw : String) : String := String.ofList ((raw.toList.drop 7).take 8)

/-- `generate_api_key`. -/
def generateApiKey (u : Uuid) : String × String :=
  let raw := KEY_PREFIX ++ simple u
  (raw, keySlice raw)

/-- `extract_prefix`; a header that is text is ASCII. -/
def extractPrefix (key : String) : Option String :=
  if 15 ≤ key.toList.length ∧ KEY_PREFIX.toList.isPrefixOf key.toList = true then
    some (keySlice key)
  else none

/-! ### Authentication -/

inductive StatusCode where
  | unauthorized
  /-- A failed look-up of the roles. -/
  | internalServerError
  deriving Repr, DecidableEq

/-- What the roles of a user permit. -/
def permissionsIn (roles : List Role) : List String := roles.flatMap (·.permissions)

/-- The rights that a key comes to: its scopes, capped by what its creator can do now. -/
def KeyDb.effective (s : KeyDb) (key : ApiKey) : List String :=
  let roles := s.accounts.rolesOf key.createdBy
  apiKeyPermissions key.permissions (permissionsIn roles) (roles.any (·.name == "admin"))

/-- The user that a key stands for. -/
def keyUser (s : KeyDb) (key : ApiKey) : Except StatusCode CurrentUser :=
  if key.expiresAt.any (· ≤ s.accounts.now) then .error .unauthorized
  else
    match fetchOne s.accounts.users.rows fun u => u.id == key.createdBy && u.isActive with
    | .error _ => .error .unauthorized
    | .ok creator =>
      if creator.tenantId = key.tenantId then
        let roles := s.accounts.rolesOf creator.id
        .ok { userId := creator.id, tenantId := key.tenantId, email := creator.email,
              -- never the admin role: a key is exactly its scopes
              roles := [],
              permissions := apiKeyPermissions key.permissions (permissionsIn roles)
                (roles.any (·.name == "admin")) }
      else .error .unauthorized

/-- The key that a secret is looked up as. -/
def findKey (env : Env) (raw : String) (s : KeyDb) : Except StatusCode ApiKey :=
  match extractPrefix raw with
  | none => .error .unauthorized
  | some keyPrefix =>
    match fetchOne s.apiKeys.rows fun k => k.keyPrefix == keyPrefix && k.isActive with
    | .error _ => .error .unauthorized
    | .ok key => if env.sha256 raw = key.keyHash then .ok key else .error .unauthorized

/-- `authenticate_api_key`. -/
def authenticateApiKey (env : Env) (raw : String) (s : KeyDb) : Except StatusCode CurrentUser :=
  match findKey env raw s with
  | .error e => .error e
  | .ok key => keyUser s key

/-! ### Creation -/

structure CreateKeyRequest where
  name : String
  permissions : List String
  expiresAt : Option Instant
  deriving Repr, DecidableEq

structure CreateApiKeyResponse where
  key : String
  id : Uuid
  name : String
  keyPrefix : String
  message : String
  deriving Repr, DecidableEq

def validateScope (user : CurrentUser) (scope : String) : Except AppError Unit :=
  if scope = ALL then .ok ()
  else if scope ∈ PERMISSIONS then
    if user.isAdmin || user.hasPermission scope then .ok ()
    else .error (.forbidden s!"You can't grant a permission you don't have: {scope}")
  else .error (.badRequest s!"Unknown permission: {scope}")

/-- `validate_scopes`. -/
def validateScopes (user : CurrentUser) (scopes : List String) : Except AppError Unit :=
  if scopes.isEmpty then .error (.badRequest "Pick at least one permission")
  else scopes.forM (validateScope user)

/-- What `create_key` checks before it makes a key. -/
def checkCreateKey (s : KeyDb) (user : CurrentUser) (req : CreateKeyRequest) : Except AppError Unit :=
  match checkPermission user "api_keys_manage" with
  | .error e => .error e
  | .ok () =>
    match validateScopes user req.permissions with
    | .error e => .error e
    | .ok () =>
      if req.expiresAt.any (· ≤ s.accounts.now) then
        .error (.badRequest "Expiry must be in the future")
      else .ok ()

/-- The columns of `create_api_key`. -/
def apiKeyRow (id : Uuid) (user : CurrentUser) (req : CreateKeyRequest) (keyPrefix keyHash : String) :
    Option ApiKey :=
  match storeVarchar 255 req.name, storeVarchar 8 keyPrefix, storeVarchar 255 keyHash with
  | some name, some keyPrefix, some keyHash =>
    some { id, tenantId := user.tenantId, createdBy := user.userId, name, keyPrefix, keyHash,
           permissions := req.permissions, expiresAt := req.expiresAt, isActive := true }
  | _, _, _ => none

/-- The answer; the key is shown once. -/
def keyResponse (raw : String) (row : ApiKey) : CreateApiKeyResponse :=
  { key := raw, id := row.id, name := row.name, keyPrefix := row.keyPrefix,
    message := "Store this key securely. It cannot be retrieved again." }

/-- `create_key`, for the random ids of the key and of its row. -/
def createKey (env : Env) (user : CurrentUser) (req : CreateKeyRequest) (keyId rowId : Uuid)
    (s : KeyDb) : KeyDb × Except AppError CreateApiKeyResponse :=
  match checkCreateKey s user req with
  | .error e => (s, .error e)
  | .ok () =>
    let (raw, keyPrefix) := generateApiKey keyId
    match apiKeyRow rowId user req keyPrefix (env.sha256 raw) with
    | none => (s, .error (.database env.databaseError))
    | some row =>
      match s.apiKeys.insert row with
      | none => (s, .error (.conflict "A record with this value already exists"))
      | some apiKeys => ({ s with apiKeys }, .ok (keyResponse raw row))

def ApiKey.revoke (tenantId id : Uuid) (k : ApiKey) : ApiKey :=
  if k.id = id ∧ k.tenantId = tenantId then { k with isActive := false } else k

@[simp] theorem ApiKey.revoke_keys (tenantId id : Uuid) (k : ApiKey) :
    (k.revoke tenantId id).id = k.id ∧ (k.revoke tenantId id).tenantId = k.tenantId ∧
      (k.revoke tenantId id).createdBy = k.createdBy ∧
      (k.revoke tenantId id).permissions = k.permissions := by
  unfold revoke
  split <;> exact ⟨rfl, rfl, rfl, rfl⟩

theorem sameKey_revoke (tenantId id : Uuid) (a b : ApiKey) (h : sameKey a b = false) :
    sameKey (a.revoke tenantId id) (b.revoke tenantId id) = false := by
  simpa [sameKey] using h

/-- `revoke_key`. -/
def revokeKey (user : CurrentUser) (keyId : Uuid) (s : KeyDb) : KeyDb :=
  match checkPermission user "api_keys_manage" with
  | .error _ => s
  | .ok () =>
    let apiKeys := s.apiKeys.update (·.revoke user.tenantId keyId) (sameKey_revoke user.tenantId keyId)
    { s with apiKeys }

/-! ### Runs -/

inductive Credential where
  | session (user : CurrentUser)
  | apiKey (raw : String)
  deriving Repr, DecidableEq

inductive KeyStep where
  | create (credential : Credential) (req : CreateKeyRequest) (keyId rowId : Uuid)
  | revoke (user : CurrentUser) (keyId : Uuid)
  /-- Whatever becomes of users, roles and the clock. -/
  | accounts (db : Db)

/-- The keys, and which key was created with which. -/
structure KeyHistory where
  db : KeyDb
  derived : List (Uuid × Uuid)

/-- A request with a key, and the key it creates. -/
def createWith (env : Env) (raw : String) (req : CreateKeyRequest) (keyId rowId : Uuid)
    (h : KeyHistory) : KeyHistory :=
  match findKey env raw h.db with
  | .error _ => h
  | .ok key =>
    match keyUser h.db key with
    | .error _ => h
    | .ok user =>
      match createKey env user req keyId rowId h.db with
      | (db, .ok response) => { db, derived := h.derived ++ [(key.id, response.id)] }
      | (db, .error _) => { h with db }

def keyStep (env : Env) (h : KeyHistory) : KeyStep → KeyHistory
  | .create (.session user) req keyId rowId =>
    { h with db := (createKey env user req keyId rowId h.db).1 }
  | .create (.apiKey raw) req keyId rowId => createWith env raw req keyId rowId h
  | .revoke user keyId => { h with db := revokeKey user keyId h.db }
  | .accounts accounts => { h with db := { h.db with accounts } }

/-! ### What a key grants -/

/-- The scopes name the permission. -/
def ApiKey.grants (key : ApiKey) (p : String) : Bool :=
  key.permissions.any (· == ALL) || key.permissions.any fun g => currentName g == p

/-- What the user can do now. -/
def KeyDb.held (s : KeyDb) (userId : Uuid) (p : String) : Bool :=
  (s.accounts.rolesOf userId).any (·.name == "admin") ||
    (permissionsIn (s.accounts.rolesOf userId)).any (· == p)

theorem mem_effective {s : KeyDb} {key : ApiKey} {p : String} :
    p ∈ s.effective key ↔ p ∈ PERMISSIONS ∧ key.grants p = true ∧ s.held key.createdBy p = true := by
  simp only [KeyDb.effective, apiKeyPermissions, List.mem_filter, Bool.and_eq_true]
  rfl

/-- A key never stands for more than its rights, and never for another user. -/
theorem keyUser_ok {s : KeyDb} {key : ApiKey} {user : CurrentUser} (h : keyUser s key = .ok user) :
    user.userId = key.createdBy ∧ user.roles = [] ∧ user.permissions = s.effective key := by
  unfold keyUser at h
  split at h
  · cases h
  · split at h
    · cases h
    · rename_i creator hcreator
      split at h
      · obtain ⟨-, hid⟩ := fetchOne_eq_ok hcreator
        simp only [Bool.and_eq_true, beq_iff_eq] at hid
        obtain rfl := Except.ok.inj h
        refine ⟨hid.1, rfl, ?_⟩
        rw [KeyDb.effective, ← hid.1]
      · cases h

theorem findKey_ok {env : Env} {raw : String} {s : KeyDb} {key : ApiKey}
    (h : findKey env raw s = .ok key) :
    key ∈ s.apiKeys.rows ∧ key.isActive = true ∧ env.sha256 raw = key.keyHash := by
  unfold findKey at h
  split at h
  · cases h
  · split at h
    · cases h
    · rename_i found hfound
      split at h
      · rename_i hhash
        obtain rfl := Except.ok.inj h
        obtain ⟨hmem, hkey⟩ := fetchOne_eq_ok hfound
        simp only [Bool.and_eq_true] at hkey
        exact ⟨hmem, hkey.2, hhash⟩
      · cases h

/-- **What `authenticate_api_key` permits** is what the key comes to. -/
theorem authenticate_permissions {env : Env} {raw : String} {s : KeyDb} {user : CurrentUser}
    (h : authenticateApiKey env raw s = .ok user) :
    ∃ key ∈ s.apiKeys.rows, key.isActive = true ∧ env.sha256 raw = key.keyHash ∧
      user.permissions = s.effective key := by
  unfold authenticateApiKey at h
  split at h
  · cases h
  · rename_i key hkey
    obtain ⟨hmem, hactive, hhash⟩ := findKey_ok hkey
    exact ⟨key, hmem, hactive, hhash, (keyUser_ok h).2.2⟩

theorem validateScope_ok {user : CurrentUser} {scope : String} :
    validateScope user scope = .ok () ↔
      scope = ALL ∨ scope ∈ PERMISSIONS ∧ (user.isAdmin || user.hasPermission scope) = true := by
  unfold validateScope
  by_cases hall : scope = ALL
  · simp [hall]
  · by_cases hknown : scope ∈ PERMISSIONS
    · by_cases hheld : (user.isAdmin || user.hasPermission scope) = true
      · simp [hall, hknown, hheld]
      · simp [hall, hknown, hheld]
    · simp [hall, hknown]

theorem validateScopes_ok {user : CurrentUser} {scopes : List String}
    (h : validateScopes user scopes = .ok ()) :
    ∀ scope ∈ scopes,
      scope = ALL ∨ scope ∈ PERMISSIONS ∧ (user.isAdmin || user.hasPermission scope) = true := by
  unfold validateScopes at h
  split at h
  · cases h
  · clear * - h
    induction scopes with
    | nil => nofun
    | cons scope scopes ih =>
        change (validateScope user scope >>= fun _ => scopes.forM (validateScope user)) = .ok () at h
        cases hscope : validateScope user scope with
        | error e => rw [hscope] at h; cases h
        | ok =>
            rw [hscope] at h
            exact List.forall_mem_cons.2 ⟨validateScope_ok.1 hscope, ih h⟩

/-! ### What a key hands on -/

/-- What the scopes of a key are worth beside those of the key that created it: each is
granted by it, or is the wildcard. -/
structure Descends (parent child : ApiKey) : Prop where
  createdBy : child.createdBy = parent.createdBy
  scopes : ∀ scope ∈ child.permissions,
    scope = ALL ∨ scope ∈ PERMISSIONS ∧ parent.grants scope = true

/-- The scopes that are offered have their current names. -/
theorem currentName_permission {p : String} (h : p ∈ PERMISSIONS) : currentName p = p := by
  have hplain : (PERMISSIONS.all fun p => p.toList.all fun c => c != ':') = true := by decide
  have hchars : ∀ c ∈ p.toList, c ≠ ':' := fun c hc =>
    bne_iff_ne.1 (List.all_eq_true.1 (List.all_eq_true.1 hplain p h) c hc)
  apply String.toList_injective
  rw [currentName, String.toList_map]
  exact (List.map_congr_left fun c hc => if_neg (hchars c hc)).trans (List.map_id' p.toList)

/-- **When a key hands on no more than it has**: the new key has no wildcard, or the key grants
all that its creator can do now. -/
theorem effective_subset_iff {s : KeyDb} {parent child : ApiKey} (h : Descends parent child) :
    s.effective child ⊆ s.effective parent ↔
      ALL ∉ child.permissions ∨
        ∀ p ∈ PERMISSIONS, s.held child.createdBy p = true → parent.grants p = true := by
  constructor
  · intro hsubset
    by_cases hwild : ALL ∈ child.permissions
    · right
      intro p hp hheld
      have hgrants : child.grants p = true := by
        simp only [ApiKey.grants, Bool.or_eq_true, List.any_eq_true, beq_iff_eq]
        exact .inl ⟨ALL, hwild, rfl⟩
      exact (mem_effective.1 (hsubset (mem_effective.2 ⟨hp, hgrants, hheld⟩))).2.1
    · exact .inl hwild
  · intro hcondition p hp
    obtain ⟨hknown, hgrants, hheld⟩ := mem_effective.1 hp
    rw [mem_effective, ← h.createdBy]
    refine ⟨hknown, ?_, hheld⟩
    rcases hcondition with hwild | hall
    · simp only [ApiKey.grants, Bool.or_eq_true, List.any_eq_true, beq_iff_eq] at hgrants
      rcases hgrants with ⟨g, hg, rfl⟩ | ⟨g, hg, hname⟩
      · exact absurd hg hwild
      · rcases h.scopes g hg with rfl | ⟨hoffered, hparent⟩
        · exact absurd hg hwild
        · rwa [← hname, currentName_permission hoffered]
    · exact hall p hknown hheld

/-! ### Whole histories -/

/-- A request that creates a key stores one row, with the scopes that were asked for and
checked; one that fails stores none. -/
theorem createKey_cases (env : Env) (user : CurrentUser) (req : CreateKeyRequest)
    (keyId rowId : Uuid) (s : KeyDb) :
    (∃ e, createKey env user req keyId rowId s = (s, .error e)) ∨
      ∃ row apiKeys response, createKey env user req keyId rowId s =
          ({ s with apiKeys }, .ok response) ∧
        apiKeys.rows = s.apiKeys.rows ++ [row] ∧ response.id = row.id ∧
        row.createdBy = user.userId ∧ row.permissions = req.permissions ∧
        validateScopes user req.permissions = .ok () := by
  unfold createKey
  cases hcheck : checkCreateKey s user req with
  | error e => exact .inl ⟨e, rfl⟩
  | ok =>
      have hscopes : validateScopes user req.permissions = .ok () := by
        unfold checkCreateKey at hcheck
        split at hcheck
        · cases hcheck
        · split at hcheck
          · cases hcheck
          · assumption
      dsimp only
      cases hrow : apiKeyRow rowId user req (generateApiKey keyId).2
          (env.sha256 (generateApiKey keyId).1) with
      | none => exact .inl ⟨_, rfl⟩
      | some row =>
          cases hinsert : s.apiKeys.insert row with
          | none =>
              exact .inl ⟨.conflict "A record with this value already exists", by simp only [hinsert]⟩
          | some apiKeys =>
              let response := keyResponse (generateApiKey keyId).1 row
              have hfields : row.createdBy = user.userId ∧ row.permissions = req.permissions := by
                unfold apiKeyRow at hrow
                split at hrow
                · obtain rfl := Option.some.inj hrow
                  exact ⟨rfl, rfl⟩
                · cases hrow
              exact .inr ⟨row, apiKeys, response, by simp only [hinsert, response],
                (Table.insert_eq_some.1 hinsert).2, rfl, hfields.1, hfields.2, hscopes⟩

/-- The same key; only whether it is active changes. -/
def ApiKey.Same (k k' : ApiKey) : Prop :=
  k'.id = k.id ∧ k'.createdBy = k.createdBy ∧ k'.permissions = k.permissions

theorem Descends.same {parent child parent' child' : ApiKey} (h : Descends parent child)
    (hparent : parent.Same parent') (hchild : child.Same child') : Descends parent' child' := by
  obtain ⟨-, hpcreator, hpscopes⟩ := hparent
  obtain ⟨-, hccreator, hcscopes⟩ := hchild
  refine ⟨by rw [hccreator, hpcreator, h.createdBy], fun scope hscope => ?_⟩
  rw [hcscopes] at hscope
  simpa only [ApiKey.grants, hpscopes] using h.scopes scope hscope

/-- Each key created with another descends from it. -/
def Lineage (h : KeyHistory) : Prop :=
  ∀ x ∈ h.derived, ∃ parent ∈ h.db.apiKeys.rows, ∃ child ∈ h.db.apiKeys.rows,
    (parent.id, child.id) = x ∧ Descends parent child

/-- Keys are only added, and stay the same. -/
theorem Lineage.grow {h : KeyHistory} {db : KeyDb} (hh : Lineage h)
    (hgrow : ∀ k ∈ h.db.apiKeys.rows, ∃ k' ∈ db.apiKeys.rows, k.Same k') :
    Lineage { h with db } := by
  intro x hx
  obtain ⟨parent, hparent, child, hchild, rfl, hdescends⟩ := hh x hx
  obtain ⟨parent', hparent', hpsame⟩ := hgrow parent hparent
  obtain ⟨child', hchild', hcsame⟩ := hgrow child hchild
  refine ⟨parent', hparent', child', hchild', ?_, hdescends.same hpsame hcsame⟩
  rw [hpsame.1, hcsame.1]

theorem ApiKey.same_refl (k : ApiKey) : k.Same k := ⟨rfl, rfl, rfl⟩

/-- A key created with another takes no scope from beyond it, but for the wildcard. -/
theorem lineage_createWith (env : Env) (raw : String) (req : CreateKeyRequest)
    (keyId rowId : Uuid) (h : KeyHistory) (hh : Lineage h) :
    Lineage (createWith env raw req keyId rowId h) := by
  unfold createWith
  cases hfound : findKey env raw h.db with
  | error e => exact hh
  | ok key =>
      dsimp only
      cases huser : keyUser h.db key with
      | error e => exact hh
      | ok user =>
          obtain ⟨huserId, hroles, hpermissions⟩ := keyUser_ok huser
          dsimp only
          rcases createKey_cases env user req keyId rowId h.db with
            ⟨e, hcreate⟩ | ⟨row, apiKeys, response, hcreate, hrows, hid, hcreator, hscopes, hchecked⟩
          · rw [hcreate]
            exact hh
          · rw [hcreate]
            have hgrow : ∀ k ∈ h.db.apiKeys.rows, ∃ k' ∈ apiKeys.rows, k.Same k' := by
              intro k hk
              exact ⟨k, hrows ▸ List.mem_append_left _ hk, k.same_refl⟩
            have hdescends : Descends key row := by
              refine ⟨hcreator.trans huserId, fun scope hscope => ?_⟩
              rw [hscopes] at hscope
              rcases validateScopes_ok hchecked scope hscope with hall | ⟨hoffered, hheld⟩
              · exact .inl hall
              · simp only [CurrentUser.isAdmin, hroles, List.any_nil, Bool.false_or,
                  CurrentUser.hasPermission, hpermissions, List.any_eq_true, beq_iff_eq,
                  exists_eq_right] at hheld
                exact .inr ⟨hoffered, (mem_effective.1 hheld).2.1⟩
            have hold : Lineage { h with db := { h.db with apiKeys } } := hh.grow hgrow
            intro x hx
            rcases List.mem_append.1 hx with hx | hx
            · exact hold x hx
            · obtain rfl := List.mem_singleton.1 hx
              refine ⟨key, hrows ▸ List.mem_append_left _ (findKey_ok hfound).1, row, ?_, ?_, hdescends⟩
              · exact hrows ▸ List.mem_append_right _ List.mem_cons_self
              · rw [hid]

theorem lineage_step (env : Env) (h : KeyHistory) (step : KeyStep) (hh : Lineage h) :
    Lineage (keyStep env h step) := by
  cases step with
  | create credential req keyId rowId =>
      cases credential with
      | session user =>
          refine hh.grow fun k hk => ?_
          rcases createKey_cases env user req keyId rowId h.db with
            ⟨e, hcreate⟩ | ⟨row, apiKeys, response, hcreate, hrows, -⟩
          · exact ⟨k, by rwa [hcreate], k.same_refl⟩
          · refine ⟨k, ?_, k.same_refl⟩
            rw [hcreate]
            exact hrows ▸ List.mem_append_left _ hk
      | apiKey raw => exact lineage_createWith env raw req keyId rowId h hh
  | revoke user keyId =>
      refine hh.grow fun k hk => ?_
      unfold revokeKey
      split
      · exact ⟨k, hk, k.same_refl⟩
      · obtain ⟨hid, -, hcreator, hscopes⟩ := k.revoke_keys user.tenantId keyId
        exact ⟨_, List.mem_map_of_mem hk, hid, hcreator, hscopes⟩
  | accounts accounts => exact hh.grow fun k hk => ⟨k, hk, k.same_refl⟩

/-- **Derived keys.** Along any chain of keys, each created with the one before, and whatever
their creator can do by now, each key comes to no more than the one before exactly if each is
without the wildcard, or the one before grants all that the creator can do. -/
theorem derived_narrows (env : Env) (db : KeyDb) (inputs : List KeyStep) (keys : List ApiKey) :
    let h := run (keyStep env) { db, derived := [] } inputs
    (∀ k ∈ keys, k ∈ h.db.apiKeys.rows) →
    keys.IsChain (fun parent child => (parent.id, child.id) ∈ h.derived) →
    (keys.IsChain (fun parent child => h.db.effective child ⊆ h.db.effective parent) ↔
      keys.IsChain (fun parent child => ALL ∉ child.permissions ∨
        ∀ p ∈ PERMISSIONS, h.db.held child.createdBy p = true → parent.grants p = true)) := by
  intro h hkeys hchain
  have hlineage : Lineage h := 
    run_invariant _ (lineage_step env) (fun _ hx => absurd hx List.not_mem_nil) inputs
  have hsymm : ∀ a b, sameKey a b = sameKey b a := fun a b => Bool.beq_comm
  have hone : ∀ k k' : ApiKey, k ∈ h.db.apiKeys.rows → k' ∈ h.db.apiKeys.rows → k.id = k'.id →
      k = k' := fun k k' hk hk' hid => Table.eq_of_clash hsymm hk hk' (by simp [sameKey, hid])
  have hlinks : keys.IsChain Descends := by
    refine hchain.imp_of_mem_imp fun a b ha hb hderived => ?_
    obtain ⟨parent, hparent, child, hchild, hids, hdescends⟩ := hlineage _ hderived
    obtain ⟨hpid, hcid⟩ := Prod.mk.inj hids
    rwa [hone a parent (hkeys a ha) hparent hpid.symm, hone b child (hkeys b hb) hchild hcid.symm]
  clear * - hlinks
  induction keys with
  | nil => exact iff_of_true .nil .nil
  | cons a keys ih =>
      cases keys with
      | nil => exact iff_of_true (.singleton a) (.singleton a)
      | cons b keys =>
          obtain ⟨hab, hrest⟩ := List.isChain_cons_cons.1 hlinks
          rw [List.isChain_cons_cons, List.isChain_cons_cons]
          exact and_congr (effective_subset_iff hab) (ih hrest)

/-! ### A key that may only manage keys -/

def sampleKey : ApiKey :=
  { id := 70, tenantId := 7, createdBy := 1, name := "ci", keyPrefix := "00000000",
    keyHash := "fp_key_0000000000000000", permissions := ["api_keys_manage"], expiresAt := none,
    isActive := true }

/-- The key of an admin. -/
def sampleKeys : KeyDb := ⟨sampleDb, ⟨[sampleKey], List.pairwise_singleton _ _⟩⟩

/-- A key with one scope, created with it. -/
def sampleChild (scope : String) : ApiKey :=
  { id := 71, tenantId := 7, createdBy := 1, name := "more", keyPrefix := "00000000",
    keyHash := "fp_key_00000000000000000000000000000009", permissions := [scope],
    expiresAt := none, isActive := true }

def sampleDerived (scope : String) : KeyHistory :=
  run (keyStep plainEnv) { db := sampleKeys, derived := [] }
    [.create (.apiKey "fp_key_0000000000000000") ⟨"more", [scope], none⟩ 9 71]

/-- A key that asks for no more than the first. -/
theorem derived_narrows_manager :
    (sampleDerived "api_keys_manage").db.effective (sampleChild "api_keys_manage") ⊆
      (sampleDerived "api_keys_manage").db.effective sampleKey := by
  have hrows : (sampleDerived "api_keys_manage").db.apiKeys.rows =
      [sampleKey, sampleChild "api_keys_manage"] := by decide +kernel
  have hderived : (sampleDerived "api_keys_manage").derived = [(70, 71)] := by decide +kernel
  have hchain := (derived_narrows plainEnv sampleKeys
    [.create (.apiKey "fp_key_0000000000000000") ⟨"more", ["api_keys_manage"], none⟩ 9 71]
    [sampleKey, sampleChild "api_keys_manage"] (fun k hk => hrows ▸ hk)
    (.cons_cons (hderived ▸ List.mem_cons_self) (.singleton _))).2
    (.cons_cons (.inl (by decide)) (.singleton _))
  exact (List.isChain_cons_cons.1 hchain).1

/-- A key that asks for the wildcard gets all that the admin can do. -/
theorem wildcard_widens :
    (sampleDerived "*").db.apiKeys.rows = [sampleKey, sampleChild "*"] ∧
      (sampleKey.id, (sampleChild "*").id) ∈ (sampleDerived "*").derived ∧
      (sampleDerived "*").db.effective sampleKey = ["api_keys_manage"] ∧
      (sampleDerived "*").db.effective (sampleChild "*") = PERMISSIONS ∧
      ¬ (sampleDerived "*").db.effective (sampleChild "*") ⊆
        (sampleDerived "*").db.effective sampleKey := by
  have hfirst : (sampleDerived "*").db.effective sampleKey = ["api_keys_manage"] := by
    decide +kernel
  have hall : (sampleDerived "*").db.effective (sampleChild "*") = PERMISSIONS := by
    decide +kernel
  refine ⟨by decide +kernel, by decide +kernel, hfirst, hall, ?_⟩
  rw [hfirst, hall]
  decide

end Feloxi.Auth
