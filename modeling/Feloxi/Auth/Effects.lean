import Feloxi.Auth.Sessions

/-!
# Feloxi.Auth.Effects

What an operation can do to the tables (`exec_effect`): it adds one row, or rewrites columns
that identify nothing. No row of an account, a session or a mailed link ever goes away.
-/

namespace Feloxi.Auth

open Tables (Table)

/-- An insert fails and changes nothing, or stores its row. -/
theorem insertRow_cases {ι : Type} {clash : ι → ι → Bool} (t : Table ι clash) (columns : Option ι)
    (constraint : String) (put : Table ι clash → Db) (s : Db) :
    (∃ e, insertRow t columns constraint put s = (s, .error e)) ∨
      ∃ row t', columns = some row ∧ (∀ r ∈ t.rows, clash r row = false) ∧
        t'.rows = t.rows ++ [row] ∧ insertRow t columns constraint put s = (put t', .ok row) := by
  unfold insertRow
  cases columns with
  | none => exact .inl ⟨_, rfl⟩
  | some row =>
      cases hinsert : t.insert row with
      | none => exact .inl ⟨.unique constraint, by simp only [hinsert]⟩
      | some t' =>
          obtain ⟨hfree, hrows⟩ := Table.insert_eq_some.1 hinsert
          exact .inr ⟨row, t', rfl, hfree, hrows, by simp only [hinsert]⟩

/-- What an operation can do to the tables. -/
inductive Effect (env : Env) (draw : Draw) (s : Db) : Op → Db → Prop where
  | none (op : Op) : Effect env draw s op s
  | tenant (name slug : String) (row : Tenant) (t : Table Tenant sameTenant)
      (hrow : tenantRow draw.uuid name slug = some row)
      (hfree : ∀ r ∈ s.tenants.rows, sameTenant r row = false)
      (ht : t.rows = s.tenants.rows ++ [row]) :
      Effect env draw s (.db (.createTenant name slug)) { s with tenants := t }
  | role (tenantId : Uuid) (name : String) (permissions : List String) (isSystem : Bool) (row : Role)
      (t : Table Role sameRole)
      (hrow : roleRow draw.uuid tenantId name permissions isSystem = some row)
      (hfree : ∀ r ∈ s.roles.rows, sameRole r row = false) (ht : t.rows = s.roles.rows ++ [row]) :
      Effect env draw s (.db (.createRole tenantId name permissions isSystem))
        { s with roles := t }
  | assign (userId roleId : Uuid) :
      Effect env draw s (.db (.assignRole userId roleId))
        { s with userRoles := s.userRoles ++ [(userId, roleId)] }
  | user (input : CreateUser) (row : User) (t : Table User sameUser)
      (hrow : userRow env draw.uuid input = some row)
      (hfree : ∀ r ∈ s.users.rows, sameUser r row = false) (ht : t.rows = s.users.rows ++ [row]) :
      Effect env draw s (.db (.createUser input)) { s with users := t }
  | password (id tenantId : Uuid) (passwordHash : String) :
      Effect env draw s (.db (.updatePasswordHash id tenantId passwordHash))
        (s.setPassword id tenantId passwordHash)
  | deactivate (id : Uuid) : Effect env draw s (.db (.deactivateUser id)) (s.deactivate id)
  | token (userId tenantId : Uuid) (tokenHash : String) (expiresAt : Instant) (row : RefreshToken)
      (t : Table RefreshToken sameToken)
      (hrow : refreshTokenRow draw.uuid userId tenantId tokenHash expiresAt = some row)
      (hfree : ∀ r ∈ s.refreshTokens.rows, sameToken r row = false)
      (ht : t.rows = s.refreshTokens.rows ++ [row]) :
      Effect env draw s (.db (.createRefreshToken userId tenantId tokenHash expiresAt))
        { s with refreshTokens := t }
  | revoke (id : Uuid) :
      Effect env draw s (.db (.revokeRefreshToken id)) (s.revoke (·.id == id))
  | revokeAll (userId : Uuid) :
      Effect env draw s (.db (.revokeAllForUser userId))
        (s.revoke fun t => t.userId == userId && t.revokedAt.isNone)
  | link (email tokenHash : String) (expiresAt : Instant) (row : MagicLinkToken)
      (t : Table MagicLinkToken sameLink)
      (hrow : magicLinkRow draw.uuid email tokenHash expiresAt = some row)
      (hfree : ∀ r ∈ s.magicLinks.rows, sameLink r row = false)
      (ht : t.rows = s.magicLinks.rows ++ [row]) :
      Effect env draw s (.db (.createMagicLink email tokenHash expiresAt))
        { s with magicLinks := t }
  | consume (tokenHash : String) :
      Effect env draw s (.db (.consumeMagicLink tokenHash)) (s.consume tokenHash)
  | invite (input : CreateUserInvite) (row : UserInvite) (t : Table UserInvite sameInvite)
      (hrow : inviteRow draw.uuid input = some row)
      (ht : ∀ i ∈ t.rows, i ∈ s.invites.rows ∨ i = row) :
      Effect env draw s (.db (.createInvite input)) { s with invites := t }
  | claim (tokenHash : String) :
      Effect env draw s (.db (.claimInvite tokenHash)) (s.claim tokenHash)

/-- **What a step does to the tables.** -/
theorem exec_effect (env : Env) (op : Op) (draw : Draw) (s : Db) :
    Effect env draw s op (exec env op draw s).1 := by
  cases op with
  | clock => exact .none _
  | newToken lead => exact .none _
  | hashPassword password => exact .none _
  | sendMail recipient token => exact .none _
  | db op =>
      cases op with
      | createTenant name slug =>
          rcases insertRow_cases s.tenants (tenantRow draw.uuid name slug) "tenants_slug_key"
            (fun tenants => { s with tenants }) s with ⟨e, h⟩ | ⟨row, t, hrow, hfree, ht, h⟩
          · simp only [exec, execDb, h]
            exact .none _
          · simp only [exec, execDb, h]
            exact .tenant name slug row t hrow hfree ht
      | createRole tenantId name permissions isSystem =>
          rcases insertRow_cases s.roles (roleRow draw.uuid tenantId name permissions isSystem)
            "roles_tenant_id_name_key" (fun roles => { s with roles }) s with
            ⟨e, h⟩ | ⟨row, t, hrow, hfree, ht, h⟩
          · simp only [exec, execDb, h]
            exact .none _
          · simp only [exec, execDb, h]
            exact .role tenantId name permissions isSystem row t hrow hfree ht
      | assignRole userId roleId =>
          simp only [exec, execDb]
          split
          · exact .none _
          · exact .assign userId roleId
      | createUser input =>
          rcases insertRow_cases s.users (userRow env draw.uuid input) "users_tenant_id_email_key"
            (fun users => { s with users }) s with ⟨e, h⟩ | ⟨row, t, hrow, hfree, ht, h⟩
          · simp only [exec, execDb, h]
            exact .none _
          · simp only [exec, execDb, h]
            exact .user input row t hrow hfree ht
      | createRefreshToken userId tenantId tokenHash expiresAt =>
          rcases insertRow_cases s.refreshTokens
            (refreshTokenRow draw.uuid userId tenantId tokenHash expiresAt)
            "refresh_tokens_token_hash_key" (fun refreshTokens => { s with refreshTokens }) s with
            ⟨e, h⟩ | ⟨row, t, hrow, hfree, ht, h⟩
          · simp only [exec, execDb, h]
            exact .none _
          · simp only [exec, execDb, h]
            exact .token userId tenantId tokenHash expiresAt row t hrow hfree ht
      | createMagicLink email tokenHash expiresAt =>
          rcases insertRow_cases s.magicLinks (magicLinkRow draw.uuid email tokenHash expiresAt)
            "magic_link_tokens_token_hash_key" (fun magicLinks => { s with magicLinks }) s with
            ⟨e, h⟩ | ⟨row, t, hrow, hfree, ht, h⟩
          · simp only [exec, execDb, h]
            exact .none _
          · simp only [exec, execDb, h]
            exact .link email tokenHash expiresAt row t hrow hfree ht
      | createInvite input =>
          let others := s.invites.delete fun i =>
            i.tenantId == input.tenantId && i.email == input.email && i.acceptedAt.isNone
          rcases insertRow_cases others (inviteRow draw.uuid input) "user_invites_token_hash_key"
            (fun invites => { s with invites }) s with ⟨e, h⟩ | ⟨row, t, hrow, -, ht, h⟩
          · have hexec : (exec env (.db (.createInvite input)) draw s).1 = s := congrArg Prod.fst h
            rw [hexec]
            exact .none _
          · have hexec : (exec env (.db (.createInvite input)) draw s).1 = { s with invites := t } :=
              congrArg Prod.fst h
            rw [hexec]
            refine .invite input row t hrow fun i hi => ?_
            rw [ht] at hi
            rcases List.mem_append.1 hi with hi | hi
            · exact .inl (List.mem_filter.1 hi).1
            · exact .inr (List.mem_singleton.1 hi)
      | updatePasswordHash id tenantId passwordHash => exact .password id tenantId passwordHash
      | deactivateUser id => exact .deactivate id
      | revokeRefreshToken id => exact .revoke id
      | revokeAllForUser userId => exact .revokeAll userId
      | consumeMagicLink tokenHash => exact .consume tokenHash
      | claimInvite tokenHash => exact .claim tokenHash
      | hasTenants => exact .none _
      | getTenantById id => exact .none _
      | getTenantBySlug slug => exact .none _
      | getRoleByName tenantId name => exact .none _
      | getUserRoles userId => exact .none _
      | getUserById id => exact .none _
      | findUserByEmail tenantId email => exact .none _
      | findUsersByEmail email => exact .none _
      | findValidRefreshToken tokenHash => exact .none _
      | peekMagicLink tokenHash => exact .none _

/-! ### Growth -/

/-- Rows only get added and rewritten. -/
def Grows {ι : Type} (keep : ι → ι → Prop) (rows rows' : List ι) : Prop :=
  ∀ row ∈ rows, ∃ row' ∈ rows', keep row row'

theorem Grows.refl {ι : Type} {keep : ι → ι → Prop} (hkeep : ∀ r, keep r r) (rows : List ι) :
    Grows keep rows rows := fun row hrow => ⟨row, hrow, hkeep row⟩

theorem Grows.append {ι : Type} {keep : ι → ι → Prop} (hkeep : ∀ r, keep r r) {rows rows' : List ι}
    {row : ι} (h : rows' = rows ++ [row]) : Grows keep rows rows' :=
  fun r hr => ⟨r, h ▸ List.mem_append_left _ hr, hkeep r⟩

theorem Grows.map {ι : Type} {keep : ι → ι → Prop} {f : ι → ι} (hkeep : ∀ r, keep r (f r))
    (rows : List ι) : Grows keep rows (rows.map f) :=
  fun r hr => ⟨f r, List.mem_map_of_mem hr, hkeep r⟩

/-- The same refresh token, revoked if it was. -/
def RefreshToken.Keeps (t t' : RefreshToken) : Prop :=
  t'.id = t.id ∧ t'.tokenHash = t.tokenHash ∧ (t.revokedAt.isSome = true → t'.revokedAt.isSome = true)

theorem RefreshToken.keeps_revoke (now : Instant) (p : RefreshToken → Bool) (t : RefreshToken) :
    t.Keeps (t.revoke now p) := by
  unfold revoke
  split
  · exact ⟨rfl, rfl, fun _ => rfl⟩
  · exact ⟨rfl, rfl, fun h => h⟩

theorem refreshTokens_grow (env : Env) (op : Op) (draw : Draw) (s : Db) :
    Grows RefreshToken.Keeps s.refreshTokens.rows (exec env op draw s).1.refreshTokens.rows := by
  have hrefl : ∀ t : RefreshToken, t.Keeps t := fun _ => ⟨rfl, rfl, id⟩
  have heffect := exec_effect env op draw s
  generalize (exec env op draw s).1 = s' at heffect ⊢
  cases heffect with
  | token _ _ _ _ row t _ _ ht => exact Grows.append hrefl ht
  | revoke id => exact Grows.map (RefreshToken.keeps_revoke s.now _) _
  | revokeAll userId => exact Grows.map (RefreshToken.keeps_revoke s.now _) _
  | _ => exact Grows.refl hrefl _

/-- The same link; once consumed, it stays as it is. -/
structure MagicLinkToken.Keeps (l l' : MagicLinkToken) : Prop where
  id : l'.id = l.id
  tokenHash : l'.tokenHash = l.tokenHash
  email : l'.email = l.email
  expiresAt : l'.expiresAt = l.expiresAt
  consumed : l.consumedAt.isSome = true → l' = l

theorem MagicLinkToken.keeps_refl (l : MagicLinkToken) : l.Keeps l :=
  ⟨rfl, rfl, rfl, rfl, fun _ => rfl⟩

theorem MagicLinkToken.keeps_consume (now : Instant) (tokenHash : String) (l : MagicLinkToken) :
    l.Keeps (l.consume now tokenHash) := by
  obtain ⟨hid, hhash, hemail, hexpires⟩ := l.consume_keys now tokenHash
  refine ⟨hid, hhash, hemail, hexpires, fun hconsumed => ?_⟩
  have hused : ¬ l.usable now tokenHash = true := by
    simp [MagicLinkToken.usable, Option.isSome_iff_ne_none.1 hconsumed]
  exact if_neg hused

theorem magicLinks_grow (env : Env) (op : Op) (draw : Draw) (s : Db) :
    Grows MagicLinkToken.Keeps s.magicLinks.rows (exec env op draw s).1.magicLinks.rows := by
  have heffect := exec_effect env op draw s
  generalize (exec env op draw s).1 = s' at heffect ⊢
  cases heffect with
  | link _ _ _ row t _ _ ht => exact Grows.append MagicLinkToken.keeps_refl ht
  | consume tokenHash => exact Grows.map (MagicLinkToken.keeps_consume s.now tokenHash) _
  | _ => exact Grows.refl MagicLinkToken.keeps_refl _

/-- The same account. -/
def User.Keeps (u u' : User) : Prop :=
  u'.id = u.id ∧ u'.tenantId = u.tenantId ∧ u'.email = u.email

theorem users_grow (env : Env) (op : Op) (draw : Draw) (s : Db) :
    Grows User.Keeps s.users.rows (exec env op draw s).1.users.rows := by
  have hrefl : ∀ u : User, u.Keeps u := fun _ => ⟨rfl, rfl, rfl⟩
  have heffect := exec_effect env op draw s
  generalize (exec env op draw s).1 = s' at heffect ⊢
  cases heffect with
  | user _ row t _ _ ht => exact Grows.append hrefl ht
  | password id tenantId passwordHash =>
      refine Grows.map (fun u => ?_) _
      obtain ⟨hid, htenant, hemail, -⟩ := u.setPassword_keys id tenantId passwordHash
      exact ⟨hid, htenant, hemail⟩
  | deactivate id =>
      refine Grows.map (fun u => ?_) _
      obtain ⟨hid, htenant, hemail, -⟩ := u.deactivate_keys id
      exact ⟨hid, htenant, hemail⟩
  | _ => exact Grows.refl hrefl _

theorem tenants_grow (env : Env) (op : Op) (draw : Draw) (s : Db) :
    Grows Eq s.tenants.rows (exec env op draw s).1.tenants.rows := by
  have heffect := exec_effect env op draw s
  generalize (exec env op draw s).1 = s' at heffect ⊢
  cases heffect with
  | tenant _ _ row t _ _ ht => exact Grows.append (fun _ => rfl) ht
  | _ => exact Grows.refl (fun _ => rfl) _

end Feloxi.Auth
