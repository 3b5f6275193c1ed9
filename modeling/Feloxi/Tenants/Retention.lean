import Feloxi.Auth.Rbac
import Feloxi.Lib.Queries
import Mathlib.Order.Bounds.Basic

/-!
# Feloxi.Tenants.Retention

How long events are kept: the policies that tenants see and set (`get_retention` and
`update_retention` in `crates/api/src/routes/tenants.rs`), and the one that is enforced for all of
them (`enforce_retention` in `crates/api/src/main.rs`). The two have their own defaults.
-/

namespace Feloxi.Tenants

open Auth (CurrentUser checkPermission)
open Queries

/-! ### Tables -/

structure TenantRow where
  id : Uuid
  isActive : Bool
  createdAt : Int
  deriving Repr, DecidableEq

structure RetentionPolicy where
  tenantId : Uuid
  resourceType : String
  retentionDays : Int
  deriving Repr, DecidableEq

/-- The columns of `UNIQUE(tenant_id, resource_type)`. -/
def RetentionPolicy.key (p : RetentionPolicy) : Uuid × String := (p.tenantId, p.resourceType)

/-- What `update_retention` stores: a positive `i32`. -/
def IsDays (days : Int) : Prop := 1 ≤ days ∧ days < 2 ^ 31

instance (days : Int) : Decidable (IsDays days) := inferInstanceAs (Decidable (_ ∧ _))

/-- The tables that retention is read from. -/
structure RetentionDb where
  tenants : List TenantRow
  policies : List RetentionPolicy
  /-- `ORDER BY created_at DESC`. -/
  newestFirst : OrderBy fun t : TenantRow => -t.createdAt
  unique : (policies.map (·.key)).Nodup
  isDays : ∀ p ∈ policies, IsDays p.retentionDays

namespace RetentionDb

variable (db : RetentionDb)

/-- `list_tenants`: the active ones. -/
def listTenants (limit offset : Nat) : List TenantRow :=
  ((db.newestFirst.sort (db.tenants.filter (·.isActive))).drop offset).take limit

/-- `ORDER BY resource_type`. -/
def listRetentionPolicies (tenantId : Uuid) : List RetentionPolicy :=
  (db.policies.filter fun p => p.tenantId == tenantId).insertionSort
    fun a b => a.resourceType ≤ b.resourceType

/-! ### What is enforced -/

/-- `days as u32`. -/
def asU32 (days : Int) : Nat := (days % 2 ^ 32).toNat

structure EnforcedDays where
  minTaskDays : Nat
  minWorkerDays : Nat
  deriving Repr, DecidableEq

def enforceStep (days : EnforcedDays) (p : RetentionPolicy) : EnforcedDays :=
  match p.resourceType with
  | "task_events" => { days with minTaskDays := min days.minTaskDays (asU32 p.retentionDays) }
  | "worker_events" => { days with minWorkerDays := min days.minWorkerDays (asU32 p.retentionDays) }
  | _ => days

/-- The days that `enforce_retention` comes to. -/
def enforcedDays : EnforcedDays :=
  (db.listTenants 1000 0).foldl
    (fun days tenant => (db.listRetentionPolicies tenant.id).foldl enforceStep days) ⟨90, 30⟩

/-- `apply_table_ttl`, the statement. -/
def applyTableTtl (table : String) (retentionDays : Nat) : String :=
  s!"ALTER TABLE {table} MODIFY TTL toDateTime(timestamp) + INTERVAL {retentionDays} DAY"

/-- The statements of one pass. -/
def enforceRetention : List String :=
  [applyTableTtl "task_events" db.enforcedDays.minTaskDays,
    applyTableTtl "worker_events" db.enforcedDays.minWorkerDays]

/-! ### What tenants see -/

structure RetentionResponse where
  taskEventsDays : Int
  workerEventsDays : Int
  alertHistoryDays : Int
  deriving Repr, DecidableEq

def reportStep (days : RetentionResponse) (p : RetentionPolicy) : RetentionResponse :=
  match p.resourceType with
  | "task_events" => { days with taskEventsDays := p.retentionDays }
  | "worker_events" => { days with workerEventsDays := p.retentionDays }
  | "alert_history" => { days with alertHistoryDays := p.retentionDays }
  | _ => days

def getRetention (user : CurrentUser) : Except AppError RetentionResponse :=
  match checkPermission user "settings_read" with
  | .error e => .error e
  | .ok () => .ok ((db.listRetentionPolicies user.tenantId).foldl reportStep ⟨30, 14, 90⟩)

/-! ### Policies of one resource -/

/-- An active tenant. -/
def IsTenant (id : Uuid) : Prop := ∃ t ∈ db.tenants, t.isActive = true ∧ t.id = id

/-- A policy of an active tenant. -/
def Stored (resource : String) (p : RetentionPolicy) : Prop :=
  p ∈ db.policies ∧ db.IsTenant p.tenantId ∧ p.resourceType = resource

variable {db} {resource : String}

theorem mem_listRetentionPolicies {tenantId : Uuid} {p : RetentionPolicy} :
    p ∈ db.listRetentionPolicies tenantId ↔ p ∈ db.policies ∧ p.tenantId = tenantId := by
  rw [listRetentionPolicies, List.mem_insertionSort, List.mem_filter, beq_iff_eq]

/-- All active tenants are listed, if there are not too many. -/
theorem mem_listTenants (hlimit : (db.tenants.filter (·.isActive)).length ≤ 1000) {t : TenantRow} :
    t ∈ db.listTenants 1000 0 ↔ t ∈ db.tenants ∧ t.isActive = true := by
  have hall : db.listTenants 1000 0 = db.newestFirst.sort (db.tenants.filter (·.isActive)) := by
    rw [listTenants, List.drop_zero, List.take_of_length_le]
    rwa [OrderBy.length_sort]
  rw [hall, OrderBy.mem_sort, List.mem_filter]

theorem asU32_of_isDays {days : Int} (h : IsDays days) : (asU32 days : Int) = days := by
  unfold asU32
  unfold IsDays at h
  omega

/-- The days of a resource that are enforced: the least that was read, or those at the start. -/
theorem foldl_enforceStep {f : EnforcedDays → Nat}
    (hstep : ∀ days p, f (enforceStep days p) =
      if p.resourceType = resource then min (f days) (asU32 p.retentionDays) else f days)
    (ps : List RetentionPolicy) (days : EnforcedDays) :
    (f (ps.foldl enforceStep days) ≤ f days ∧
        ∀ p ∈ ps, p.resourceType = resource →
          f (ps.foldl enforceStep days) ≤ asU32 p.retentionDays) ∧
      (f (ps.foldl enforceStep days) = f days ∨
        ∃ p ∈ ps, p.resourceType = resource ∧
          f (ps.foldl enforceStep days) = asU32 p.retentionDays) := by
  induction ps generalizing days with
  | nil => simp
  | cons p ps ih =>
      rw [List.foldl_cons]
      obtain ⟨⟨hle, hall⟩, hcases⟩ := ih (enforceStep days p)
      have hone := hstep days p
      by_cases hresource : p.resourceType = resource
      · rw [if_pos hresource] at hone
        refine ⟨⟨by omega, fun p' hp' hresource' => ?_⟩, ?_⟩
        · rcases List.mem_cons.1 hp' with rfl | hp'
          · omega
          · exact hall p' hp' hresource'
        · rcases hcases with heq | ⟨p', hp', hresource', heq⟩
          · rcases Nat.le_total (f days) (asU32 p.retentionDays) with hmin | hmin
            · exact .inl (by omega)
            · exact .inr ⟨p, List.mem_cons_self, hresource, by omega⟩
          · exact .inr ⟨p', List.mem_cons_of_mem p hp', hresource', heq⟩
      · rw [if_neg hresource] at hone
        refine ⟨⟨by omega, fun p' hp' hresource' => ?_⟩, ?_⟩
        · rcases List.mem_cons.1 hp' with rfl | hp'
          · exact absurd hresource' hresource
          · exact hall p' hp' hresource'
        · rcases hcases with heq | ⟨p', hp', hresource', heq⟩
          · exact .inl (by omega)
          · exact .inr ⟨p', List.mem_cons_of_mem p hp', hresource', heq⟩

/-- The days of a resource that are reported: those of the policy, or those at the start. -/
theorem foldl_reportStep {g : RetentionResponse → Int}
    (hstep : ∀ days p, g (reportStep days p) =
      if p.resourceType = resource then p.retentionDays else g days)
    (ps : List RetentionPolicy) (days : RetentionResponse) :
    g (ps.foldl reportStep days) = g days ∧ (∀ p ∈ ps, p.resourceType ≠ resource) ∨
      ∃ p ∈ ps, p.resourceType = resource ∧ g (ps.foldl reportStep days) = p.retentionDays := by
  induction ps generalizing days with
  | nil => simp
  | cons p ps ih =>
      rw [List.foldl_cons]
      have hone := hstep days p
      rcases ih (reportStep days p) with ⟨heq, hnone⟩ | ⟨p', hp', hresource', heq⟩
      · by_cases hresource : p.resourceType = resource
        · rw [if_pos hresource] at hone
          exact .inr ⟨p, List.mem_cons_self, hresource, heq.trans hone⟩
        · rw [if_neg hresource] at hone
          refine .inl ⟨heq.trans hone, fun p' hp' => ?_⟩
          rcases List.mem_cons.1 hp' with rfl | hp'
          · exact hresource
          · exact hnone p' hp'
      · exact .inr ⟨p', List.mem_cons_of_mem p hp', hresource', heq⟩

theorem minTaskDays_enforceStep (days : EnforcedDays) (p : RetentionPolicy) :
    (enforceStep days p).minTaskDays =
      if p.resourceType = "task_events" then min days.minTaskDays (asU32 p.retentionDays)
      else days.minTaskDays := by
  unfold enforceStep
  split <;> simp_all

theorem minWorkerDays_enforceStep (days : EnforcedDays) (p : RetentionPolicy) :
    (enforceStep days p).minWorkerDays =
      if p.resourceType = "worker_events" then min days.minWorkerDays (asU32 p.retentionDays)
      else days.minWorkerDays := by
  unfold enforceStep
  split <;> simp_all

theorem taskEventsDays_reportStep (days : RetentionResponse) (p : RetentionPolicy) :
    (reportStep days p).taskEventsDays =
      if p.resourceType = "task_events" then p.retentionDays else days.taskEventsDays := by
  unfold reportStep
  split <;> simp_all

theorem workerEventsDays_reportStep (days : RetentionResponse) (p : RetentionPolicy) :
    (reportStep days p).workerEventsDays =
      if p.resourceType = "worker_events" then p.retentionDays else days.workerEventsDays := by
  unfold reportStep
  split <;> simp_all

theorem alertHistoryDays_reportStep (days : RetentionResponse) (p : RetentionPolicy) :
    (reportStep days p).alertHistoryDays =
      if p.resourceType = "alert_history" then p.retentionDays else days.alertHistoryDays := by
  unfold reportStep
  split <;> simp_all

/-! ### The least of the reported days -/

/-- What a tenant is shown of a resource. -/
def Reports (db : RetentionDb) (g : RetentionResponse → Int) (days : Int) : Prop :=
  ∃ user response, db.IsTenant user.tenantId ∧ db.getRetention user = .ok response ∧
    g response = days

/-- What the policies of a tenant come to. -/
def reported (db : RetentionDb) (g : RetentionResponse → Int) (tenantId : Uuid) : Int :=
  g ((db.listRetentionPolicies tenantId).foldl reportStep ⟨30, 14, 90⟩)

theorem reports_iff {g : RetentionResponse → Int} {days : Int} :
    db.Reports g days ↔ ∃ id, db.IsTenant id ∧ db.reported g id = days := by
  constructor
  · rintro ⟨user, response, htenant, hget, rfl⟩
    unfold getRetention at hget
    split at hget
    · cases hget
    · cases hget
      exact ⟨user.tenantId, htenant, rfl⟩
  · rintro ⟨id, htenant, rfl⟩
    exact ⟨⟨0, id, "", [], ["settings_read"]⟩, _, htenant, rfl, rfl⟩

theorem reported_cases {g : RetentionResponse → Int}
    (hstep : ∀ days p, g (reportStep days p) =
      if p.resourceType = resource then p.retentionDays else g days) {id : Uuid}
    (htenant : db.IsTenant id) :
    db.reported g id = g ⟨30, 14, 90⟩ ∨
      ∃ p, db.Stored resource p ∧ p.tenantId = id ∧ db.reported g id = p.retentionDays := by
  rcases foldl_reportStep hstep (db.listRetentionPolicies id) ⟨30, 14, 90⟩ with
    ⟨heq, -⟩ | ⟨p, hp, hresource, heq⟩
  · exact .inl heq
  · obtain ⟨hmem, hid⟩ := mem_listRetentionPolicies.1 hp
    exact .inr ⟨p, ⟨hmem, hid ▸ htenant, hresource⟩, hid, heq⟩

theorem reported_of_mem {g : RetentionResponse → Int}
    (hstep : ∀ days p, g (reportStep days p) =
      if p.resourceType = resource then p.retentionDays else g days) {p : RetentionPolicy}
    (hp : p ∈ db.policies) (hresource : p.resourceType = resource) :
    db.reported g p.tenantId = p.retentionDays := by
  have hmem := mem_listRetentionPolicies.2 ⟨hp, rfl⟩
  rcases foldl_reportStep hstep (db.listRetentionPolicies p.tenantId) ⟨30, 14, 90⟩ with
    ⟨-, hnone⟩ | ⟨p', hp', hresource', heq⟩
  · exact absurd hresource (hnone p hmem)
  · obtain ⟨hp', htenant⟩ := mem_listRetentionPolicies.1 hp'
    have hkey : p'.key = p.key := by
      rw [RetentionPolicy.key, RetentionPolicy.key, htenant, hresource, hresource']
    rw [List.inj_on_of_nodup_map db.unique hp' hp hkey] at heq
    exact heq

theorem reported_of_none {g : RetentionResponse → Int}
    (hstep : ∀ days p, g (reportStep days p) =
      if p.resourceType = resource then p.retentionDays else g days) {id : Uuid}
    (htenant : db.IsTenant id) (hnone : ∀ p, db.Stored resource p → p.tenantId ≠ id) :
    db.reported g id = g ⟨30, 14, 90⟩ := by
  rcases reported_cases hstep htenant with heq | ⟨p, hp, hid, -⟩
  · exact heq
  · exact absurd hid (hnone p hp)

theorem enforced_cases (hlimit : (db.tenants.filter (·.isActive)).length ≤ 1000)
    {f : EnforcedDays → Nat}
    (hstep : ∀ days p, f (enforceStep days p) =
      if p.resourceType = resource then min (f days) (asU32 p.retentionDays) else f days) :
    (f db.enforcedDays ≤ f ⟨90, 30⟩ ∧
        ∀ p, db.Stored resource p → (f db.enforcedDays : Int) ≤ p.retentionDays) ∧
      (f db.enforcedDays = f ⟨90, 30⟩ ∨
        ∃ p, db.Stored resource p ∧ (f db.enforcedDays : Int) = p.retentionDays) := by
  have hmem : ∀ p, p ∈ (db.listTenants 1000 0).flatMap (fun t => db.listRetentionPolicies t.id) ↔
      p ∈ db.policies ∧ db.IsTenant p.tenantId := by
    intro p
    rw [List.mem_flatMap]
    constructor
    · rintro ⟨t, ht, hp⟩
      obtain ⟨ht, hactive⟩ := (mem_listTenants hlimit).1 ht
      obtain ⟨hp, htenant⟩ := mem_listRetentionPolicies.1 hp
      exact ⟨hp, t, ht, hactive, htenant.symm⟩
    · rintro ⟨hp, t, ht, hactive, hid⟩
      exact ⟨t, (mem_listTenants hlimit).2 ⟨ht, hactive⟩,
        mem_listRetentionPolicies.2 ⟨hp, hid.symm⟩⟩
  have hfold : db.enforcedDays =
      ((db.listTenants 1000 0).flatMap fun t => db.listRetentionPolicies t.id).foldl enforceStep
        ⟨90, 30⟩ := List.foldl_flatMap.symm
  obtain ⟨⟨hstart, hle⟩, hcases⟩ := foldl_enforceStep hstep
    ((db.listTenants 1000 0).flatMap fun t => db.listRetentionPolicies t.id) ⟨90, 30⟩
  rw [← hfold] at hstart hle hcases
  refine ⟨⟨hstart, fun p hp => ?_⟩, hcases.imp_right ?_⟩
  · have hone := hle p ((hmem p).2 ⟨hp.1, hp.2.1⟩) hp.2.2
    rw [← asU32_of_isDays (db.isDays p hp.1)]
    exact Int.ofNat_le.2 hone
  · rintro ⟨p, hp, hresource, heq⟩
    obtain ⟨hp, htenant⟩ := (hmem p).1 hp
    refine ⟨p, ⟨hp, htenant, hresource⟩, ?_⟩
    rw [heq, asU32_of_isDays (db.isDays p hp)]

/-- A policy of at most `shown` days is stored, or each tenant has a policy and one is of at most
`start` days. -/
def FewDays (db : RetentionDb) (resource : String) (shown start : Int) : Prop :=
  (∃ p, db.Stored resource p ∧ p.retentionDays ≤ shown) ∨
    (∀ id, db.IsTenant id → ∃ p, db.Stored resource p ∧ p.tenantId = id) ∧
      ∃ p, db.Stored resource p ∧ p.retentionDays ≤ start

theorem isLeast_iff (hlimit : (db.tenants.filter (·.isActive)).length ≤ 1000)
    {f : EnforcedDays → Nat} {g : RetentionResponse → Int}
    (hf : ∀ days p, f (enforceStep days p) =
      if p.resourceType = resource then min (f days) (asU32 p.retentionDays) else f days)
    (hg : ∀ days p, g (reportStep days p) =
      if p.resourceType = resource then p.retentionDays else g days)
    (hless : g ⟨30, 14, 90⟩ < f ⟨90, 30⟩) :
    IsLeast {days | db.Reports g days} (f db.enforcedDays) ↔
      db.FewDays resource (g ⟨30, 14, 90⟩) (f ⟨90, 30⟩) := by
  obtain ⟨⟨hstart, hle⟩, hcases⟩ := enforced_cases hlimit hf
  have hstart : (f db.enforcedDays : Int) ≤ f ⟨90, 30⟩ := Int.ofNat_le.2 hstart
  constructor
  · rintro ⟨hmem, hleast⟩
    obtain ⟨id, htenant, heq⟩ := reports_iff.1 hmem
    rcases reported_cases hg htenant with hdefault | ⟨p, hp, -, hdays⟩
    · -- the enforced days are the reported default, which is less than the enforced one
      rcases hcases with hnone | ⟨p, hp, hdays⟩
      · rw [hnone] at heq
        omega
      · exact .inl ⟨p, hp, by omega⟩
    · by_cases hall : ∀ id, db.IsTenant id → ∃ p, db.Stored resource p ∧ p.tenantId = id
      · exact .inr ⟨hall, p, hp, by omega⟩
      · obtain ⟨id', hall⟩ := not_forall.1 hall
        obtain ⟨htenant', hnone⟩ := Classical.not_imp.1 hall
        have hdefault := reported_of_none hg htenant'
          fun p' hp' hid => hnone ⟨p', hp', hid⟩
        have hreported := hleast (reports_iff.2 ⟨id', htenant', hdefault⟩)
        exact .inl ⟨p, hp, by omega⟩
  · intro hfew
    have hlower : ∀ id, db.IsTenant id → (f db.enforcedDays : Int) ≤ db.reported g id := by
      intro id htenant
      rcases reported_cases hg htenant with hdefault | ⟨p, hp, -, hdays⟩
      · rw [hdefault]
        rcases hfew with ⟨p, hp, hdays⟩ | ⟨hall, -⟩
        · exact Int.le_trans (hle p hp) hdays
        · obtain ⟨p, hp, rfl⟩ := hall id htenant
          rw [← hdefault, reported_of_mem hg hp.1 hp.2.2]
          exact hle p hp
      · exact hdays ▸ hle p hp
    have hsome : ∃ p, db.Stored resource p ∧ p.retentionDays ≤ f ⟨90, 30⟩ := by
      rcases hfew with ⟨p, hp, hdays⟩ | ⟨-, hsome⟩
      · exact ⟨p, hp, by omega⟩
      · exact hsome
    refine ⟨reports_iff.2 ?_, fun days hdays => ?_⟩
    · rcases hcases with hnone | ⟨p, hp, hdays⟩
      · obtain ⟨p, hp, hdays⟩ := hsome
        have hone := hle p hp
        refine ⟨p.tenantId, hp.2.1, ?_⟩
        rw [reported_of_mem hg hp.1 hp.2.2, hnone]
        omega
      · exact ⟨p.tenantId, hp.2.1, by rw [reported_of_mem hg hp.1 hp.2.2, hdays]⟩
    · obtain ⟨id, htenant, rfl⟩ := reports_iff.1 hdays
      exact hlower id htenant

/-- **Retention.** What is enforced on the two tables is the least that a tenant is shown, exactly
if policies that are short enough are stored: the defaults of the enforcement never are shown. -/
theorem enforced_isLeast_iff (hlimit : (db.tenants.filter (·.isActive)).length ≤ 1000) :
    (IsLeast {days | db.Reports (·.taskEventsDays) days} (db.enforcedDays.minTaskDays : Int) ∧
        IsLeast {days | db.Reports (·.workerEventsDays) days}
          (db.enforcedDays.minWorkerDays : Int)) ↔
      db.FewDays "task_events" 30 90 ∧ db.FewDays "worker_events" 14 30 :=
  and_congr
    (isLeast_iff hlimit minTaskDays_enforceStep taskEventsDays_reportStep (by decide))
    (isLeast_iff hlimit minWorkerDays_enforceStep workerEventsDays_reportStep (by decide))

/-! ### What tenants set -/

/-- `INSERT ... ON CONFLICT (tenant_id, resource_type) DO UPDATE`. -/
def upsertRetentionPolicy (db : RetentionDb) (policy : RetentionPolicy)
    (h : IsDays policy.retentionDays) : RetentionDb :=
  { db with
    policies := db.policies.filter (fun p => decide (p.key ≠ policy.key)) ++ [policy]
    unique := by
      rw [List.map_append, List.nodup_append]
      refine ⟨db.unique.sublist (List.filter_sublist.map _), List.nodup_singleton _, ?_⟩
      intro k hk k' hk' heq
      obtain ⟨p, hp, rfl⟩ := List.mem_map.1 hk
      exact of_decide_eq_true (List.mem_filter.1 hp).2 (heq.trans (List.mem_singleton.1 hk'))
    isDays := by
      intro p hp
      rcases List.mem_append.1 hp with hp | hp
      · exact db.isDays p (List.mem_of_mem_filter hp)
      · rw [List.mem_singleton.1 hp]
        exact h }

/-- The fields are `i32`. -/
structure RetentionInput where
  taskEventsDays : Int
  workerEventsDays : Int
  alertHistoryDays : Int
  inRange : taskEventsDays < 2 ^ 31 ∧ workerEventsDays < 2 ^ 31 ∧ alertHistoryDays < 2 ^ 31

def updateRetention (db : RetentionDb) (user : CurrentUser) (input : RetentionInput) :
    Except AppError (RetentionDb × RetentionResponse) :=
  match checkPermission user "settings_write" with
  | .error e => .error e
  | .ok () =>
    if h : input.taskEventsDays < 1 ∨ input.workerEventsDays < 1 ∨ input.alertHistoryDays < 1 then
      .error (.validation "Retention days must be at least 1")
    else
      have hpos := not_or.1 h
      have hrest := not_or.1 hpos.2
      let tasks := db.upsertRetentionPolicy
        ⟨user.tenantId, "task_events", input.taskEventsDays⟩ ⟨Int.not_lt.1 hpos.1, input.inRange.1⟩
      let workers := tasks.upsertRetentionPolicy
        ⟨user.tenantId, "worker_events", input.workerEventsDays⟩
        ⟨Int.not_lt.1 hrest.1, input.inRange.2.1⟩
      let alerts := workers.upsertRetentionPolicy
        ⟨user.tenantId, "alert_history", input.alertHistoryDays⟩
        ⟨Int.not_lt.1 hrest.2, input.inRange.2.2⟩
      .ok (alerts, ⟨input.taskEventsDays, input.workerEventsDays, input.alertHistoryDays⟩)

theorem mem_upsertRetentionPolicy {policy p : RetentionPolicy}
    {h : IsDays policy.retentionDays} :
    p ∈ (db.upsertRetentionPolicy policy h).policies ↔
      p ∈ db.policies ∧ p.key ≠ policy.key ∨ p = policy := by
  rw [upsertRetentionPolicy, List.mem_append, List.mem_filter, List.mem_singleton,
    decide_eq_true_eq]

/-- The policies of an update are stored. -/
theorem mem_updateRetention {user : CurrentUser} {input : RetentionInput} {db' : RetentionDb}
    {response : RetentionResponse} (h : db.updateRetention user input = .ok (db', response)) :
    (⟨user.tenantId, "task_events", response.taskEventsDays⟩ ∈ db'.policies ∧
      ⟨user.tenantId, "worker_events", response.workerEventsDays⟩ ∈ db'.policies) ∧
      ⟨user.tenantId, "alert_history", response.alertHistoryDays⟩ ∈ db'.policies := by
  unfold updateRetention at h
  split at h
  · cases h
  · split at h
    · cases h
    · cases h
      refine ⟨⟨?_, ?_⟩, ?_⟩
      · refine mem_upsertRetentionPolicy.2 (.inl ⟨mem_upsertRetentionPolicy.2 (.inl
          ⟨mem_upsertRetentionPolicy.2 (.inr rfl), ?_⟩), ?_⟩) <;> simp [RetentionPolicy.key]
      · refine mem_upsertRetentionPolicy.2 (.inl ⟨mem_upsertRetentionPolicy.2 (.inr rfl), ?_⟩)
        simp [RetentionPolicy.key]
      · exact mem_upsertRetentionPolicy.2 (.inr rfl)

/-- A tenant is shown what it has set. -/
theorem getRetention_updateRetention {user reader : CurrentUser} {input : RetentionInput}
    {db' : RetentionDb} {response : RetentionResponse}
    (h : db.updateRetention user input = .ok (db', response))
    (hreader : checkPermission reader "settings_read" = .ok ())
    (htenant : reader.tenantId = user.tenantId) : db'.getRetention reader = .ok response := by
  obtain ⟨⟨htasks, hworkers⟩, halerts⟩ := mem_updateRetention h
  have htasks := reported_of_mem taskEventsDays_reportStep htasks rfl
  have hworkers := reported_of_mem workerEventsDays_reportStep hworkers rfl
  have halerts := reported_of_mem alertHistoryDays_reportStep halerts rfl
  unfold reported at htasks hworkers halerts
  unfold getRetention
  rw [hreader, htenant]
  dsimp only at *
  generalize (db'.listRetentionPolicies user.tenantId).foldl reportStep ⟨30, 14, 90⟩ = shown at *
  cases shown
  cases response
  simp_all

end RetentionDb

/-! ### Samples -/

def sampleUser : CurrentUser :=
  { userId := 3, tenantId := 7, email := "ann@acme.io", roles := [], permissions := ["settings_read"] }

/-- One tenant with its policies. -/
def oneTenant (policies : List RetentionPolicy) (hunique : (policies.map (·.key)).Nodup)
    (hdays : ∀ p ∈ policies, IsDays p.retentionDays) : RetentionDb :=
  { tenants := [⟨7, true, 0⟩], policies, newestFirst := .stable _, unique := hunique, isDays := hdays }

def shortPolicies : RetentionDb :=
  oneTenant [⟨7, "task_events", 10⟩, ⟨7, "worker_events", 5⟩] (by decide) (by decide)

theorem enforced_isLeast_iff_sample :
    IsLeast {days | shortPolicies.Reports (·.taskEventsDays) days} 10 ∧
      IsLeast {days | shortPolicies.Reports (·.workerEventsDays) days} 5 :=
  (@RetentionDb.enforced_isLeast_iff shortPolicies (by decide)).2
    ⟨.inl ⟨⟨7, "task_events", 10⟩, ⟨by decide, ⟨⟨7, true, 0⟩, by decide, rfl, rfl⟩, rfl⟩, by decide⟩,
      .inl ⟨⟨7, "worker_events", 5⟩, ⟨by decide, ⟨⟨7, true, 0⟩, by decide, rfl, rfl⟩, rfl⟩,
        by decide⟩⟩

/-- A tenant that has set nothing, and one that keeps its events for a year. -/
def noPolicies : RetentionDb := oneTenant [] (by decide) (by decide)

def longPolicies : RetentionDb :=
  oneTenant [⟨7, "task_events", 365⟩, ⟨7, "worker_events", 365⟩] (by decide) (by decide)

/-- The one is shown less than is kept, the events of the other are deleted too early. -/
theorem enforced_not_shown :
    (noPolicies.getRetention sampleUser = .ok ⟨30, 14, 90⟩ ∧
      noPolicies.enforceRetention =
        ["ALTER TABLE task_events MODIFY TTL toDateTime(timestamp) + INTERVAL 90 DAY",
          "ALTER TABLE worker_events MODIFY TTL toDateTime(timestamp) + INTERVAL 30 DAY"]) ∧
      longPolicies.getRetention sampleUser = .ok ⟨365, 365, 90⟩ ∧
      longPolicies.enforcedDays = ⟨90, 30⟩ ∧
      ¬ IsLeast {days | longPolicies.Reports (·.taskEventsDays) days}
        (longPolicies.enforcedDays.minTaskDays : Int) := by
  refine ⟨by decide, by decide, by decide, fun h => ?_⟩
  obtain ⟨id, ⟨t, ht, -, rfl⟩, hdays⟩ := RetentionDb.reports_iff.1 h.1
  obtain rfl := List.mem_singleton.1 ht
  exact absurd hdays (by decide)

end Feloxi.Tenants
