import Feloxi.Broker.Tenancy

/-!
# Feloxi.Broker.Isolation

What the requests of one tenant do to the brokers of the others. Every handler but one reads
the row of its own tenant before it touches the connection of that id; `delete_broker` stops
the connection of any id first.
-/

namespace Feloxi.Broker

open Handlers Runs
open Auth (CurrentUser checkPermission)
open Tables (Table)

/-- A consumer that runs on. -/
def ConsumerTask.live (task : ConsumerTask) : Bool := !task.cancelled && task.phase != .finished

/-- The running consumers of a tenant. -/
def State.consumersOf (tenant : Uuid) (s : State) : Set Nat :=
  {k | ∃ task, s.tasks[k]? = some task ∧ task.tenantId = tenant ∧ task.live = true}

/-- The rows of a tenant. -/
def State.configsOf (tenant : Uuid) (s : State) : List BrokerConfig :=
  s.configs.rows.filter (·.tenantId == tenant)

/-- Nothing changed for any tenant but `A`. -/
def Undisturbed (A : Uuid) (s s' : State) : Prop :=
  ∀ B, B ≠ A → s'.configsOf B = s.configsOf B ∧ s'.consumersOf B = s.consumersOf B

theorem Undisturbed.refl (A : Uuid) (s : State) : Undisturbed A s s := fun _ _ => ⟨rfl, rfl⟩

theorem Undisturbed.trans {A : Uuid} {s s' s'' : State} (h : Undisturbed A s s')
    (h' : Undisturbed A s' s'') : Undisturbed A s s'' := by
  intro B hB
  obtain ⟨hrows, htasks⟩ := h B hB
  obtain ⟨hrows', htasks'⟩ := h' B hB
  exact ⟨hrows'.trans hrows, htasks'.trans htasks⟩

/-! ### One operation -/

/-- Rewriting the rows of `A` leaves those of the others. -/
theorem filter_map_other {A B : Uuid} (hB : B ≠ A) {f : BrokerConfig → BrokerConfig}
    {rows : List BrokerConfig} (hf : ∀ row ∈ rows, row.tenantId ≠ A → f row = row)
    (htenant : ∀ row, (f row).tenantId = row.tenantId) :
    (rows.map f).filter (·.tenantId == B) = rows.filter (·.tenantId == B) := by
  induction rows with
  | nil => rfl
  | cons row rest ih =>
      have hrest := ih fun r hr => hf r (List.mem_cons_of_mem row hr)
      by_cases hrow : row.tenantId = B
      · have hsame : f row = row := hf row List.mem_cons_self (hrow ▸ hB)
        rw [List.map_cons, List.filter_cons_of_pos (by simp [htenant, hrow]),
          List.filter_cons_of_pos (by simp [hrow]), hrest, hsame]
      · rw [List.map_cons, List.filter_cons_of_neg (by simp [htenant, hrow]),
          List.filter_cons_of_neg (by simp [hrow]), hrest]

/-- Cancelling a task takes it from the consumers of its tenant. -/
theorem consumersOf_cancel (s : State) (k : Nat) (B : Uuid) (nonce : Uuid) :
    (exec (.cancel k) nonce s).1.consumersOf B = s.consumersOf B \ {k} := by
  ext j
  simp only [State.consumersOf, exec, Set.mem_ofPred_eq, Set.mem_sdiff, Set.mem_singleton_iff]
  constructor
  · rintro ⟨task, htask, htenant, hlive⟩
    rw [List.getElem?_modify] at htask
    obtain ⟨old, hold, rfl⟩ := Option.map_eq_some_iff.1 htask
    by_cases hkj : k = j
    · simp [hkj, ConsumerTask.cancel, ConsumerTask.live] at hlive
    · simp only [hkj, if_false] at htenant hlive
      exact ⟨⟨old, hold, htenant, hlive⟩, Ne.symm hkj⟩
  · rintro ⟨⟨task, htask, htenant, hlive⟩, hjk⟩
    refine ⟨task, ?_, htenant, hlive⟩
    rw [List.getElem?_modify_ne _ _ (Ne.symm hjk)]
    exact htask

theorem undisturbed_cancel {A : Uuid} {s : State} {k : Nat} (nonce : Uuid)
    (hk : ∀ B, B ≠ A → k ∉ s.consumersOf B) : Undisturbed A s (exec (.cancel k) nonce s).1 := by
  intro B hB
  refine ⟨rfl, ?_⟩
  rw [consumersOf_cancel]
  exact Set.sdiff_singleton_eq_self (hk B hB)

theorem configsOf_delete {A B : Uuid} (hB : B ≠ A) (s : State) (id nonce : Uuid) :
    (exec (.deleteBrokerConfig id A) nonce s).1.configsOf B = s.configsOf B := by
  simp only [State.configsOf, exec, Table.rows_delete, List.filter_filter]
  refine List.filter_congr fun row _ => ?_
  by_cases hrow : row.tenantId = B
  · simp [hrow, hB]
  · simp [hrow]

/-- An operation that concerns `A` only disturbs nobody else. -/
theorem undisturbed_exec {A : Uuid} {s : State} (hs : Tenancy s) {op : Op} (nonce : Uuid)
    (hop : op.Concerns A s.known) : Undisturbed A s (exec op nonce s).1 := by
  cases op with
  | remove c => exact Undisturbed.refl A s
  | cancel k =>
      obtain ⟨c, task, htask, -, htenant⟩ := hop
      refine undisturbed_cancel nonce fun B hB hk => ?_
      obtain ⟨task', htask', htenant', -⟩ := hk
      rw [htask] at htask'
      rw [← htenant', ← Option.some.inj htask'] at hB
      exact hB htenant
  | spawn config =>
      intro B hB
      refine ⟨rfl, ?_⟩
      ext j
      simp only [State.consumersOf, exec, Set.mem_ofPred_eq]
      rcases Nat.lt_trichotomy j s.tasks.length with hj | rfl | hj
      · rw [List.getElem?_append_left hj]
      · have hother : config.consumer.tenantId ≠ B := fun h => hB (h.symm.trans hop)
        simp [hother]
      · rw [List.getElem?_eq_none (by simp; omega), List.getElem?_eq_none (by omega)]
  | insert c k => exact Undisturbed.refl A s
  | spawnStatus id status => exact Undisturbed.refl A s
  | createBrokerConfig input =>
      show Undisturbed A s (s.create input nonce).1
      rcases create_cases input nonce s with h | ⟨row, configs, hrow, -, hrows, h⟩
      · rw [h]
        exact Undisturbed.refl A s
      · rw [h]
        intro B hB
        refine ⟨?_, rfl⟩
        have hother : row.tenantId ≠ B := by
          rw [(row_eq_some hrow).2.1]
          exact fun h => hB (h.symm.trans hop)
        rw [State.configsOf, hrows, List.filter_append]
        simp [State.configsOf, hother]
  | getBrokerConfig id tenantId => exact Undisturbed.refl A s
  | listActiveBrokerConfigs => exact Undisturbed.refl A s
  | setBrokerActive id tenantId isActive =>
      intro B hB
      obtain rfl : tenantId = A := hop
      refine ⟨filter_map_other hB ?_ fun row => (setActive_keeps id tenantId isActive row).2, rfl⟩
      intro row _ hrow
      exact if_neg fun h => hrow h.2
  | updateBrokerConfigStatus id status =>
      intro B hB
      refine ⟨filter_map_other hB ?_ fun row => (setStatus_keeps id status row).2, rfl⟩
      intro row hmem hrow
      refine if_neg fun h => hrow ?_
      have hissued := hs.rows row hmem
      rw [h] at hissued
      exact hs.unique id _ _ hissued hop
  | deleteBrokerConfig id tenantId =>
      intro B hB
      obtain rfl : tenantId = A := hop
      exact ⟨configsOf_delete hB s id nonce, rfl⟩

/-! ### One request -/

/-- A request of a user, and what becomes of each of its operations. -/
abbrev Served := Request × (Nat → Fate × Uuid)

/-- A request, from its start to its answer. -/
def serve (env : Env) (s : State) (r : Served) : State := ((r.1.program env).run exec r.2 s).1

theorem serve_tenancy (env : Env) {s : State} (hs : Tenancy s) (r : Served) :
    Tenancy (serve env s r) :=
  (Keeps.run Tenancy (fun _ hs => honest none _ hs)
    (fun op nonce _ hs hpre => (tenancy_exec hs op nonce hpre.1).1) r.2 hs
    (keeps_request env none s.known r.1 (by simp) fun _ _ _ => rfl)).1

/-- A request that is not a deletion disturbs no other tenant. -/
theorem undisturbed_serve (env : Env) {s : State} (hs : Tenancy s) (r : Served)
    (hdelete : ∀ user id, r.1 ≠ .delete user id) :
    Undisturbed r.1.user.tenantId s (serve env s r) := by
  have hkeeps := keeps_request env (some r.1.user.tenantId) s.known r.1
    (fun A hA => Option.some.inj hA) fun user id h => absurd h (hdelete user id)
  have hrun := Keeps.run (fun s' => Tenancy s' ∧ Undisturbed r.1.user.tenantId s s')
    (fun _ hs => honest (some r.1.user.tenantId) _ hs.1)
    (fun op nonce s' hs hpre => ⟨(tenancy_exec hs.1 op nonce hpre.1).1,
      hs.2.trans (undisturbed_exec hs.1 nonce (hpre.2 _ rfl))⟩)
    r.2 ⟨hs, Undisturbed.refl _ s⟩ hkeeps
  exact hrun.1.2

/-- The request does not delete an id under which a consumer of another tenant runs. -/
def SparesOthers (s : State) (r : Served) : Prop :=
  match r.1 with
  | .delete user id => ∀ k, s.connections id = some k → ∀ B, B ≠ user.tenantId →
    k ∉ s.consumersOf B
  | _ => True

/-- What `delete_broker` does to the others. -/
theorem serve_delete (env : Env) (s : State) (user : CurrentUser) (id : Uuid)
    (script : Nat → Fate × Uuid) (hperm : checkPermission user "brokers_manage" = .ok ())
    (B : Uuid) (hB : B ≠ user.tenantId) :
    (serve env s (.delete user id, script)).configsOf B = s.configsOf B ∧
      (serve env s (.delete user id, script)).consumersOf B =
        s.consumersOf B \ {k | s.connections id = some k} := by
  have hprogram : (Request.delete user id).program env =
      (stop id).bind fun _ =>
        query env (.deleteBrokerConfig id user.tenantId) fun _ => .answer (.ok .deleted) := by
    simp only [Request.program, deleteBroker, permitted, hperm]
  have hdelete : ∀ (s : State) (script : Nat → Fate × Uuid),
      let s' := ((query env (.deleteBrokerConfig id user.tenantId) fun _ =>
        .answer (.ok .deleted)).run exec script s).1
      s'.configsOf B = s.configsOf B ∧ s'.consumersOf B = s.consumersOf B := by
    intro s script s'
    have hcases : s' = s ∨ s' = (exec (.deleteBrokerConfig id user.tenantId) (script 0).2 s).1 := by
      simp only [s', query, Handler.run]
      cases (script 0).1 with
      | done => exact .inr rfl
      | failed => exact .inl rfl
      | lost => exact .inr rfl
    rcases hcases with h | h
    · rw [h]
      exact ⟨rfl, rfl⟩
    · rw [h]
      exact ⟨configsOf_delete hB s id _, rfl⟩
  unfold serve
  rw [hprogram]
  cases hk : s.connections id with
  | none =>
      simp only [stop, Handler.bind_act, Handler.run, exec, hk, Handler.bind_answer]
      obtain ⟨hrows, htasks⟩ := hdelete
        { s with connections := Function.update s.connections id none } fun n => script (n + 1)
      refine ⟨hrows, htasks.trans ?_⟩
      simp [State.consumersOf]
  | some k =>
      simp only [stop, Handler.bind_act, Handler.run, exec, hk, Handler.bind_answer]
      obtain ⟨hrows, htasks⟩ := hdelete
        (exec (.cancel k) 0 { s with connections := Function.update s.connections id none }).1
        fun n => script (n + 1 + 1)
      refine ⟨hrows, htasks.trans ?_⟩
      rw [consumersOf_cancel]
      ext j
      simp only [Set.mem_sdiff, Set.mem_singleton_iff, Set.mem_ofPred_eq, Option.some.injEq]
      exact and_congr Iff.rfl (not_congr eq_comm)

/-! ### Sequences of requests -/

/-- A request of a user takes running consumers from the others, if anything. -/
theorem consumersOf_serve (env : Env) {s : State} (hs : Tenancy s) (r : Served)
    (hperm : checkPermission r.1.user "brokers_manage" = .ok ()) (B : Uuid)
    (hB : B ≠ r.1.user.tenantId) : (serve env s r).consumersOf B ⊆ s.consumersOf B := by
  obtain ⟨request, script⟩ := r
  cases request with
  | delete user id =>
      rw [(serve_delete env s user id script hperm B hB).2]
      exact Set.sdiff_subset
  | _ => exact (undisturbed_serve env hs _ (by simp) B hB).2.le

/-- One request disturbs nobody exactly if it spares the consumers of the others. -/
theorem undisturbed_serve_iff (env : Env) {s : State} (hs : Tenancy s) (r : Served)
    (hperm : checkPermission r.1.user "brokers_manage" = .ok ()) :
    Undisturbed r.1.user.tenantId s (serve env s r) ↔ SparesOthers s r := by
  obtain ⟨request, script⟩ := r
  cases request with
  | delete user id =>
      constructor
      · intro h k hk B hB hmem
        have hrest := (serve_delete env s user id script hperm B hB).2
        rw [(h B hB).2] at hrest
        rw [hrest] at hmem
        exact hmem.2 hk
      · intro h B hB
        obtain ⟨hrows, htasks⟩ := serve_delete env s user id script hperm B hB
        refine ⟨hrows, htasks.trans ?_⟩
        ext k
        exact ⟨fun hk => hk.1, fun hk => ⟨hk, fun hmap => h k hmap B hB hk⟩⟩
  | _ => exact iff_of_true (undisturbed_serve env hs _ (by simp)) trivial

theorem consumersOf_run (env : Env) {A B : Uuid} (hB : B ≠ A) {s : State} (hs : Tenancy s)
    {requests : List Served}
    (huser : ∀ r ∈ requests, r.1.user.tenantId = A ∧
      checkPermission r.1.user "brokers_manage" = .ok ()) :
    (run (serve env) s requests).consumersOf B ⊆ s.consumersOf B := by
  induction requests generalizing s with
  | nil => exact subset_rfl
  | cons r rest ih =>
      obtain ⟨htenant, hperm⟩ := huser r List.mem_cons_self
      have hrest := ih (serve_tenancy env hs r) fun r' hr' => huser r' (List.mem_cons_of_mem r hr')
      exact hrest.trans (consumersOf_serve env hs r hperm B (htenant ▸ hB))

/-- **Tenant isolation**: from any state that requests of all tenants and the consumers lead
to, in any interleaving, the requests of users of one tenant leave the others undisturbed if
and only if each deletion spares their consumers. -/
theorem isolated_iff (env : Env) (configs : Table BrokerConfig sameConfig)
    (history : List (Action Uuid Job Event)) (A : Uuid) (requests : List Served)
    (huser : ∀ r ∈ requests, r.1.user.tenantId = A ∧
      checkPermission r.1.user "brokers_manage" = .ok ()) :
    let s := (run (server env).step (booted configs) history).state
    Undisturbed A s (run (serve env) s requests) ↔ AllSteps (serve env) SparesOthers s requests := by
  intro s
  have hbooted : (booted configs).UnderContract (fun _ => contract none _) State.known Tenancy :=
    ⟨tenancy_boot configs, nofun⟩
  have hs : Tenancy s := (run_invariant _ (tenancy_step env) hbooted history).state
  clear_value s
  induction requests generalizing s with
  | nil => exact iff_of_true (Undisturbed.refl A s) trivial
  | cons r rest ih =>
      obtain ⟨htenant, hperm⟩ := huser r List.mem_cons_self
      have hnext := serve_tenancy env hs r
      have huser' := fun r' hr' => huser r' (List.mem_cons_of_mem r hr')
      have hstep := undisturbed_serve_iff env hs r hperm
      rw [htenant] at hstep
      constructor
      · intro h
        -- what the first request takes never comes back
        have hspares : SparesOthers s r := by
          obtain ⟨request, script⟩ := r
          cases request with
          | delete user id =>
              intro k hk B hB hmem
              have hBA : B ≠ A := fun heq => hB (heq.trans htenant.symm)
              have hmem' : k ∈ (run (serve env) s ((.delete user id, script) :: rest)).consumersOf B := by
                rw [(h B hBA).2]
                exact hmem
              have hafter := consumersOf_run env hBA hnext huser' hmem'
              rw [(serve_delete env s user id script hperm B hB).2] at hafter
              exact hafter.2 hk
          | _ => trivial
        refine ⟨hspares, (ih huser' _ hnext).1 ?_⟩
        intro B hB
        obtain ⟨hrows, htasks⟩ := h B hB
        obtain ⟨hrows', htasks'⟩ := (hstep.2 hspares) B hB
        exact ⟨hrows.trans hrows'.symm, htasks.trans htasks'.symm⟩
      · intro ⟨hspares, hrest⟩
        exact (hstep.2 hspares).trans ((ih huser' _ hnext).2 hrest)

/-- No call fails. -/
def smoothly (id : Uuid) : Nat → Fate × Uuid := fun _ => (.done, id)

/-- Another tenant can neither start nor stop the broker of tenant 7. -/
theorem isolated_iff_other :
    let s := (run (server plainEnv).step (booted sampleConfigs) startedHistory).state
    Undisturbed 9 s (run (serve plainEnv) s
      [(.stop (sampleUser 9) 1, smoothly 2), (.start (sampleUser 9) 1, smoothly 2)]) := by
  intro s
  refine (isolated_iff plainEnv sampleConfigs startedHistory 9 _ ?_).2 ⟨trivial, trivial, trivial⟩
  intro r hr
  simp only [List.mem_cons, List.not_mem_nil, or_false] at hr
  rcases hr with rfl | rfl <;> exact ⟨rfl, rfl⟩

/-- But it can delete the connection: the consumer of tenant 7 stops, its row stays. -/
theorem delete_stops_other :
    let s := (run (server plainEnv).step (booted sampleConfigs) startedHistory).state
    let s' := serve plainEnv s (.delete (sampleUser 9) 1, smoothly 2)
    checkPermission (sampleUser 9) "brokers_manage" = .ok () ∧
      0 ∈ s.consumersOf 7 ∧ 0 ∉ s'.consumersOf 7 ∧ ¬ Undisturbed 9 s s' := by
  intro s s'
  have hrunning : 0 ∈ s.consumersOf 7 := ⟨sampleConfig.consumer, rfl, rfl, rfl⟩
  have hstopped : 0 ∉ s'.consumersOf 7 := by
    have hperm : checkPermission (sampleUser 9) "brokers_manage" = .ok () := rfl
    have hrest := (serve_delete plainEnv s (sampleUser 9) 1 (smoothly 2) hperm 7 (by decide)).2
    rw [hrest]
    exact fun h => h.2 rfl
  refine ⟨rfl, hrunning, hstopped, fun h => ?_⟩
  rw [(h 7 (by decide)).2] at hstopped
  exact hstopped hrunning

end Feloxi.Broker
