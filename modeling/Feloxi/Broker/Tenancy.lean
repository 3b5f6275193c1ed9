import Feloxi.Broker.Manager
import Mathlib.Data.Set.BooleanAlgebra
import Mathlib.Order.CompletePartialOrder

/-!
# Feloxi.Broker.Tenancy

Whose a config id is: the id of a row is given out once, to one tenant, and every consumer
task belongs to the tenant of its config. Handlers only pass on what they read from the table
(`keeps_program`), so this holds in any interleaving of them (`tenancy_step`).
-/

namespace Feloxi.Broker

open Handlers
open Auth (CurrentUser checkPermission)
open Tables (Table)

/-- The ids given out with their tenants, and the config and tenant of each task. -/
abbrev Known := Set (Uuid × Uuid) × Set (Nat × Uuid × Uuid)

def State.known (s : State) : Known :=
  ({x | x ∈ s.issued},
   {x | ∃ task, s.tasks[x.1]? = some task ∧ task.configId = x.2.1 ∧ task.tenantId = x.2.2})

/-- Ids, tasks and the map agree. -/
structure Tenancy (s : State) : Prop where
  rows : ∀ row ∈ s.configs.rows, (row.id, row.tenantId) ∈ s.issued
  tasks : ∀ task ∈ s.tasks, (task.configId, task.tenantId) ∈ s.issued
  unique : ∀ id t t', (id, t) ∈ s.issued → (id, t') ∈ s.issued → t = t'
  mapped : ∀ c k, s.connections c = some k → ∃ task, s.tasks[k]? = some task ∧ task.configId = c

/-- The operation concerns rows and tasks of tenant `A` only. -/
def Op.Concerns (A : Uuid) (w : Known) : Op → Prop
  | .cancel k => ∃ c, (k, c, A) ∈ w.2
  | .spawn config => config.tenantId = A
  | .spawnStatus id _ => (id, A) ∈ w.1
  | .createBrokerConfig input => input.tenantId = A
  | .setBrokerActive _ tenantId _ => tenantId = A
  | .updateBrokerConfigStatus id _ => (id, A) ∈ w.1
  | .deleteBrokerConfig _ tenantId => tenantId = A
  | _ => True

/-- What a handler needs to know to carry out an operation. -/
def Op.Needs (w : Known) : Op → Prop
  | .spawn config => (config.id, config.tenantId) ∈ w.1
  | .insert c k => ∃ tenant, (k, c, tenant) ∈ w.2
  | _ => True

/-- What it learns from the reply. -/
def Op.Tells (w : Known) : (op : Op) → op.Reply → Prop
  | .remove c, some k => ∀ tenant, (c, tenant) ∈ w.1 → (k, c, tenant) ∈ w.2
  | .spawn config, k => (k, config.id, config.tenantId) ∈ w.2
  | .createBrokerConfig input, some row =>
    (row.id, row.tenantId) ∈ w.1 ∧ row.tenantId = input.tenantId
  | .getBrokerConfig id tenantId, some row =>
    (row.id, row.tenantId) ∈ w.1 ∧ row.id = id ∧ row.tenantId = tenantId
  | .listActiveBrokerConfigs, rows => ∀ row ∈ rows, (row.id, row.tenantId) ∈ w.1
  | _, _ => True

/-- The contract of the handlers, of one tenant if `tenant` is given. -/
def contract (tenant : Option Uuid) (α : Type) : Contract Known Op Op.Reply α where
  pre w op := op.Needs w ∧ ∀ A, tenant = some A → op.Concerns A w
  post w op reply := op.Tells w reply
  ans _ _ := True

theorem contract_stable (tenant : Option Uuid) (α : Type) : (contract tenant α).Stable where
  pre := by
    intro w w' op hle hpre
    have hneeds : op.Needs w' := by
      cases op with
      | spawn config => exact hle.1 hpre.1
      | insert c k =>
          obtain ⟨tenant, htask⟩ := hpre.1
          exact ⟨tenant, hle.2 htask⟩
      | _ => trivial
    refine ⟨hneeds, fun A hA => ?_⟩
    have hold := hpre.2 A hA
    cases op with
    | cancel k =>
        obtain ⟨c, htask⟩ := hold
        exact ⟨c, hle.2 htask⟩
    | spawnStatus id status => exact hle.1 hold
    | updateBrokerConfigStatus id status => exact hle.1 hold
    | _ => exact hold
  ans := fun _ _ => trivial

/-! ### The handlers -/

section Keeping

variable {tenant : Option Uuid} {α : Type} {w : Known}

theorem keeps_stop {c : Uuid} (hc : ∀ A, tenant = some A → (c, A) ∈ w.1) :
    Keeps (contract tenant Unit) w (stop c) := by
  refine ⟨⟨trivial, fun _ _ => trivial⟩, ?_⟩
  intro w' reply hle htells
  cases reply with
  | none => trivial
  | some k =>
      refine ⟨⟨trivial, fun A hA => ⟨c, htells A (hle.1 (hc A hA))⟩⟩, ?_⟩
      exact fun _ _ _ _ => trivial

theorem keeps_start (env : Env) {config : BrokerConfig}
    (hknown : (config.id, config.tenantId) ∈ w.1)
    (hA : ∀ A, tenant = some A → config.tenantId = A) :
    Keeps (contract tenant Unit) w (start env config) := by
  refine (keeps_stop fun A h => ?_).bind fun w' _ hle _ => ?_
  · rw [← hA A h]
    exact hknown
  · cases env.connectionUrl config.connectionEnc with
    | error e =>
        refine ⟨⟨trivial, fun A h => ?_⟩, fun _ _ _ _ => trivial⟩
        show (config.id, A) ∈ w'.1
        rw [← hA A h]
        exact hle.1 hknown
    | ok url =>
        refine ⟨⟨hle.1 hknown, fun A h => hA A h⟩, ?_⟩
        intro w' k _ htask
        exact ⟨⟨⟨_, htask⟩, fun _ _ => trivial⟩, fun _ _ _ _ => trivial⟩

theorem keeps_query {env : Env} {op : Op} {next : op.Reply → Endpoint}
    (hpre : (contract tenant Answer).pre w op)
    (hnext : ∀ w' reply, w ≤ w' → op.Tells w' reply → Keeps (contract tenant _) w' (next reply)) :
    Keeps (contract tenant _) w (query env op next) :=
  ⟨hpre, hnext, fun _ _ => trivial⟩

theorem keeps_permitted {user : CurrentUser} {handler : Endpoint}
    (h : Keeps (contract tenant _) w handler) :
    Keeps (contract tenant _) w (permitted user handler) := by
  unfold permitted
  cases checkPermission user "brokers_manage" with
  | error e => trivial
  | ok => exact h

theorem keeps_getBrokerConfig {env : Env} {id tenantId : Uuid} {next : BrokerConfig → Endpoint}
    (hnext : ∀ w' row, w ≤ w' → (row.id, row.tenantId) ∈ w'.1 → row.id = id →
      row.tenantId = tenantId → Keeps (contract tenant _) w' (next row)) :
    Keeps (contract tenant _) w (getBrokerConfig env id tenantId next) := by
  refine keeps_query ⟨trivial, fun _ _ => trivial⟩ ?_
  intro w' reply hle htells
  cases reply with
  | none => trivial
  | some row => exact hnext w' row hle htells.1 htells.2.1 htells.2.2

end Keeping

/-- The user of a request. -/
def Request.user : Request → CurrentUser
  | .create user _ => user
  | .get user _ => user
  | .delete user _ => user
  | .start user _ => user
  | .stop user _ => user

/-- A request other than a deletion concerns its own tenant. A deletion keeps the contract
that is not of one tenant. -/
theorem keeps_request (env : Env) (tenant : Option Uuid) (w : Known) (request : Request)
    (huser : ∀ A, tenant = some A → request.user.tenantId = A)
    (hdelete : ∀ user id, request = .delete user id → tenant = none) :
    Keeps (contract tenant _) w (request.program env) := by
  cases request with
  | create user req =>
      refine keeps_permitted ?_
      cases env.sealUrl req.connectionUrl with
      | error e => trivial
      | ok connectionEnc =>
          refine keeps_query ⟨trivial, huser⟩ ?_
          intro w' reply _ htells
          cases reply with
          | none => trivial
          | some row =>
              refine (keeps_start env htells.1 fun A hA => ?_).bind fun _ _ _ _ => trivial
              exact htells.2.trans (huser A hA)
  | get user id => exact keeps_permitted (keeps_getBrokerConfig fun _ _ _ _ _ _ => trivial)
  | delete user id =>
      obtain rfl := hdelete user id rfl
      refine keeps_permitted ((keeps_stop (by simp)).bind fun w' _ _ _ => ?_)
      exact keeps_query ⟨trivial, by simp⟩ fun _ _ _ _ => trivial
  | start user id =>
      refine keeps_permitted (keeps_getBrokerConfig ?_)
      intro w' row _ hknown hid htenant
      refine keeps_query ⟨trivial, huser⟩ ?_
      intro w'' _ hle _
      refine (keeps_start env (hle.1 hknown) fun A hA => ?_).bind fun _ _ _ _ => trivial
      exact htenant.trans (huser A hA)
  | stop user id =>
      refine keeps_permitted (keeps_getBrokerConfig ?_)
      intro w' row _ hknown hid htenant
      have hown : ∀ A, tenant = some A → (id, A) ∈ w'.1 := by
        intro A hA
        rw [← hid, ← huser A hA]
        exact htenant ▸ hknown
      refine keeps_query ⟨trivial, huser⟩ ?_
      intro w'' _ hle _
      refine (keeps_stop fun A hA => hle.1 (hown A hA)).bind fun w''' _ hle' _ => ?_
      refine keeps_query ⟨trivial, fun A hA => hle'.1 (hle.1 (hown A hA))⟩ ?_
      exact fun _ _ _ _ => trivial

theorem keeps_startAll (env : Env) (configs : List BrokerConfig) {w : Known}
    (h : ∀ row ∈ configs, (row.id, row.tenantId) ∈ w.1) :
    Keeps (contract none Unit) w (startAll env configs) := by
  induction configs generalizing w with
  | nil => trivial
  | cons row rest ih =>
      refine (keeps_start env (h row List.mem_cons_self) (by simp)).bind ?_
      intro w' _ hle _
      exact ih fun row' hrow' => hle.1 (h row' (List.mem_cons_of_mem row hrow'))

theorem keeps_program (env : Env) (w : Known) (job : Job) :
    Keeps (contract none _) w (job.program env) := by
  cases job with
  | api request => exact keeps_request env none w request (by simp) fun _ _ _ => rfl
  | autoStart =>
      have hall : Keeps (contract none Unit) w (autoStartActive env) := by
        refine ⟨⟨trivial, by simp⟩, ?_, fun _ _ => trivial⟩
        intro w' rows _ hrows
        exact keeps_startAll env rows hrows
      exact hall.bind fun _ _ _ _ => trivial

/-! ### The operations -/

/-- A task keeps its config and tenant, whatever is done to it. -/
theorem mem_modify {s : State} {k : Nat} {f : ConsumerTask → ConsumerTask}
    (hf : ∀ task, (f task).configId = task.configId ∧ (f task).tenantId = task.tenantId)
    {j : Nat} {task : ConsumerTask} (h : s.tasks[j]? = some task) :
    ∃ task', (s.tasks.modify k f)[j]? = some task' ∧ task'.configId = task.configId ∧
      task'.tenantId = task.tenantId := by
  rw [List.getElem?_modify, h]
  by_cases hkj : k = j
  · exact ⟨f task, by simp [hkj], (hf task).1, (hf task).2⟩
  · exact ⟨task, by simp [hkj], rfl, rfl⟩

theorem of_mem_modify {s : State} {k : Nat} {f : ConsumerTask → ConsumerTask}
    (hf : ∀ task, (f task).configId = task.configId ∧ (f task).tenantId = task.tenantId)
    {task' : ConsumerTask} (h : task' ∈ s.tasks.modify k f) :
    ∃ task ∈ s.tasks, task'.configId = task.configId ∧ task'.tenantId = task.tenantId := by
  obtain ⟨j, hj⟩ := List.mem_iff_getElem?.1 h
  rw [List.getElem?_modify] at hj
  obtain ⟨task, htask, rfl⟩ := Option.map_eq_some_iff.1 hj
  refine ⟨task, List.mem_of_getElem? htask, ?_⟩
  split
  · exact hf task
  · exact ⟨rfl, rfl⟩

/-- Modifying a task changes nothing that is known. -/
theorem tenancy_modify {s : State} (hs : Tenancy s) (k : Nat) {f : ConsumerTask → ConsumerTask}
    (hf : ∀ task, (f task).configId = task.configId ∧ (f task).tenantId = task.tenantId) :
    Tenancy { s with tasks := s.tasks.modify k f } ∧
      s.known ≤ ({ s with tasks := s.tasks.modify k f } : State).known := by
  refine ⟨⟨hs.rows, ?_, hs.unique, ?_⟩, fun x hx => hx, ?_⟩
  · intro task' htask'
    obtain ⟨task, htask, hconfig, htenant⟩ := of_mem_modify hf htask'
    rw [hconfig, htenant]
    exact hs.tasks task htask
  · intro c j hj
    obtain ⟨task, htask, hconfig⟩ := hs.mapped c j hj
    obtain ⟨task', htask', hconfig', -⟩ := mem_modify (k := k) hf htask
    exact ⟨task', htask', hconfig'.trans hconfig⟩
  · intro x ⟨task, htask, hconfig, htenant⟩
    obtain ⟨task', htask', hconfig', htenant'⟩ := mem_modify (k := k) hf htask
    exact ⟨task', htask', hconfig'.trans hconfig, htenant'.trans htenant⟩

/-- So does rewriting rows that keep their id and tenant. -/
theorem tenancy_update {s : State} (hs : Tenancy s) {configs : Table BrokerConfig sameConfig}
    (hrows : ∀ row ∈ configs.rows, ∃ old ∈ s.configs.rows,
      row.id = old.id ∧ row.tenantId = old.tenantId) :
    Tenancy { s with configs } := by
  refine ⟨?_, hs.tasks, hs.unique, hs.mapped⟩
  intro row hrow
  obtain ⟨old, hold, hid, htenant⟩ := hrows row hrow
  rw [hid, htenant]
  exact hs.rows old hold

theorem rows_update {s : State} {f : BrokerConfig → BrokerConfig}
    (hf : ∀ row, (f row).id = row.id ∧ (f row).tenantId = row.tenantId) :
    ∀ row ∈ s.configs.rows.map f, ∃ old ∈ s.configs.rows,
      row.id = old.id ∧ row.tenantId = old.tenantId := by
  intro row hrow
  obtain ⟨old, hold, rfl⟩ := List.mem_map.1 hrow
  exact ⟨old, hold, hf old⟩

theorem setStatus_keeps (id : Uuid) (status : String) (row : BrokerConfig) :
    (row.setStatus id status).id = row.id ∧ (row.setStatus id status).tenantId = row.tenantId := by
  unfold BrokerConfig.setStatus
  split <;> exact ⟨rfl, rfl⟩

theorem setActive_keeps (id tenantId : Uuid) (isActive : Bool) (row : BrokerConfig) :
    (row.setActive id tenantId isActive).id = row.id ∧
      (row.setActive id tenantId isActive).tenantId = row.tenantId := by
  unfold BrokerConfig.setActive
  split <;> exact ⟨rfl, rfl⟩

theorem tenancy_writeStatus {s : State} (hs : Tenancy s) (id : Uuid) (status : String) :
    Tenancy (s.writeStatus id status) :=
  tenancy_update hs (rows_update (setStatus_keeps id status))

/-- What a created row looks like. -/
theorem row_eq_some {input : CreateBrokerConfig} {id : Uuid} {row : BrokerConfig}
    (h : input.row id = some row) :
    row.id = id ∧ row.tenantId = input.tenantId ∧ row.status = "disconnected" := by
  unfold CreateBrokerConfig.row at h
  split at h
  · cases h
    exact ⟨rfl, rfl, rfl⟩
  · cases h

/-- An insert fails, or stores a row under an id that was never given out. -/
theorem create_cases (input : CreateBrokerConfig) (id : Uuid) (s : State) :
    s.create input id = (s, none) ∨
    ∃ row configs, input.row id = some row ∧ id ∉ s.issued.map Prod.fst ∧
      configs.rows = s.configs.rows ++ [row] ∧
      s.create input id =
        ({ s with configs := configs, issued := (id, row.tenantId) :: s.issued }, some row) := by
  unfold State.create
  cases hrow : input.row id with
  | none => exact .inl rfl
  | some row =>
      by_cases hid : id ∈ s.issued.map Prod.fst
      · simp only [hid, if_true]
        exact .inl trivial
      · simp only [hid, if_false]
        cases hinsert : s.configs.insert row with
        | none => exact .inl rfl
        | some configs =>
            obtain ⟨-, hrows⟩ := Table.insert_eq_some.1 hinsert
            exact .inr ⟨row, configs, rfl, not_false, hrows, rfl⟩

/-- **Operations keep ids and tenants apart.** -/
theorem tenancy_exec {s : State} (hs : Tenancy s) (op : Op) (nonce : Uuid)
    (hneeds : op.Needs s.known) :
    Tenancy (exec op nonce s).1 ∧ s.known ≤ (exec op nonce s).1.known ∧
      op.Tells (exec op nonce s).1.known (exec op nonce s).2 := by
  cases op with
  | remove c =>
      refine ⟨⟨hs.rows, hs.tasks, hs.unique, ?_⟩, le_rfl, ?_⟩
      · intro c' k hk
        have hk : Function.update s.connections c none c' = some k := hk
        rw [Function.update_apply] at hk
        split at hk
        · cases hk
        · exact hs.mapped c' k hk
      · show Op.Tells _ (.remove c) (s.connections c)
        cases hk : s.connections c with
        | none => trivial
        | some k =>
            intro tenant htenant
            obtain ⟨task, htask, hconfig⟩ := hs.mapped c k hk
            refine ⟨task, htask, hconfig, ?_⟩
            have hissued := hs.tasks task (List.mem_of_getElem? htask)
            rw [hconfig] at hissued
            exact hs.unique c _ _ hissued htenant
  | cancel k =>
      obtain ⟨htenancy, hle⟩ := tenancy_modify hs k (f := ConsumerTask.cancel) fun _ => ⟨rfl, rfl⟩
      exact ⟨htenancy, hle, trivial⟩
  | spawn config =>
      have hgrow : ∀ {j : Nat} {task : ConsumerTask}, s.tasks[j]? = some task →
          (s.tasks ++ [config.consumer])[j]? = some task := by
        intro j task h
        rw [List.getElem?_append_left (List.getElem?_eq_some_iff.1 h).1]
        exact h
      refine ⟨⟨hs.rows, forall_append_one hs.tasks hneeds, hs.unique, ?_⟩, ⟨fun _ hx => hx, ?_⟩, ?_⟩
      · intro c k hk
        obtain ⟨task, htask, hconfig⟩ := hs.mapped c k hk
        exact ⟨task, hgrow htask, hconfig⟩
      · intro x ⟨task, htask, hrest⟩
        exact ⟨task, hgrow htask, hrest⟩
      · exact ⟨config.consumer, List.getElem?_concat_length, rfl, rfl⟩
  | insert c k =>
      refine ⟨⟨hs.rows, hs.tasks, hs.unique, ?_⟩, le_rfl, trivial⟩
      intro c' k' hk'
      have hk' : Function.update s.connections c (some k) c' = some k' := hk'
      rw [Function.update_apply] at hk'
      split at hk'
      · rename_i hc
        obtain ⟨tenant, task, htask, hconfig, -⟩ := hneeds
        rw [hc, ← Option.some.inj hk']
        exact ⟨task, htask, hconfig⟩
      · exact hs.mapped c' k' hk'
  | spawnStatus id status =>
      exact ⟨⟨hs.rows, hs.tasks, hs.unique, hs.mapped⟩, le_rfl, trivial⟩
  | createBrokerConfig input =>
      show Tenancy (s.create input nonce).1 ∧ s.known ≤ (s.create input nonce).1.known ∧
        Op.Tells (s.create input nonce).1.known (.createBrokerConfig input) (s.create input nonce).2
      rcases create_cases input nonce s with h | ⟨row, configs, hrow, hfresh, hrows, h⟩
      · rw [h]
        exact ⟨hs, le_rfl, trivial⟩
      · rw [h]
        obtain ⟨hid, htenant, -⟩ := row_eq_some hrow
        have hout : ∀ t, (nonce, t) ∉ s.issued := fun t ht => hfresh (List.mem_map_of_mem ht)
        refine ⟨⟨?_, ?_, ?_, hs.mapped⟩, ⟨fun x hx => List.mem_cons_of_mem _ hx, fun _ hx => hx⟩, ?_⟩
        · show ∀ r ∈ configs.rows, (r.id, r.tenantId) ∈ (nonce, row.tenantId) :: s.issued
          rw [hrows]
          refine forall_append_one (fun r hr => List.mem_cons_of_mem _ (hs.rows r hr)) ?_
          rw [hid]
          exact List.mem_cons_self
        · exact fun task htask => List.mem_cons_of_mem _ (hs.tasks task htask)
        · intro id t t' ht ht'
          rcases List.mem_cons.1 ht with ht | ht <;> rcases List.mem_cons.1 ht' with ht' | ht'
          · cases ht
            cases ht'
            rfl
          · cases ht
            exact absurd ht' (hout t')
          · cases ht'
            exact absurd ht (hout t)
          · exact hs.unique id t t' ht ht'
        · refine ⟨?_, htenant⟩
          rw [hid]
          exact List.mem_cons_self
  | getBrokerConfig id tenantId =>
      refine ⟨hs, le_rfl, ?_⟩
      show Op.Tells s.known (.getBrokerConfig id tenantId)
        (s.configs.rows.find? fun c => c.id == id && c.tenantId == tenantId)
      cases hfind : s.configs.rows.find? fun c => c.id == id && c.tenantId == tenantId with
      | none => trivial
      | some row =>
          have hmatch := List.find?_some hfind
          simp only [Bool.and_eq_true, beq_iff_eq] at hmatch
          exact ⟨hs.rows row (List.mem_of_find?_eq_some hfind), hmatch.1, hmatch.2⟩
  | listActiveBrokerConfigs =>
      exact ⟨hs, le_rfl, fun row hrow => hs.rows row (List.mem_filter.1 hrow).1⟩
  | setBrokerActive id tenantId isActive =>
      exact ⟨tenancy_update hs (rows_update (setActive_keeps id tenantId isActive)), le_rfl, trivial⟩
  | updateBrokerConfigStatus id status =>
      exact ⟨tenancy_writeStatus hs id status, le_rfl, trivial⟩
  | deleteBrokerConfig id tenantId =>
      refine ⟨tenancy_update hs fun row hrow => ?_, le_rfl, trivial⟩
      exact ⟨row, (List.mem_filter.1 hrow).1, rfl, rfl⟩

theorem honest (tenant : Option Uuid) (α : Type) {s : State} (hs : Tenancy s) :
    Honest (contract tenant α) exec State.known s :=
  fun op nonce hpre => (tenancy_exec hs op nonce hpre.1).2

/-- The consumers never change what belongs to whom. -/
theorem tenancy_event {s : State} (hs : Tenancy s) (e : Event) :
    Tenancy (s.event e) ∧ s.known ≤ (s.event e).known := by
  have hphase : ∀ {s : State} (k : Nat) (phase : Phase), Tenancy s →
      Tenancy (s.setPhase k phase) ∧ s.known ≤ (s.setPhase k phase).known :=
    fun k phase hs => tenancy_modify hs k fun _ => ⟨rfl, rfl⟩
  cases e with
  | progress k progress =>
      simp only [State.event]
      split
      · exact ⟨hs, le_rfl⟩
      · exact hphase k _ hs
  | wrote k landed =>
      simp only [State.event]
      split
      · exact ⟨hs, le_rfl⟩
      · split
        · exact ⟨hs, le_rfl⟩
        · cases landed with
          | false => exact hphase k _ hs
          | true => exact hphase k _ (tenancy_writeStatus hs _ _)
  | spawnedWrote i landed =>
      simp only [State.event]
      split
      · exact ⟨hs, le_rfl⟩
      · have hkeep : ∀ {s : State} (writes : List (Uuid × String)), Tenancy s →
            Tenancy { s with spawnedWrites := writes } :=
          fun _ hs => ⟨hs.rows, hs.tasks, hs.unique, hs.mapped⟩
        cases landed with
        | false => exact ⟨hkeep _ hs, le_rfl⟩
        | true => exact ⟨hkeep _ (tenancy_writeStatus hs _ _), le_rfl⟩

/-! ### Whole runs -/

/-- The server, with any number of requests and the start of its brokers at once. -/
abbrev server (env : Env) : Machine Op Op.Reply (Except AppError Answer) Job State Uuid Event where
  exec := exec
  program := Job.program env
  world := State.event

abbrev ServerPool := Pool Op Op.Reply (Except AppError Answer) Job State

/-- No request came in yet. -/
def booted (configs : Table BrokerConfig sameConfig) : ServerPool :=
  { state := .boot configs, threads := [], log := [] }

theorem tenancy_boot (configs : Table BrokerConfig sameConfig) : Tenancy (.boot configs) where
  rows := fun _ hrow => List.mem_map_of_mem hrow
  tasks := nofun
  unique := by
    intro id t t' ht ht'
    obtain ⟨row, hrow, heq⟩ := List.mem_map.1 ht
    obtain ⟨row', hrow', heq'⟩ := List.mem_map.1 ht'
    obtain ⟨hid, htenant⟩ := Prod.mk.inj heq
    obtain ⟨hid', htenant'⟩ := Prod.mk.inj heq'
    have hsymm : ∀ a b, sameConfig a b = sameConfig b a := fun a b => Bool.beq_comm
    have hsame := Table.eq_of_clash hsymm hrow hrow' (by simp [sameConfig, hid, hid'])
    rw [← htenant, ← htenant', hsame]
  mapped := nofun

/-- In any interleaving of requests and consumers, ids and tasks stay with their tenant. -/
theorem tenancy_step (env : Env) (p : ServerPool) (a : Action Uuid Job Event)
    (hp : p.UnderContract (fun _ => contract none _) State.known Tenancy) :
    ((server env).step p a).UnderContract (fun _ => contract none _) State.known Tenancy :=
  (server env).underContract_step (fun _ => contract_stable none _)
    (fun _ _ hs => honest none _ hs) (fun _ op nonce _ hs hpre => (tenancy_exec hs op nonce hpre.1).1)
    (fun e _ hs => tenancy_event hs e) (fun job _ => keeps_program env _ job) hp

/-! ### Samples -/

def sampleUser (tenantId : Uuid) : CurrentUser :=
  { userId := tenantId + 100, tenantId, email := "ops@example.com", roles := ["admin"],
    permissions := [] }

/-- The database with one config, of tenant 7. -/
def sampleConfigs : Table BrokerConfig sameConfig := ⟨[sampleConfig], List.pairwise_singleton _ _⟩

/-- Tenant 7 starts its broker. -/
def startedHistory : List (Action Uuid Job Event) :=
  .arrive (.api (.start (sampleUser 7) 1)) :: List.replicate 5 (.advance 0 .done 0)

end Feloxi.Broker
