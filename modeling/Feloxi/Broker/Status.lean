import Feloxi.Broker.Ownership
import Feloxi.Broker.Tenancy

/-!
# Feloxi.Broker.Status

Whether the `status` column tells the truth. A consumer writes `connected` once it is
connected and `disconnected` when it has left its loop; `stop_broker` and failed starts write
too, and nothing orders these writes. Where no other status lands over that of a consumer that
runs, its row says `connected`.
-/

namespace Feloxi.Broker

open Handlers Runs
open Tables (Table)

/-- `find_active_broker` in `crates/api/src/routes/tasks.rs`; the newest row comes first. -/
def findActiveBroker (s : State) (tenantId : Uuid) : Option BrokerConfig :=
  (s.configs.rows.filter (·.tenantId == tenantId)).reverse.find? fun c =>
    c.isActive && c.status == "connected"

/-- A config whose current consumer is connected and runs has the status `connected`, and
`find_active_broker` finds a broker if the row is active. -/
def Truthful (s : State) : Prop :=
  ∀ row ∈ s.configs.rows, ∀ k task, s.connections row.id = some k → s.tasks[k]? = some task →
    task.phase = .running →
    row.status = "connected" ∧
      (row.isActive = true → (findActiveBroker s row.tenantId).isSome = true)

/-- All writes have landed, and the cancelled consumers are gone. -/
structure Settled (p : ServerPool) : Prop where
  quiet : p.Quiet
  spawned : p.state.spawnedWrites = []
  tasks : ∀ task ∈ p.state.tasks,
    task.phase.pendingStatus = none ∧ (task.cancelled = true → task.phase = .finished)

/-- A consumer of the config runs and was not cancelled. -/
def State.runs (s : State) (id : Uuid) : Bool :=
  s.tasks.any fun task => task.configId == id && !task.cancelled && task.phase == .running

/-- A status may land on the row of the config. -/
def State.MayWrite (s : State) (id : Uuid) (status : String) : Prop :=
  status = "connected" ∨ s.runs id = false

/-- No status but `connected` lands on the row of a running consumer, and no consumer's own
`connected` is lost. -/
def NoStaleWrite (p : ServerPool) : Action Uuid Job Event → Prop
  | .world (.wrote k landed) =>
    match p.state.tasks[k]? with
    | none => True
    | some task =>
      match task.phase.pendingStatus with
      | none => True
      | some status =>
        if landed then p.state.MayWrite task.configId status
        else status = "connected" → task.cancelled = true
  | .world (.spawnedWrote i true) =>
    match p.state.spawnedWrites[i]? with
    | none => True
    | some (id, status) => p.state.MayWrite id status
  | .advance i fate _ =>
    match p.threads[i]?.bind (·.program.effect fate) with
    | some (.updateBrokerConfigStatus id status) => p.state.MayWrite id status
    | _ => True
  | _ => True

/-! ### The invariant -/

/-- The rows of running consumers say `connected`. -/
def Connected (s : State) : Prop :=
  ∀ task ∈ s.tasks, task.cancelled = false → task.phase = .running →
    ∀ row ∈ s.configs.rows, row.id = task.configId → row.status = "connected"

theorem runs_of_mem {s : State} {task : ConsumerTask} (htask : task ∈ s.tasks)
    (hlive : task.cancelled = false) (hrun : task.phase = .running) :
    s.runs task.configId = true :=
  List.any_eq_true.2 ⟨task, htask, by simp [hlive, hrun]⟩

theorem connected_writeStatus {s : State} (hs : Connected s) {id : Uuid} {status : String}
    (h : s.MayWrite id status) : Connected (s.writeStatus id status) := by
  intro task htask hlive hrun row hrow hid
  obtain ⟨old, hold, rfl⟩ := List.mem_map.1 hrow
  rw [BrokerConfig.setStatus_id] at hid
  have hstatus := hs task htask hlive hrun old hold hid
  unfold BrokerConfig.setStatus
  split
  · rename_i hsame
    rcases h with h | h
    · exact h
    · have hruns := runs_of_mem (s := s) htask hlive hrun
      rw [← hid, hsame, h] at hruns
      cases hruns
  · exact hstatus

/-- A task that starts to run needs its row to say `connected`. -/
theorem connected_modify {s : State} (hs : Connected s) (k : Nat) {f : ConsumerTask → ConsumerTask}
    (hf : ∀ task, s.tasks[k]? = some task → (f task).cancelled = false → (f task).phase = .running →
      (f task).configId = task.configId ∧ ((task.cancelled = false ∧ task.phase = .running) ∨
        ∀ row ∈ s.configs.rows, row.id = task.configId → row.status = "connected")) :
    Connected { s with tasks := s.tasks.modify k f } := by
  intro task' htask' hlive hrun row hrow hid
  obtain ⟨j, hj⟩ := List.mem_iff_getElem?.1 htask'
  rw [List.getElem?_modify] at hj
  obtain ⟨task, htask, rfl⟩ := Option.map_eq_some_iff.1 hj
  by_cases hkj : k = j
  · subst hkj
    simp only [if_true] at hlive hrun hid
    obtain ⟨hconfig, hwas | hrows⟩ := hf task htask hlive hrun
    · exact hs task (List.mem_of_getElem? htask) hwas.1 hwas.2 row hrow (hid.trans hconfig)
    · exact hrows row hrow (hid.trans hconfig)
  · simp only [hkj, if_false] at hlive hrun hid
    exact hs task (List.mem_of_getElem? htask) hlive hrun row hrow hid

/-- Only its status write lets a consumer run. -/
theorem nextPhase_running {task : ConsumerTask} {progress : Progress}
    (h : task.nextPhase progress = .running) : task.phase = .running := by
  cases progress <;> simp only [ConsumerTask.nextPhase] at h
  case leftLoop =>
    split at h
    · cases h
    · exact h
  all_goals
    split at h
    · split at h <;> cases h
    · exact h

theorem afterWrite_running {phase : Phase} {status : String}
    (hstatus : phase.pendingStatus = some status) (h : phase.afterWrite = .running) :
    status = "connected" := by
  cases phase <;> cases h
  case announcing => exact (Option.some.inj hstatus).symm
  case running => cases hstatus

/-- Rows that keep their id and status change nothing. -/
theorem connected_rows {s : State} (hs : Connected s) {configs : Table BrokerConfig sameConfig}
    (hrows : ∀ row ∈ configs.rows, ∃ old ∈ s.configs.rows,
      row.id = old.id ∧ row.status = old.status) : Connected { s with configs } := by
  intro task htask hlive hrun row hrow hid
  obtain ⟨old, hold, hsame, hstatus⟩ := hrows row hrow
  rw [hstatus]
  exact hs task htask hlive hrun old hold (hsame.symm.trans hid)

theorem connected_exec {s : State} (hs : Connected s) (htenancy : Tenancy s) (op : Op)
    (nonce : Uuid)
    (hok : ∀ id status, op = .updateBrokerConfigStatus id status → s.MayWrite id status) :
    Connected (exec op nonce s).1 := by
  cases op with
  | remove c => exact hs
  | cancel k =>
      refine connected_modify hs k fun task _ hlive => ?_
      cases hlive
  | spawn config => exact forall_append_one hs fun _ hrun => nomatch hrun
  | insert c k => exact hs
  | spawnStatus id status => exact hs
  | createBrokerConfig input =>
      show Connected (s.create input nonce).1
      rcases create_cases input nonce s with h | ⟨row, configs, hrow, hfresh, hrows, h⟩
      · rw [h]
        exact hs
      · rw [h]
        intro task htask hlive hrun row' hrow' hid
        have hrow' : row' ∈ s.configs.rows ++ [row] := hrows ▸ hrow'
        rcases List.mem_append.1 hrow' with hrow' | hrow'
        · exact hs task htask hlive hrun row' hrow' hid
        · -- the id is new, and the task of no new id runs
          rw [List.mem_singleton.1 hrow', (row_eq_some hrow).1] at hid
          have hissued := List.mem_map_of_mem (f := Prod.fst) (htenancy.tasks task htask)
          rw [← hid] at hissued
          exact absurd hissued hfresh
  | getBrokerConfig id tenantId => exact hs
  | listActiveBrokerConfigs => exact hs
  | setBrokerActive id tenantId isActive =>
      refine connected_rows hs fun row hrow => ?_
      obtain ⟨old, hold, rfl⟩ := List.mem_map.1 hrow
      refine ⟨old, hold, BrokerConfig.setActive_id id tenantId isActive old, ?_⟩
      unfold BrokerConfig.setActive
      split <;> rfl
  | updateBrokerConfigStatus id status => exact connected_writeStatus hs (hok id status rfl)
  | deleteBrokerConfig id tenantId =>
      exact connected_rows hs fun row hrow => ⟨row, (List.mem_filter.1 hrow).1, rfl, rfl⟩

theorem connected_event {p : ServerPool} (hs : Connected p.state) (e : Event)
    (hok : NoStaleWrite p (.world e)) : Connected (p.state.event e) := by
  cases e with
  | progress k progress =>
      simp only [State.event]
      cases htask : p.state.tasks[k]? with
      | none => exact hs
      | some task =>
          refine connected_modify hs k fun task' htask' hlive hrun => ?_
          obtain rfl : task = task' := Option.some.inj (htask.symm.trans htask')
          exact ⟨rfl, .inl ⟨hlive, nextPhase_running hrun⟩⟩
  | wrote k landed =>
      simp only [State.event]
      cases htask : p.state.tasks[k]? with
      | none => exact hs
      | some task =>
          cases hstatus : task.phase.pendingStatus with
          | none =>
              simp only [hstatus]
              exact hs
          | some status =>
              simp only [NoStaleWrite, htask, hstatus] at hok ⊢
              cases landed with
              | false =>
                  refine connected_modify hs k fun task' htask' hlive hrun => ?_
                  obtain rfl : task = task' := Option.some.inj (htask.symm.trans htask')
                  have hcancelled := hok (afterWrite_running hstatus hrun)
                  have hlive : task.cancelled = false := hlive
                  rw [hcancelled] at hlive
                  cases hlive
              | true =>
                  have hwritten := connected_writeStatus hs hok
                  refine connected_modify hwritten k fun task' htask' hlive hrun => ?_
                  have htask' : p.state.tasks[k]? = some task' := htask'
                  obtain rfl : task = task' := Option.some.inj (htask.symm.trans htask')
                  refine ⟨rfl, .inr fun row hrow hid => ?_⟩
                  obtain ⟨old, hold, rfl⟩ := List.mem_map.1 hrow
                  rw [BrokerConfig.setStatus_id] at hid
                  rw [BrokerConfig.setStatus, if_pos hid]
                  exact afterWrite_running hstatus hrun
  | spawnedWrote i landed =>
      simp only [State.event]
      cases hwrite : p.state.spawnedWrites[i]? with
      | none => exact hs
      | some write =>
          obtain ⟨id, status⟩ := write
          cases landed with
          | false => exact hs
          | true =>
              simp only [NoStaleWrite, hwrite] at hok
              exact connected_writeStatus hs hok

/-! ### Whole runs -/

/-- What holds of the server in any interleaving, and the rows of running consumers. -/
structure Server (p : ServerPool) : Prop where
  tenancy : p.UnderContract (fun _ => contract none _) State.known Tenancy
  sound : Sound p
  connected : Connected p.state

theorem server_step (env : Env) (p : ServerPool) (a : Action Uuid Job Event) (hp : Server p)
    (hok : NoStaleWrite p a) : Server ((server env).step p a) := by
  refine ⟨tenancy_step env p a hp.tenancy, sound_step (fresh_job env) p a hp.sound, ?_⟩
  rcases (server env).step_cases p a with h | ⟨job, rfl, h⟩ |
    ⟨i, fate, nonce, t, s', h', op, rfl, ht, heffect, hmove, h⟩ | ⟨e, rfl, h⟩
  · rw [h]
    exact hp.connected
  · rw [h]
    exact hp.connected
  · have hmay : ∀ o, op = some o → ∀ id status, o = .updateBrokerConfigStatus id status →
        p.state.MayWrite id status := by
      rintro _ rfl id status rfl
      simpa only [NoStaleWrite, ht, Option.bind_some, heffect] using hok
    rw [h]
    obtain ⟨job, program⟩ := t
    cases hmove with
    | act o next nonce => exact connected_exec hp.connected hp.tenancy.state o nonce (hmay o rfl)
    | done o next failed nonce =>
        exact connected_exec hp.connected hp.tenancy.state o nonce (hmay o rfl)
    | failed o next failed => exact hp.connected
    | lost o next failed nonce =>
        exact connected_exec hp.connected hp.tenancy.state o nonce (hmay o rfl)
  · rw [h]
    exact connected_event hp.connected e hok

theorem server_booted (configs : Table BrokerConfig sameConfig) : Server (booted configs) where
  tenancy := ⟨tenancy_boot configs, nofun⟩
  sound := ⟨nofun, nofun, nofun, nofun, fun _ => Lone.nil⟩
  connected := nofun

/-- The current consumer of a config was not cancelled, and belongs to it. -/
theorem current_live {p : ServerPool} (hp : Sound p) {c : Uuid} {k : Nat} {task : ConsumerTask}
    (hk : p.state.connections c = some k) (htask : p.state.tasks[k]? = some task) :
    task.cancelled = false ∧ task.configId = c := by
  have hlive := hp.mapped c k hk
  unfold State.live at hlive
  rw [htask] at hlive
  cases hcancelled : task.cancelled with
  | true => simp [hcancelled] at hlive
  | false => exact ⟨rfl, by simpa [hcancelled] using hlive⟩

/-- **Truthful status**: in every state that a run without stale writes reaches, the row of a
config whose current consumer is connected and runs says `connected`. -/
theorem status_truthful (env : Env) (configs : Table BrokerConfig sameConfig)
    (inputs : List (Action Uuid Job Event))
    (hall : AllSteps (server env).step NoStaleWrite (booted configs) inputs) :
    Truthful (run (server env).step (booted configs) inputs).state := by
  have hp := hall.invariant Server (server_step env) (server_booted configs)
  intro row hrow k task hk htask hrun
  obtain ⟨hlive, hconfig⟩ := current_live hp.sound hk htask
  have hstatus := hp.connected task (List.mem_of_getElem? htask) hlive hrun row hrow hconfig.symm
  refine ⟨hstatus, fun hactive => List.find?_isSome.2 ⟨row, ?_, ?_⟩⟩
  · rw [List.mem_reverse, List.mem_filter]
    exact ⟨hrow, beq_self_eq_true _⟩
  · simp [hactive, hstatus]

/-- A consumer runs, and its broker is started again. -/
def restartHistory : List (Action Uuid Job Event) :=
  startedHistory ++ [.world (.progress 0 .connected), .world (.wrote 0 true)] ++
    .arrive (.api (.start (sampleUser 7) 1)) :: List.replicate 6 (.advance 1 .done 0)

/-- The old consumer is done before the new one is connected. -/
theorem status_truthful_restart :
    Truthful (run (server plainEnv).step (booted sampleConfigs)
      (restartHistory ++
        [.world (.progress 0 .leftLoop), .world (.wrote 0 true), .world (.progress 0 .supervised),
         .world (.progress 1 .connected), .world (.wrote 1 true)])).state := by
  refine status_truthful plainEnv sampleConfigs _ ?_
  exact ⟨trivial, trivial, trivial, trivial, trivial, trivial, trivial, .inl rfl, trivial, trivial,
    trivial, trivial, trivial, trivial, trivial, trivial, .inr rfl, trivial, trivial, .inl rfl,
    trivial⟩

/-- The new consumer is connected before the old one has written `disconnected`: its row
keeps that status for as long as it runs. -/
theorem restart_leaves_disconnected :
    let p := run (server plainEnv).step (booted sampleConfigs)
      (restartHistory ++
        [.world (.progress 1 .connected), .world (.wrote 1 true), .world (.progress 0 .leftLoop),
         .world (.wrote 0 true), .world (.progress 0 .supervised)])
    Settled p ∧ p.state.connections 1 = some 1 ∧
      p.state.tasks[1]?.map (·.phase) = some .running ∧
      p.state.configs.rows.map (·.status) = ["disconnected"] ∧ ¬ Truthful p.state := by
  intro p
  have hthreads : p.threads = [⟨.api (.start (sampleUser 7) 1), .answer (.ok .started)⟩,
      ⟨.api (.start (sampleUser 7) 1), .answer (.ok .started)⟩] := rfl
  have htasks : p.state.tasks =
      [{ sampleConfig.consumer with cancelled := true, phase := .finished },
       { sampleConfig.consumer with phase := .running }] := rfl
  refine ⟨⟨?_, rfl, ?_⟩, rfl, rfl, rfl, fun h => ?_⟩
  · intro t ht
    rw [hthreads] at ht
    simp only [List.mem_cons, List.not_mem_nil, or_false, or_self] at ht
    rw [ht]
    exact ⟨_, rfl⟩
  · rw [htasks]
    intro task htask
    simp only [List.mem_cons, List.not_mem_nil, or_false] at htask
    rcases htask with rfl | rfl
    · exact ⟨rfl, fun _ => rfl⟩
    · exact ⟨rfl, nofun⟩
  · have hrow := h { sampleConfig with status := "disconnected" } List.mem_cons_self 1
      { sampleConfig.consumer with phase := .running } rfl rfl rfl
    exact absurd hrow.1 (by decide)

end Feloxi.Broker
