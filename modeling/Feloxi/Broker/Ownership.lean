import Feloxi.Broker.Manager

/-!
# Feloxi.Broker.Ownership

Who has a consumer task that was not cancelled: the map has it under its config, or one
handler has it in its hands, to insert or to cancel it next. No task is in two places, in any
interleaving of the handlers (`sound_step`).
-/

namespace Feloxi.Broker

open Handlers Runs
open Auth (CurrentUser checkPermission)
open Tables (Table)

/-! ### Tasks and who has them -/

/-- The config of a task that was not cancelled. -/
def State.live (s : State) (k : Nat) : Option Uuid :=
  match s.tasks[k]? with
  | some task => if task.cancelled then none else some task.configId
  | none => none

/-- The task an operation needs. -/
def Op.task : Op → Option Nat
  | .cancel k => some k
  | .insert _ k => some k
  | _ => none

/-- The task a handler has in its hands. -/
def holds {α : Type} (h : Program α) : Option Nat := h.nextOp.bind Op.task

/-- What a handler does next with the task an operation gave it. -/
def Op.Follows : (op : Op) → op.Reply → Option Op → Prop
  | .remove _, some k, next => next = some (.cancel k)
  | .spawn config, k, next => next = some (.insert config.id k)
  | _, _, next => next.bind Op.task = none

def Op.onTable : Op → Bool
  | .remove _ | .cancel _ | .spawn _ | .insert _ _ | .spawnStatus _ _ => false
  | _ => true

/-- The handler takes a task only to cancel or to insert it right away. -/
def Careful {α : Type} : Program α → Prop
  | .answer _ => True
  | .act op next => ∀ reply, op.Follows reply (next reply).nextOp ∧ Careful (next reply)
  | .call op next failed =>
    op.onTable = true ∧ (∀ reply, holds (next reply) = none ∧ Careful (next reply)) ∧
      holds failed = none ∧ Careful failed

theorem Op.Follows.of_none {op : Op} {reply : op.Reply} {next : Option Op}
    (h : op.Follows reply none) (hnext : next.bind Op.task = none) : op.Follows reply next := by
  cases op with
  | remove c =>
      cases reply with
      | none => exact hnext
      | some k => cases h
  | spawn config => cases h
  | _ => exact hnext

/-- A careful handler goes on with one that has no task in its hands. -/
theorem careful_bind {α β : Type} {h : Program α} {k : α → Program β} (hh : Careful h)
    (hk : ∀ a, Careful (k a) ∧ holds (k a) = none) :
    Careful (h.bind k) ∧ (holds h = none → holds (h.bind k) = none) := by
  induction h with
  | answer a => exact ⟨(hk a).1, fun _ => (hk a).2⟩
  | act op next ih =>
      refine ⟨fun reply => ⟨?_, (ih reply (hh reply).2).1⟩, id⟩
      have hfollows := (hh reply).1
      show op.Follows reply ((next reply).bind k).nextOp
      cases hnext : next reply with
      | answer a =>
          rw [hnext] at hfollows
          exact hfollows.of_none (hk a).2
      | act op' next' =>
          rw [hnext] at hfollows
          exact hfollows
      | call op' next' failed' =>
          rw [hnext] at hfollows
          exact hfollows
  | call op next failed ih ihFailed =>
      obtain ⟨hop, hnext, hfailed, hrest⟩ := hh
      have hboth := ihFailed hrest
      refine ⟨⟨hop, fun reply => ?_, hboth.2 hfailed, hboth.1⟩, id⟩
      have hreply := ih reply (hnext reply).2
      exact ⟨hreply.2 (hnext reply).1, hreply.1⟩

theorem careful_stop (configId : Uuid) : Careful (stop configId) := by
  intro reply
  cases reply with
  | none => exact ⟨rfl, trivial⟩
  | some k => exact ⟨rfl, fun _ => ⟨rfl, trivial⟩⟩

theorem careful_start (env : Env) (config : BrokerConfig) : Careful (start env config) := by
  refine (careful_bind (careful_stop config.id) fun _ => ?_).1
  cases env.connectionUrl config.connectionEnc with
  | error e => exact ⟨fun _ => ⟨rfl, trivial⟩, rfl⟩
  | ok url => exact ⟨fun k => ⟨rfl, fun _ => ⟨rfl, trivial⟩⟩, rfl⟩

theorem careful_call (env : Env) (call : Call) :
    Careful (call.program env) ∧ holds (call.program env) = none := by
  cases call with
  | start config => exact ⟨careful_start env config, rfl⟩
  | stop configId => exact ⟨careful_stop configId, rfl⟩

/-- A handler that can begin: careful, and with no task in its hands. -/
def Fresh {α : Type} (h : Program α) : Prop := Careful h ∧ holds h = none

theorem fresh_answer {α : Type} (a : α) : Fresh (.answer a : Program α) := ⟨trivial, rfl⟩

theorem fresh_query {env : Env} {op : Op} {next : op.Reply → Endpoint} (hop : op.onTable = true)
    (hnext : ∀ reply, Fresh (next reply)) : Fresh (query env op next) := by
  have htask : op.task = none := by cases op <;> first | rfl | cases hop
  exact ⟨⟨hop, fun reply => ⟨(hnext reply).2, (hnext reply).1⟩, rfl, trivial⟩, htask⟩

theorem fresh_permitted {user : CurrentUser} {handler : Endpoint} (h : Fresh handler) :
    Fresh (permitted user handler) := by
  unfold permitted
  cases checkPermission user "brokers_manage" with
  | error e => exact fresh_answer _
  | ok => exact h

theorem fresh_getBrokerConfig {env : Env} {id tenantId : Uuid} {next : BrokerConfig → Endpoint}
    (hnext : ∀ row, Fresh (next row)) : Fresh (getBrokerConfig env id tenantId next) := by
  refine fresh_query rfl fun reply => ?_
  cases reply with
  | none => exact fresh_answer _
  | some row => exact hnext row

theorem fresh_start {α : Type} (env : Env) (config : BrokerConfig) {k : Unit → Program α}
    (hk : ∀ a, Fresh (k a)) : Fresh ((start env config).bind k) := by
  obtain ⟨hcareful, hholds⟩ := careful_bind (careful_start env config) hk
  exact ⟨hcareful, hholds rfl⟩

theorem fresh_stop {α : Type} (configId : Uuid) {k : Unit → Program α}
    (hk : ∀ a, Fresh (k a)) : Fresh ((stop configId).bind k) := by
  obtain ⟨hcareful, hholds⟩ := careful_bind (careful_stop configId) hk
  exact ⟨hcareful, hholds rfl⟩

theorem fresh_startAll (env : Env) (configs : List BrokerConfig) : Fresh (startAll env configs) := by
  induction configs with
  | nil => exact fresh_answer ()
  | cons config rest ih => exact fresh_start env config fun _ => ih

theorem fresh_request (env : Env) (request : Request) : Fresh (request.program env) := by
  cases request with
  | create user req =>
      refine fresh_permitted ?_
      cases env.sealUrl req.connectionUrl with
      | error e => exact fresh_answer _
      | ok connectionEnc =>
          refine fresh_query rfl fun reply => ?_
          cases reply with
          | none => exact fresh_answer _
          | some config => exact fresh_start env config fun _ => fresh_answer _
  | get user id => exact fresh_permitted (fresh_getBrokerConfig fun _ => fresh_answer _)
  | delete user id =>
      exact fresh_permitted (fresh_stop id fun _ => fresh_query rfl fun _ => fresh_answer _)
  | start user id =>
      exact fresh_permitted <| fresh_getBrokerConfig fun config => fresh_query rfl fun _ =>
        fresh_start env config fun _ => fresh_answer _
  | stop user id =>
      exact fresh_permitted <| fresh_getBrokerConfig fun _ => fresh_query rfl fun _ =>
        fresh_stop id fun _ => fresh_query rfl fun _ => fresh_answer _

theorem fresh_job (env : Env) (job : Job) : Fresh (job.program env) := by
  cases job with
  | api request => exact fresh_request env request
  | autoStart =>
      have hcareful : Careful (autoStartActive env) :=
        ⟨rfl, fun configs => (fresh_startAll env configs).symm, rfl, trivial⟩
      obtain ⟨hcareful, hholds⟩ := careful_bind hcareful fun _ => fresh_answer _
      exact ⟨hcareful, hholds rfl⟩

/-! ### What a step does -/

theorem live_lt {s : State} {k : Nat} {c : Uuid} (h : s.live k = some c) : k < s.tasks.length := by
  unfold State.live at h
  cases hk : s.tasks[k]? with
  | none => simp [hk] at h
  | some task => exact (List.getElem?_eq_some_iff.1 hk).1

theorem live_cancel (s : State) (k : Nat) (nonce : Uuid) :
    (exec (.cancel k) nonce s).1.live = Function.update s.live k none := by
  funext j
  unfold State.live
  by_cases hj : j = k
  · subst hj
    rw [Function.update_self]
    simp only [exec, List.getElem?_modify_eq]
    cases s.tasks[j]? <;> rfl
  · rw [Function.update_of_ne hj]
    simp only [exec, List.getElem?_modify_ne _ _ (Ne.symm hj)]

theorem live_spawn (s : State) (config : BrokerConfig) (nonce : Uuid) :
    (exec (.spawn config) nonce s).1.live =
      Function.update s.live s.tasks.length (some config.id) := by
  funext j
  unfold State.live
  by_cases hj : j = s.tasks.length
  · subst hj
    simp [exec, BrokerConfig.consumer]
  · rw [Function.update_of_ne hj]
    simp only [exec]
    rcases Nat.lt_or_ge j s.tasks.length with hlt | hge
    · rw [List.getElem?_append_left hlt]
    · rw [List.getElem?_eq_none (by simp; omega), List.getElem?_eq_none hge]

/-- Phases do not matter to who is cancelled. -/
theorem live_setPhase (s : State) (k : Nat) (phase : Phase) : (s.setPhase k phase).live = s.live := by
  funext j
  unfold State.live State.setPhase
  by_cases hj : j = k
  · subst hj
    simp only [List.getElem?_modify_eq]
    cases s.tasks[j]? <;> rfl
  · simp only [List.getElem?_modify_ne _ _ (Ne.symm hj)]

/-- An operation on the table leaves the tasks and the map alone. -/
theorem exec_onTable {op : Op} (h : op.onTable = true) (nonce : Uuid) (s : State) :
    (exec op nonce s).1.tasks = s.tasks ∧ (exec op nonce s).1.connections = s.connections := by
  cases op with
  | createBrokerConfig input =>
      simp only [exec, State.create]
      split
      · exact ⟨rfl, rfl⟩
      · split <;> exact ⟨rfl, rfl⟩
  | getBrokerConfig id tenantId => exact ⟨rfl, rfl⟩
  | listActiveBrokerConfigs => exact ⟨rfl, rfl⟩
  | setBrokerActive id tenantId isActive => exact ⟨rfl, rfl⟩
  | updateBrokerConfigStatus id status => exact ⟨rfl, rfl⟩
  | deleteBrokerConfig id tenantId => exact ⟨rfl, rfl⟩
  | remove => cases h
  | cancel => cases h
  | spawn => cases h
  | insert => cases h
  | spawnStatus => cases h

theorem event_view (e : Event) (s : State) :
    (s.event e).live = s.live ∧ (s.event e).connections = s.connections := by
  cases e with
  | progress k progress =>
      simp only [State.event]
      split
      · exact ⟨rfl, rfl⟩
      · exact ⟨live_setPhase s k _, rfl⟩
  | wrote k landed =>
      simp only [State.event]
      split
      · exact ⟨rfl, rfl⟩
      · split
        · exact ⟨rfl, rfl⟩
        · rw [live_setPhase]
          cases landed <;> exact ⟨rfl, rfl⟩
  | spawnedWrote i landed =>
      simp only [State.event]
      split
      · exact ⟨rfl, rfl⟩
      · cases landed <;> exact ⟨rfl, rfl⟩

/-- What a step of a careful handler does to the tasks and the map. -/
inductive Turn {α : Type} (s : State) (h : Program α) (s' : State) (h' : Program α) : Prop where
  | idle (hs : s'.live = s.live) (hmap : s'.connections = s.connections) (hh : holds h = none)
      (hh' : holds h' = none)
  | take (c : Uuid) (k : Nat) (hk : s.connections c = some k) (hs : s'.live = s.live)
      (hmap : s'.connections = Function.update s.connections c none) (hh : holds h = none)
      (hh' : h'.nextOp = some (.cancel k))
  | cancel (k : Nat) (hs : s'.live = Function.update s.live k none)
      (hmap : s'.connections = s.connections) (hh : holds h = some k) (hh' : holds h' = none)
  | spawn (c : Uuid) (k : Nat) (hk : s.tasks.length = k)
      (hs : s'.live = Function.update s.live k (some c))
      (hmap : s'.connections = s.connections) (hh : holds h = none)
      (hh' : h'.nextOp = some (.insert c k))
  | put (c : Uuid) (k : Nat) (hs : s'.live = s.live)
      (hmap : s'.connections = Function.update s.connections c (some k))
      (hh : h.nextOp = some (.insert c k)) (hh' : holds h' = none)

theorem Turn.of_moves {α : Type} {s s' : State} {h h' : Program α} {op : Option Op}
    (hcareful : Careful h) (hmove : Moves exec s h s' h' op) : Turn s h s' h' ∧ Careful h' := by
  have htable : ∀ {op : Op} (nonce : Uuid), op.onTable = true →
      (exec op nonce s).1.live = s.live ∧ (exec op nonce s).1.connections = s.connections ∧
        op.task = none := by
    intro op nonce hop
    obtain ⟨htasks, hmap⟩ := exec_onTable hop nonce s
    refine ⟨?_, hmap, ?_⟩
    · funext k
      rw [State.live, State.live, htasks]
    · cases op <;> first | rfl | cases hop
  cases hmove with
  | done op next failed nonce =>
      obtain ⟨hop, hnext, -, -⟩ := hcareful
      obtain ⟨hs, hmap, htask⟩ := htable nonce hop
      exact ⟨.idle hs hmap htask (hnext _).1, (hnext _).2⟩
  | failed op next failed =>
      obtain ⟨hop, -, hfailed, hrest⟩ := hcareful
      exact ⟨.idle rfl rfl (htable 0 hop).2.2 hfailed, hrest⟩
  | lost op next failed nonce =>
      obtain ⟨hop, -, hfailed, hrest⟩ := hcareful
      obtain ⟨hs, hmap, htask⟩ := htable nonce hop
      exact ⟨.idle hs hmap htask hfailed, hrest⟩
  | act op next nonce =>
      obtain ⟨hfollows, hrest⟩ := hcareful (exec op nonce s).2
      refine ⟨?_, hrest⟩
      cases op with
      | remove c =>
          cases hk : s.connections c with
          | none =>
              have hmap : Function.update s.connections c none = s.connections := by
                rw [← hk]
                exact Function.update_eq_self c s.connections
              simp only [exec, hk] at hfollows ⊢
              exact .idle rfl hmap rfl hfollows
          | some k =>
              simp only [exec, hk] at hfollows ⊢
              exact .take c k hk rfl rfl rfl hfollows
      | cancel k => exact .cancel k (live_cancel s k nonce) rfl rfl hfollows
      | spawn config =>
          exact .spawn config.id _ rfl (live_spawn s config nonce) rfl rfl hfollows
      | insert c k => exact .put c k rfl rfl rfl hfollows
      | spawnStatus id status => exact .idle rfl rfl rfl hfollows
      | createBrokerConfig input =>
          exact .idle (htable nonce rfl).1 (htable nonce rfl).2.1 rfl hfollows
      | getBrokerConfig id tenantId => exact .idle rfl rfl rfl hfollows
      | listActiveBrokerConfigs => exact .idle rfl rfl rfl hfollows
      | setBrokerActive id tenantId isActive => exact .idle rfl rfl rfl hfollows
      | updateBrokerConfigStatus id status => exact .idle rfl rfl rfl hfollows
      | deleteBrokerConfig id tenantId => exact .idle rfl rfl rfl hfollows

/-! ### Ownership -/

abbrev BrokerPool (α κ : Type) := Pool Op Op.Reply α κ State

/-- Requests of any kind, any number of them at once. -/
def brokers {α κ : Type} (program : κ → Program α) : Machine Op Op.Reply α κ State Uuid Event where
  exec := exec
  program := program
  world := State.event

variable {α κ : Type}

/-- A pool whose tasks are each owned once, if at all. -/
structure Sound (p : BrokerPool α κ) : Prop where
  careful : ∀ t ∈ p.threads, Careful t.program
  mapped : ∀ c k, p.state.connections c = some k → p.state.live k = some c
  held : ∀ t ∈ p.threads, ∀ k, holds t.program = some k →
    (∃ c, p.state.live k = some c) ∧ ∀ c, p.state.connections c ≠ some k
  inserted : ∀ t ∈ p.threads, ∀ c k, t.program.nextOp = some (.insert c k) →
    p.state.live k = some c
  lone : ∀ k, Lone (fun t : Thread Op Op.Reply α κ => holds t.program = some k) p.threads

theorem holds_of_insert {α : Type} {h : Program α} {c : Uuid} {k : Nat}
    (hnext : h.nextOp = some (.insert c k)) : holds h = some k := by
  rw [holds, hnext]
  rfl

theorem holds_of_cancel {α : Type} {h : Program α} {k : Nat}
    (hnext : h.nextOp = some (.cancel k)) : holds h = some k := by
  rw [holds, hnext]
  rfl

/-- A step in which thread `i` goes from `h` to `h'`. -/
def BrokerPool.moved (p : BrokerPool α κ) (i : Nat) (request : κ) (s' : State)
    (h' : Program α) (log : List (κ × Op)) : BrokerPool α κ :=
  { state := s', threads := p.threads.set i ⟨request, h'⟩, log }

/-- What the step must keep, thread by thread. -/
theorem Sound.moved {p : BrokerPool α κ} {i : Nat} {t : Thread Op Op.Reply α κ} {s' : State}
    {h' : Program α} {log : List (κ × Op)} (hp : Sound p)
    (hcareful : Careful h') (hmapped : ∀ c k, s'.connections c = some k → s'.live k = some c)
    (hheld : ∀ k, holds h' = some k →
      (∃ c, s'.live k = some c) ∧ (∀ c, s'.connections c ≠ some k) ∧
        ∀ j u, j ≠ i → p.threads[j]? = some u → holds u.program ≠ some k)
    (hinserted : ∀ c k, h'.nextOp = some (.insert c k) → s'.live k = some c)
    (hothers : ∀ j u, j ≠ i → p.threads[j]? = some u → ∀ k, holds u.program = some k →
      s'.live k = p.state.live k ∧ ∀ c, s'.connections c ≠ some k) :
    Sound (p.moved i t.request s' h' log) where
  careful := forall_set hcareful fun j u _ hu => hp.careful u (List.mem_of_getElem? hu)
  mapped := hmapped
  held := by
    refine forall_set (fun k hk => ⟨(hheld k hk).1, (hheld k hk).2.1⟩) ?_
    intro j u hj hu k hk
    obtain ⟨hlive, hmap⟩ := hothers j u hj hu k hk
    obtain ⟨⟨c, hc⟩, -⟩ := hp.held u (List.mem_of_getElem? hu) k hk
    exact ⟨⟨c, hlive.trans hc⟩, hmap⟩
  inserted := by
    refine forall_set hinserted ?_
    intro j u hj hu c k hnext
    have hlive := hp.inserted u (List.mem_of_getElem? hu) c k hnext
    exact (hothers j u hj hu k (holds_of_insert hnext)).1.trans hlive
  lone := fun k => (hp.lone k).set fun hk j u hj hu => (hheld k hk).2.2 j u hj hu

/-- The other threads hold other tasks. -/
theorem Sound.others {p : BrokerPool α κ} (hp : Sound p) {i j : Nat}
    {t u : Thread Op Op.Reply α κ} (ht : p.threads[i]? = some t)
    (hu : p.threads[j]? = some u) (hj : j ≠ i) {k k' : Nat} (hk : holds t.program = some k)
    (hk' : holds u.program = some k') : k' ≠ k := by
  rintro rfl
  exact hj (hp.lone k' j i u t hu ht hk' hk)

theorem sound_turn {p : BrokerPool α κ} {i : Nat} {t : Thread Op Op.Reply α κ} {s' : State}
    {h' : Program α} {log : List (κ × Op)} (hp : Sound p) (ht : p.threads[i]? = some t)
    (hturn : Turn p.state t.program s' h') (hcareful : Careful h') :
    Sound (p.moved i t.request s' h' log) := by
  have hmem : t ∈ p.threads := List.mem_of_getElem? ht
  cases hturn with
  | idle hs hmap hh hh' =>
      refine hp.moved hcareful (by rw [hs, hmap]; exact hp.mapped) ?_ ?_ ?_
      · intro k hk
        rw [hh'] at hk
        cases hk
      · intro c k hnext
        rw [holds_of_insert hnext] at hh'
        cases hh'
      · intro j u hj hu k hk
        rw [hs, hmap]
        exact ⟨rfl, (hp.held u (List.mem_of_getElem? hu) k hk).2⟩
  | take c k hk hs hmap hh hh' =>
      have hout : ∀ c' k', s'.connections c' = some k' → c' ≠ c ∧ p.state.connections c' = some k' := by
        intro c' k' hk'
        rw [hmap, Function.update_apply] at hk'
        split at hk'
        · cases hk'
        · exact ⟨‹_›, hk'⟩
      refine hp.moved hcareful ?_ ?_ ?_ ?_
      · intro c' k' hk'
        rw [hs]
        exact hp.mapped c' k' (hout c' k' hk').2
      · intro k' hk'
        obtain rfl : k = k' := Option.some.inj ((holds_of_cancel hh').symm.trans hk')
        refine ⟨⟨c, by rw [hs]; exact hp.mapped c k hk⟩, ?_, ?_⟩
        · intro c' hc'
          obtain ⟨hne, hc'⟩ := hout c' k hc'
          have hsame := (hp.mapped c' k hc').symm.trans (hp.mapped c k hk)
          exact hne (Option.some.inj hsame)
        · intro j u hj hu hku
          exact (hp.held u (List.mem_of_getElem? hu) k hku).2 c hk
      · intro c' k' hnext
        rw [hh'] at hnext
        cases hnext
      · intro j u hj hu k' hk'
        rw [hs]
        refine ⟨rfl, fun c' hc' => ?_⟩
        exact (hp.held u (List.mem_of_getElem? hu) k' hk').2 c' (hout c' k' hc').2
  | cancel k hs hmap hh hh' =>
      refine hp.moved hcareful ?_ ?_ ?_ ?_
      · intro c' k' hk'
        rw [hmap] at hk'
        rw [hs, Function.update_of_ne]
        · exact hp.mapped c' k' hk'
        · rintro rfl
          exact (hp.held t hmem k' hh).2 c' hk'
      · intro k' hk'
        rw [hh'] at hk'
        cases hk'
      · intro c' k' hnext
        rw [holds_of_insert hnext] at hh'
        cases hh'
      · intro j u hj hu k' hk'
        rw [hs, hmap, Function.update_of_ne (hp.others ht hu hj hh hk')]
        exact ⟨rfl, (hp.held u (List.mem_of_getElem? hu) k' hk').2⟩
  | spawn c k hk hs hmap hh hh' =>
      have hfresh : ∀ k' c', p.state.live k' = some c' → k' ≠ k := by
        rintro k' c' hlive rfl
        have := live_lt hlive
        omega
      refine hp.moved hcareful ?_ ?_ ?_ ?_
      · intro c' k' hk'
        rw [hmap] at hk'
        have hlive := hp.mapped c' k' hk'
        rw [hs, Function.update_of_ne (hfresh k' c' hlive)]
        exact hlive
      · intro k' hk'
        obtain rfl : k = k' := Option.some.inj ((holds_of_insert hh').symm.trans hk')
        refine ⟨⟨c, by rw [hs, Function.update_self]⟩, ?_, ?_⟩
        · intro c' hc'
          rw [hmap] at hc'
          exact hfresh k c' (hp.mapped c' k hc') rfl
        · intro j u hj hu hku
          obtain ⟨⟨c', hc'⟩, -⟩ := hp.held u (List.mem_of_getElem? hu) k hku
          exact hfresh k c' hc' rfl
      · intro c' k' hnext
        rw [hh'] at hnext
        obtain ⟨rfl, rfl⟩ : c = c' ∧ k = k' := by simpa using hnext
        rw [hs, Function.update_self]
      · intro j u hj hu k' hk'
        obtain ⟨⟨c', hc'⟩, hout⟩ := hp.held u (List.mem_of_getElem? hu) k' hk'
        rw [hs, hmap, Function.update_of_ne (hfresh k' c' hc')]
        exact ⟨rfl, hout⟩
  | put c k hs hmap hh hh' =>
      have hown : holds t.program = some k := holds_of_insert hh
      refine hp.moved hcareful ?_ ?_ ?_ ?_
      · intro c' k' hk'
        rw [hs]
        rw [hmap, Function.update_apply] at hk'
        split at hk'
        · obtain rfl := Option.some.inj hk'
          rename_i hc
          rw [hc]
          exact hp.inserted t hmem c k hh
        · exact hp.mapped c' k' hk'
      · intro k' hk'
        rw [hh'] at hk'
        cases hk'
      · intro c' k' hnext
        rw [holds_of_insert hnext] at hh'
        cases hh'
      · intro j u hj hu k' hk'
        rw [hs]
        refine ⟨rfl, fun c' hc' => ?_⟩
        rw [hmap, Function.update_apply] at hc'
        split at hc'
        · exact hp.others ht hu hj hown hk' (Option.some.inj hc').symm
        · exact (hp.held u (List.mem_of_getElem? hu) k' hk').2 c' hc'

/-! ### Steps -/

/-- A step of the manager, seen through the tasks, the map and the calls. -/
theorem step_turn {program : κ → Program α} (hprogram : ∀ r, Fresh (program r))
    {p : BrokerPool α κ} (hp : Sound p) (a : Action Uuid κ Event) :
    let p' := (brokers program).step p a
    (p'.state.live = p.state.live ∧ p'.state.connections = p.state.connections ∧
      ∀ t ∈ p'.threads, t ∈ p.threads ∨ holds t.program = none ∧ Careful t.program) ∧
        (p'.threads = p.threads ∨ ∃ t, holds t.program = none ∧ p'.threads = p.threads ++ [t]) ∨
    ∃ i fate nonce t s' h' log, a = .advance i fate nonce ∧ p.threads[i]? = some t ∧
      Turn p.state t.program s' h' ∧ Careful h' ∧ p' = p.moved i t.request s' h' log := by
  intro p'
  rcases (brokers program).step_cases p a with h | ⟨request, rfl, h⟩ |
    ⟨i, fate, nonce, t, s', h', op, rfl, ht, -, hmove, h⟩ | ⟨e, rfl, h⟩
  · have hp' : p' = p := h
    rw [hp']
    exact .inl ⟨⟨rfl, rfl, fun t ht => .inl ht⟩, .inl rfl⟩
  · have hp' : p' = { p with threads := p.threads ++ [⟨request, program request⟩] } := h
    obtain ⟨hcareful, hholds⟩ := hprogram request
    rw [hp']
    refine .inl ⟨⟨rfl, rfl, ?_⟩, .inr ⟨_, hholds, rfl⟩⟩
    exact forall_append_one (fun t ht => .inl ht) (.inr ⟨hholds, hcareful⟩)
  · obtain ⟨hturn, hcareful⟩ := Turn.of_moves (hp.careful t (List.mem_of_getElem? ht)) hmove
    exact .inr ⟨i, fate, nonce, t, s', h', _, rfl, ht, hturn, hcareful, h⟩
  · have hp' : p' = { p with state := p.state.event e } := h
    rw [hp']
    exact .inl ⟨⟨(event_view e p.state).1, (event_view e p.state).2, fun t ht => .inl ht⟩, .inl rfl⟩

theorem sound_step {program : κ → Program α} (hprogram : ∀ r, Fresh (program r))
    (p : BrokerPool α κ) (a : Action Uuid κ Event) (hp : Sound p) :
    Sound ((brokers program).step p a) := by
  rcases step_turn hprogram hp a with ⟨⟨hs, hmap, hmem⟩, hthreads⟩ |
    ⟨i, fate, nonce, t, s', h', log, rfl, ht, hturn, hcareful, h⟩
  · refine ⟨?_, by rw [hs, hmap]; exact hp.mapped, ?_, ?_, ?_⟩
    · intro t ht
      rcases hmem t ht with ht | ht
      · exact hp.careful t ht
      · exact ht.2
    · intro t ht k hk
      rw [hs, hmap]
      rcases hmem t ht with ht | ht
      · exact hp.held t ht k hk
      · rw [ht.1] at hk
        cases hk
    · intro t ht c k hnext
      rw [hs]
      rcases hmem t ht with ht | ht
      · exact hp.inserted t ht c k hnext
      · rw [holds_of_insert hnext] at ht
        cases ht.1
    · intro k
      rcases hthreads with h | ⟨t, ht, h⟩
      · rw [h]
        exact hp.lone k
      · rw [h]
        refine (hp.lone k).append ?_
        rw [ht]
        exact nofun
  · rw [h]
    exact sound_turn hp ht hturn hcareful

end Feloxi.Broker
