import Feloxi.Broker.Ownership

/-!
# Feloxi.Broker.Exclusive

At most one consumer per broker. `start` removes the old connection, spawns a task and
inserts it, in three steps; the insert overwrites what another `start` inserted in between,
and the token of that connection is dropped without a cancel.

An overwritten task is neither in the map nor in anybody's hands, and nothing brings it back.
-/

namespace Feloxi.Broker

open Handlers Runs
open Tables (Table)

/-- The manager, called any number of times at once. -/
abbrev manager (env : Env) : Machine Op Op.Reply Unit Call State Uuid Event :=
  brokers (Call.program env)

/-- A task that nobody can cancel any more. -/
def Leaked (p : BrokerPool Unit Call) (k : Nat) : Prop :=
  (∃ c, p.state.live k = some c) ∧ (∀ c, p.state.connections c ≠ some k) ∧
    ∀ t ∈ p.threads, holds t.program ≠ some k

/-- Every task that was not cancelled has an owner. -/
def Owned (p : BrokerPool Unit Call) : Prop :=
  ∀ k c, p.state.live k = some c →
    p.state.connections c = some k ∨ ∃ t ∈ p.threads, holds t.program = some k

/-- Nothing brings a leaked task back. -/
theorem leaked_step (env : Env) {p : BrokerPool Unit Call} (hp : Sound p) {k : Nat} (hk : Leaked p k)
    (a : Action Uuid Call Event) : Leaked ((manager env).step p a) k := by
  obtain ⟨⟨c, hc⟩, hout, hfree⟩ := hk
  rcases step_turn (careful_call env) hp a with ⟨⟨hs, hmap, hmem⟩, -⟩ |
    ⟨i, fate, nonce, t, s', h', log, rfl, ht, hturn, hcareful, h⟩
  · refine ⟨⟨c, by rw [hs]; exact hc⟩, by rw [hmap]; exact hout, ?_⟩
    intro t ht
    rcases hmem t ht with ht | ht
    · exact hfree t ht
    · rw [ht.1]
      exact nofun
  · rw [h]
    have hother : holds t.program ≠ some k := hfree t (List.mem_of_getElem? ht)
    have hrest : holds h' ≠ some k → ∀ u ∈ (p.moved i t.request s' h' log).threads,
        holds u.program ≠ some k := fun hh' =>
      forall_set hh' fun j u _ hu => hfree u (List.mem_of_getElem? hu)
    cases hturn with
    | idle hs hmap hh hh' =>
        exact ⟨⟨c, by rw [← hc, ← hs]; rfl⟩, by rw [← hmap] at hout; exact hout,
          hrest (by rw [hh']; exact nofun)⟩
    | take d j hj hs hmap hh hh' =>
        refine ⟨⟨c, by rw [← hc, ← hs]; rfl⟩, ?_, hrest ?_⟩
        · intro d' hd'
          rw [BrokerPool.moved, hmap, Function.update_apply] at hd'
          split at hd'
          · cases hd'
          · exact hout d' hd'
        · rw [holds_of_cancel hh']
          rintro ⟨rfl⟩
          exact hout d hj
    | cancel j hs hmap hh hh' =>
        refine ⟨⟨c, ?_⟩, by rw [← hmap] at hout; exact hout, hrest (by rw [hh']; exact nofun)⟩
        rw [BrokerPool.moved, hs, Function.update_of_ne]
        · exact hc
        · rintro rfl
          exact hother hh
    | spawn d j hj hs hmap hh hh' =>
        have hne : k ≠ j := by
          have := live_lt hc
          omega
        refine ⟨⟨c, ?_⟩, by rw [← hmap] at hout; exact hout, hrest ?_⟩
        · rw [BrokerPool.moved, hs, Function.update_of_ne hne]
          exact hc
        · rw [holds_of_insert hh']
          rintro ⟨rfl⟩
          exact hne rfl
    | put d j hs hmap hh hh' =>
        refine ⟨⟨c, by rw [← hc, ← hs]; rfl⟩, ?_, hrest (by rw [hh']; exact nofun)⟩
        intro d' hd'
        rw [BrokerPool.moved, hmap, Function.update_apply] at hd'
        split at hd'
        · rw [← hd'] at hother
          exact hother (holds_of_insert hh)
        · exact hout d' hd'

/-- The step inserts no connection over another. -/
def NoOverwrite (p : BrokerPool Unit Call) : Action Uuid Call Event → Prop
  | .advance i _ _ =>
    match p.threads[i]?.bind (·.program.nextOp) with
    | some (.insert c _) => p.state.connections c = none
    | _ => True
  | _ => True

theorem owned_step (env : Env) {p : BrokerPool Unit Call} (hp : Sound p) (howned : Owned p)
    {a : Action Uuid Call Event} (hok : NoOverwrite p a) : Owned ((manager env).step p a) := by
  rcases step_turn (careful_call env) hp a with ⟨⟨hs, hmap, -⟩, hthreads⟩ |
    ⟨i, fate, nonce, t, s', h', log, rfl, ht, hturn, hcareful, h⟩
  · intro k c hk
    rw [hs] at hk
    rw [hmap]
    rcases howned k c hk with hk | ⟨t, ht, hk⟩
    · exact .inl hk
    · right
      rcases hthreads with h | ⟨u, -, h⟩
      · exact ⟨t, by rw [h]; exact ht, hk⟩
      · exact ⟨t, by rw [h]; exact List.mem_append_left _ ht, hk⟩
  · rw [h]
    obtain ⟨hi, -⟩ := List.getElem?_eq_some_iff.1 ht
    have hself : ∃ u ∈ (p.moved i t.request s' h' log).threads, u.program = h' :=
      ⟨_, List.mem_set hi _, rfl⟩
    -- a thread keeps what it holds, unless it is the one that moves
    have hkept : ∀ k, holds t.program ≠ some k → (∃ u ∈ p.threads, holds u.program = some k) →
        ∃ u ∈ (p.moved i t.request s' h' log).threads, holds u.program = some k := by
      intro k hk ⟨u, hu, huk⟩
      obtain ⟨j, hj⟩ := List.mem_iff_getElem?.1 hu
      by_cases hij : i = j
      · subst hij
        rw [ht] at hj
        rw [Option.some.inj hj] at hk
        exact absurd huk hk
      · refine ⟨u, List.mem_of_getElem? (i := j) ?_, huk⟩
        rw [BrokerPool.moved, List.getElem?_set_ne hij]
        exact hj
    cases hturn with
    | idle hs hmap hh hh' =>
        intro k c hk
        rw [BrokerPool.moved, hs] at hk
        rw [BrokerPool.moved, hmap]
        exact (howned k c hk).imp_right (hkept k (by rw [hh]; exact nofun))
    | take d j hj hs hmap hh hh' =>
        intro k c hk
        rw [BrokerPool.moved, hs] at hk
        by_cases hkj : k = j
        · obtain ⟨u, hu, hprogram⟩ := hself
          exact .inr ⟨u, hu, by rw [hprogram, hkj]; exact holds_of_cancel hh'⟩
        · refine (howned k c hk).imp ?_ (hkept k (by rw [hh]; exact nofun))
          intro hmapped
          rw [BrokerPool.moved, hmap, Function.update_of_ne]
          · exact hmapped
          · rintro rfl
            rw [hj] at hmapped
            exact hkj (Option.some.inj hmapped).symm
    | cancel j hs hmap hh hh' =>
        intro k c hk
        rw [BrokerPool.moved, hs, Function.update_apply] at hk
        split at hk
        · cases hk
        · rename_i hkj
          rw [BrokerPool.moved, hmap]
          refine (howned k c hk).imp_right (hkept k ?_)
          rw [hh]
          exact fun heq => hkj (Option.some.inj heq).symm
    | spawn d j hj hs hmap hh hh' =>
        intro k c hk
        rw [BrokerPool.moved, hs, Function.update_apply] at hk
        split at hk
        · rename_i hkj
          obtain ⟨u, hu, hprogram⟩ := hself
          exact .inr ⟨u, hu, by rw [hprogram, hkj]; exact holds_of_insert hh'⟩
        · rw [BrokerPool.moved, hmap]
          exact (howned k c hk).imp_right (hkept k (by rw [hh]; exact nofun))
    | put d j hs hmap hh hh' =>
        intro k c hk
        rw [BrokerPool.moved, hs] at hk
        by_cases hkj : k = j
        · subst hkj
          have hd := hp.inserted t (List.mem_of_getElem? ht) d k hh
          obtain rfl : d = c := Option.some.inj (hd.symm.trans hk)
          exact .inl (by rw [BrokerPool.moved, hmap, Function.update_self])
        · refine (howned k c hk).imp ?_ (hkept k ?_)
          · intro hmapped
            rw [BrokerPool.moved, hmap, Function.update_of_ne]
            · exact hmapped
            · rintro rfl
              simp only [NoOverwrite, ht, Option.bind_some, hh] at hok
              rw [hok] at hmapped
              cases hmapped
          · rw [holds_of_insert hh]
            exact fun heq => hkj (Option.some.inj heq).symm

/-- An insert over another connection leaks the task of that one. -/
theorem leaked_of_overwrite (env : Env) {p : BrokerPool Unit Call} (hp : Sound p)
    {a : Action Uuid Call Event} (hok : ¬ NoOverwrite p a) :
    ∃ k, Leaked ((manager env).step p a) k := by
  cases a with
  | arrive call => exact absurd trivial hok
  | world e => exact absurd trivial hok
  | advance i fate nonce =>
      simp only [NoOverwrite] at hok
      split at hok
      case h_2 => exact absurd trivial hok
      rename_i c k hnext
      obtain ⟨t, ht, hnext⟩ := Option.bind_eq_some_iff.1 hnext
      obtain ⟨old, hold⟩ := Option.ne_none_iff_exists'.1 hok
      have hmem := List.mem_of_getElem? ht
      have hcareful := hp.careful t hmem
      have hown : holds t.program = some k := holds_of_insert hnext
      have hout := (hp.held t hmem k hown).2
      refine ⟨old, ?_⟩
      obtain ⟨call, program⟩ := t
      cases program with
      | answer a => cases hnext
      | call op next failed =>
          obtain rfl : op = .insert c k := Option.some.inj hnext
          cases hcareful.1
      | act op next =>
          obtain rfl : op = .insert c k := Option.some.inj hnext
          have hstep : (manager env).step p (.advance i fate nonce) =
              p.moved i call (exec (.insert c k) nonce p.state).1 (next ())
                (p.log ++ [(call, .insert c k)]) := by
            simp only [Machine.step, ht]
            rfl
          rw [hstep]
          refine ⟨⟨c, hp.mapped c old hold⟩, ?_, forall_set ?_ ?_⟩
          · intro c' hc'
            have hc' : Function.update p.state.connections c (some k) c' = some old := hc'
            rw [Function.update_apply] at hc'
            split at hc'
            · rw [← hc'] at hold
              exact hout c hold
            · rename_i hne
              have hsame := (hp.mapped c' old hc').symm.trans (hp.mapped c old hold)
              exact hne (Option.some.inj hsame)
          · have hnone : holds (next ()) = none := (hcareful ()).1
            rw [hnone]
            intro hsome
            cases hsome
          · intro j u _ hu hk
            exact (hp.held u (List.mem_of_getElem? hu) old hk).2 c hold

/-! ### The last call -/

def Op.maps (c : Uuid) : Op → Bool
  | .remove id => id == c
  | .insert id _ => id == c
  | _ => false

/-- The last operation on the map at `c`, and the call it was carried out for. When no call is
in progress, that call is the last to complete its map operations. -/
def lastMapOp (c : Uuid) (log : List (Call × Op)) : Option (Call × Op) :=
  (log.filter fun e => e.2.maps c).getLast?

/-- What the log says about the map. -/
structure Logged (p : BrokerPool Unit Call) : Prop where
  removed : ∀ c call id, lastMapOp c p.log = some (call, .remove id) → p.state.connections c = none
  stops : ∀ id op, (Call.stop id, op) ∈ p.log → ∀ c k, op ≠ .insert c k
  threads : ∀ t ∈ p.threads, ∀ id, t.request = .stop id →
    t.program.AllOps fun op => ∀ c k, op ≠ .insert c k

theorem lastMapOp_append (c : Uuid) (log : List (Call × Op)) (call : Call) (op : Op) :
    lastMapOp c (log ++ [(call, op)]) =
      if op.maps c then some (call, op) else lastMapOp c log := by
  unfold lastMapOp
  rw [List.filter_append]
  cases hop : op.maps c <;> simp [hop]

theorem connections_exec {op : Op} {c : Uuid} (h : op.maps c = false) (nonce : Uuid) (s : State) :
    (exec op nonce s).1.connections c = s.connections c := by
  cases op with
  | remove id =>
      have hne : c ≠ id := fun heq => by simp [Op.maps, heq] at h
      exact Function.update_of_ne hne _ _
  | insert id k =>
      have hne : c ≠ id := fun heq => by simp [Op.maps, heq] at h
      exact Function.update_of_ne hne _ _
  | cancel k => rfl
  | spawn config => rfl
  | spawnStatus id status => rfl
  | createBrokerConfig input =>
      have htable : Op.onTable (.createBrokerConfig input) = true := rfl
      rw [(exec_onTable htable nonce s).2]
  | getBrokerConfig id tenantId => rfl
  | listActiveBrokerConfigs => rfl
  | setBrokerActive id tenantId isActive => rfl
  | updateBrokerConfigStatus id status => rfl
  | deleteBrokerConfig id tenantId => rfl

theorem allOps_stop (configId : Uuid) : (stop configId).AllOps fun op => ∀ c k, op ≠ .insert c k := by
  refine ⟨nofun, ?_⟩
  intro reply
  cases reply with
  | none => trivial
  | some k => exact ⟨nofun, fun _ => trivial⟩

/-- What a move carries out keeps what the log says. -/
theorem Logged.carried {p : BrokerPool Unit Call} (hp : Logged p) {s' : State} {call : Call} {op : Op}
    {nonce : Uuid} (hs' : s' = (exec op nonce p.state).1)
    (c : Uuid) (call' : Call) (id : Uuid)
    (h : lastMapOp c (p.log ++ [(call, op)]) = some (call', .remove id)) :
    s'.connections c = none := by
  subst hs'
  rw [lastMapOp_append] at h
  split at h
  · rename_i hmaps
    obtain ⟨-, rfl⟩ : call = call' ∧ op = .remove id := by simpa using h
    have hid : id = c := by simpa [Op.maps] using hmaps
    rw [hid]
    exact Function.update_self c none p.state.connections
  · rename_i hmaps
    rw [connections_exec (by simpa using hmaps)]
    exact hp.removed c call' id h

theorem logged_step (env : Env) (p : BrokerPool Unit Call) (a : Action Uuid Call Event) (hp : Logged p) :
    Logged ((manager env).step p a) := by
  rcases (manager env).step_cases p a with h | ⟨call, rfl, h⟩ |
    ⟨i, fate, nonce, t, s', h', op, rfl, ht, -, hmove, h⟩ | ⟨e, rfl, h⟩
  · rw [h]
    exact hp
  · rw [h]
    refine ⟨hp.removed, hp.stops, forall_append_one hp.threads ?_⟩
    rintro id rfl
    exact allOps_stop id
  · have hops := hp.threads t (List.mem_of_getElem? ht)
    rw [h]
    obtain ⟨request, program⟩ := t
    -- the operations of a stop: the one carried out, and those to come
    have hstops : ∀ id, request = .stop id →
        (∀ o, op = some o → ∀ c k, o ≠ .insert c k) ∧
          h'.AllOps fun op => ∀ c k, op ≠ .insert c k := by
      intro id hid
      have hall := hops id hid
      cases hmove with
      | act o next nonce =>
          exact ⟨fun _ ho => by rw [← Option.some.inj ho]; exact hall.1, hall.2 _⟩
      | done o next failed nonce =>
          exact ⟨fun _ ho => by rw [← Option.some.inj ho]; exact hall.1, hall.2.1 _⟩
      | failed o next failed => exact ⟨nofun, hall.2.2⟩
      | lost o next failed nonce =>
          exact ⟨fun _ ho => by rw [← Option.some.inj ho]; exact hall.1, hall.2.2⟩
    refine ⟨?_, ?_, ?_⟩
    · intro c call id hlast
      cases hmove with
      | act o next nonce => exact hp.carried rfl c call id hlast
      | done o next failed nonce => exact hp.carried rfl c call id hlast
      | failed o next failed =>
          simp only [Option.map_none, Option.toList_none, List.append_nil] at hlast
          exact hp.removed c call id hlast
      | lost o next failed nonce => exact hp.carried rfl c call id hlast
    · intro id o ho
      rcases List.mem_append.1 ho with ho | ho
      · exact hp.stops id o ho
      · cases op with
        | none => cases ho
        | some o' =>
            obtain ⟨hid, rfl⟩ : .stop id = request ∧ o = o' := by simpa using ho
            exact (hstops id hid.symm).1 o rfl
    · exact forall_set (fun id hid => (hstops id hid).2) fun j u _ hu =>
        hp.threads u (List.mem_of_getElem? hu)
  · rw [h]
    refine ⟨?_, hp.stops, hp.threads⟩
    intro c call id hlast
    show (p.state.event e).connections c = none
    rw [(event_view e p.state).2]
    exact hp.removed c call id hlast

/-! ### Whole runs -/

/-- No call was made yet. -/
def calm (configs : Table BrokerConfig sameConfig) : BrokerPool Unit Call :=
  { state := .boot configs, threads := [], log := [] }

/-- At most one task of the config is not cancelled; the map leads to it; and there is none
if the call that came last was a `stop`. -/
structure Exclusive (p : BrokerPool Unit Call) (c : Uuid) : Prop where
  atMostOne : ∀ j k, p.state.live j = some c → p.state.live k = some c → j = k
  reachable : ∀ k, p.state.live k = some c → p.state.connections c = some k
  stopped : ∀ id op, lastMapOp c p.log = some (.stop id, op) → ∀ k, p.state.live k ≠ some c

theorem sound_calm (configs : Table BrokerConfig sameConfig) : Sound (calm configs) where
  careful := nofun
  mapped := nofun
  held := nofun
  inserted := nofun
  lone := fun _ => Lone.nil

theorem logged_calm (configs : Table BrokerConfig sameConfig) : Logged (calm configs) where
  removed := nofun
  stops := nofun
  threads := nofun

theorem Pool.Quiet.holds_none {p : BrokerPool Unit Call} (hquiet : p.Quiet) :
    ∀ t ∈ p.threads, holds t.program = none := by
  intro t ht
  obtain ⟨answer, hanswer⟩ := hquiet t ht
  rw [hanswer]
  rfl

/-- With an owner for every task, a manager with no call in progress is exclusive. -/
theorem exclusive_of_owned {p : BrokerPool Unit Call} (howned : Owned p) (hlog : Logged p)
    (hquiet : p.Quiet) (c : Uuid) : Exclusive p c := by
  have hreach : ∀ k, p.state.live k = some c → p.state.connections c = some k := by
    intro k hk
    rcases howned k c hk with h | ⟨t, ht, hholds⟩
    · exact h
    · rw [Pool.Quiet.holds_none hquiet t ht] at hholds
      cases hholds
  refine ⟨?_, hreach, ?_⟩
  · intro j k hj hk
    exact Option.some.inj ((hreach j hj).symm.trans (hreach k hk))
  · intro id op hlast k hk
    have hmem : (Call.stop id, op) ∈ p.log.filter fun e => e.2.maps c := List.mem_of_getLast? hlast
    obtain ⟨hmem, hmaps⟩ := List.mem_filter.1 hmem
    have hnone : p.state.connections c = none := by
      cases op with
      | remove id' => exact hlog.removed c _ id' hlast
      | insert id' k' => exact absurd rfl (hlog.stops id _ hmem id' k')
      | _ => cases hmaps
    rw [hreach k hk] at hnone
    cases hnone

/-- A run in which a connection was overwritten ends with a leaked task. -/
theorem leaked_of_not_allSteps (env : Env) {p : BrokerPool Unit Call} (hp : Sound p)
    {inputs : List (Action Uuid Call Event)}
    (h : ¬ AllSteps (manager env).step NoOverwrite p inputs) :
    ∃ k, Leaked (run (manager env).step p inputs) k := by
  induction inputs generalizing p with
  | nil => exact absurd trivial h
  | cons a rest ih =>
      have hsound := sound_step (careful_call env) p a hp
      by_cases hok : NoOverwrite p a
      · exact ih hsound fun hrest => h ⟨hok, hrest⟩
      · obtain ⟨k, hk⟩ := leaked_of_overwrite env hp hok
        have hkeep : ∀ p a, Sound p ∧ Leaked p k →
            Sound ((manager env).step p a) ∧ Leaked ((manager env).step p a) k :=
          fun p a hp => ⟨sound_step (careful_call env) p a hp.1, leaked_step env hp.1 hp.2 a⟩
        have hend := run_invariant (fun p => Sound p ∧ Leaked p k) hkeep ⟨hsound, hk⟩ rest
        exact ⟨k, hend.2⟩

/-- **One consumer per broker**: in every state where no call is in progress, the tasks of
each config are as they should be if and only if no insert met another connection. -/
theorem exclusive_iff (env : Env) (configs : Table BrokerConfig sameConfig)
    (inputs : List (Action Uuid Call Event))
    (hquiet : (run (manager env).step (calm configs) inputs).Quiet) :
    (∀ c, Exclusive (run (manager env).step (calm configs) inputs) c) ↔
      AllSteps (manager env).step NoOverwrite (calm configs) inputs := by
  constructor
  · intro hexclusive
    by_contra hover
    obtain ⟨k, ⟨c, hk⟩, hout, -⟩ := leaked_of_not_allSteps env (sound_calm configs) hover
    exact hout c ((hexclusive c).reachable k hk)
  · intro hall c
    have hinv : ∀ p a, Sound p ∧ Owned p → NoOverwrite p a →
        Sound ((manager env).step p a) ∧ Owned ((manager env).step p a) :=
      fun p a hp hok => ⟨sound_step (careful_call env) p a hp.1, owned_step env hp.1 hp.2 hok⟩
    have howned := hall.invariant (fun p => Sound p ∧ Owned p) hinv ⟨sound_calm configs, nofun⟩
    have hlog := run_invariant Logged (logged_step env) (logged_calm configs) inputs
    exact exclusive_of_owned howned.2 hlog hquiet c

/-- One call after the other. -/
theorem exclusive_iff_in_turn :
    let inputs : List (Action Uuid Call Event) :=
      [.arrive (.start sampleConfig), .advance 0 .done 0, .advance 0 .done 0, .advance 0 .done 0,
       .arrive (.stop 1), .advance 1 .done 0, .advance 1 .done 0]
    ∀ c, Exclusive (run (manager plainEnv).step (calm .empty) inputs) c := by
  intro inputs
  have hquiet : (run (manager plainEnv).step (calm .empty) inputs).Quiet := by
    have hthreads : (run (manager plainEnv).step (calm .empty) inputs).threads =
        [⟨.start sampleConfig, .answer ()⟩, ⟨.stop 1, .answer ()⟩] := rfl
    intro t ht
    rw [hthreads] at ht
    simp only [List.mem_cons, List.not_mem_nil, or_false] at ht
    rcases ht with rfl | rfl <;> exact ⟨(), rfl⟩
  exact (exclusive_iff plainEnv .empty inputs hquiet).2
    ⟨trivial, trivial, trivial, rfl, trivial, trivial, trivial, trivial⟩

/-- Two starts that each remove before either inserts: the first task runs on, and nothing
leads to it. -/
theorem starts_leak_task :
    let inputs : List (Action Uuid Call Event) :=
      [.arrive (.start sampleConfig), .arrive (.start sampleConfig), .advance 0 .done 0,
       .advance 1 .done 0, .advance 0 .done 0, .advance 1 .done 0, .advance 0 .done 0,
       .advance 1 .done 0]
    let p := run (manager plainEnv).step (calm .empty) inputs
    p.Quiet ∧ p.state.live 0 = some 1 ∧ p.state.live 1 = some 1 ∧ ¬ Exclusive p 1 := by
  intro inputs p
  have hthreads : p.threads =
      [⟨.start sampleConfig, .answer ()⟩, ⟨.start sampleConfig, .answer ()⟩] := rfl
  refine ⟨?_, rfl, rfl, fun h => absurd (h.atMostOne 0 1 rfl rfl) (by decide)⟩
  intro t ht
  rw [hthreads] at ht
  simp only [List.mem_cons, List.not_mem_nil, or_false] at ht
  rcases ht with rfl | rfl <;> exact ⟨(), rfl⟩

end Feloxi.Broker
