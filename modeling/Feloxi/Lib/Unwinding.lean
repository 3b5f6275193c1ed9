import Feloxi.Lib.Handlers

/-!
# Feloxi.Lib.Unwinding

What some of the requests of a machine see of the others: the run is compared with the one in
which the others never get a step. It is enough to look at single operations. One of the others
leaves the two states alike, and an own one keeps them alike and gets replies that agree; then the
own requests are answered alike (`Unwinding.run_alone`), however the steps interleave.
-/

namespace Feloxi.Handlers

variable {ο : Type} {ρ : ο → Type} {α σ ν κ ω W : Type}

/-- The same, or answered alike. -/
def Similar (sim : α → α → Prop) (h h' : Handler ο ρ α) : Prop :=
  h = h' ∨ ∃ a a', h = .answer a ∧ h' = .answer a' ∧ sim a a'

/-- The handler goes on alike if replies agree. -/
def Handler.Tolerates (agree : (op : ο) → ρ op → ρ op → Prop) (sim : α → α → Prop) :
    Handler ο ρ α → Prop
  | .answer _ => True
  | .act op next =>
    (∀ r r', agree op r r' → Similar sim (next r) (next r')) ∧ ∀ r, (next r).Tolerates agree sim
  | .call op next failed =>
    (∀ r r', agree op r r' → Similar sim (next r) (next r')) ∧
      (∀ r, (next r).Tolerates agree sim) ∧ failed.Tolerates agree sim

/-- The requests that came in, after an input. -/
def Action.arrived (seen : List κ) : Action ν κ ω → List κ
  | .arrive k => seen ++ [k]
  | _ => seen

/-- Whether the input is left if only own threads take steps. -/
def Action.ofOwn (own : κ → Bool) (seen : List κ) : Action ν κ ω → Bool
  | .advance i _ _ => seen[i]?.any own
  | _ => true

/-- The inputs without the steps of the other threads; `seen` are the requests that came in
before. -/
def alone (own : κ → Bool) : List κ → List (Action ν κ ω) → List (Action ν κ ω)
  | _, [] => []
  | seen, a :: rest =>
    if a.ofOwn own seen then a :: alone own (a.arrived seen) rest
    else alone own (a.arrived seen) rest

theorem Machine.requests_step (m : Machine ο ρ α κ σ ν ω) (p : Pool ο ρ α κ σ)
    (a : Action ν κ ω) :
    (m.step p a).threads.map (·.request) = a.arrived (p.threads.map (·.request)) := by
  cases a with
  | arrive k => simp [step, Action.arrived]
  | world w => rfl
  | advance i fate nonce =>
      rw [step]
      split
      · rfl
      · rename_i t ht
        obtain ⟨hi, rfl⟩ := List.getElem?_eq_some_iff.1 ht
        have hset : p.threads.set i p.threads[i] = p.threads := List.set_getElem_self hi
        simp only [advance, List.map_set, Action.arrived]
        rw [← List.map_set, hset]

/-- The pool of a run, and that of the run without the others. -/
structure Pool.Alike (own : κ → Bool) (alike : σ → σ → Prop)
    (agree : (op : ο) → ρ op → ρ op → Prop) (sim : α → α → Prop) (p p' : Pool ο ρ α κ σ) :
    Prop where
  state : alike p.state p'.state
  requests : p'.threads.map (·.request) = p.threads.map (·.request)
  threads : ∀ (i : Nat) (t t' : Thread ο ρ α κ), p.threads[i]? = some t →
    p'.threads[i]? = some t' → own t.request = true →
    t.program.Tolerates agree sim ∧ Similar sim t.program t'.program

/-- What a step draws is fresh. -/
def Draws (fresh : ν → σ → Prop) (p : Pool ο ρ α κ σ) (a : Action ν κ ω) : Prop :=
  ∀ i fate nonce, a = .advance i fate nonce → fresh nonce p.state

section

variable [Preorder W]

/-- What single operations have to keep. -/
structure Unwinding (m : Machine ο ρ α κ σ ν ω) (own : κ → Bool) (c : κ → Contract W ο ρ α)
    (view : σ → W) (inv : σ → Prop) (fresh : ν → σ → Prop) (alike : σ → σ → Prop)
    (agree : (op : ο) → ρ op → ρ op → Prop) (sim : α → α → Prop) : Prop where
  stable : ∀ k, (c k).Stable
  honest : ∀ k s, inv s → Honest (c k) m.exec view s
  exec : ∀ k op nonce s, inv s → (c k).pre (view s) op → inv (m.exec op nonce s).1
  world : ∀ w s, inv s → inv (m.world w s) ∧ view s ≤ view (m.world w s)
  keeps : ∀ k w, Keeps (c k) w (m.program k)
  tolerates : ∀ k, own k = true → (m.program k).Tolerates agree sim
  ownStep : ∀ k op nonce s s', own k = true → inv s → fresh nonce s → (c k).pre (view s) op →
    alike s s' → alike (m.exec op nonce s).1 (m.exec op nonce s').1 ∧
      agree op (m.exec op nonce s).2 (m.exec op nonce s').2
  otherStep : ∀ k op nonce s s', own k = false → inv s → fresh nonce s → (c k).pre (view s) op →
    alike s s' → alike (m.exec op nonce s).1 s'
  worldStep : ∀ w s s', alike s s' → alike (m.world w s) (m.world w s')

variable {m : Machine ο ρ α κ σ ν ω} {own : κ → Bool} {c : κ → Contract W ο ρ α} {view : σ → W}
  {inv : σ → Prop} {fresh : ν → σ → Prop} {alike : σ → σ → Prop}
  {agree : (op : ο) → ρ op → ρ op → Prop} {sim : α → α → Prop}

/-- A step of an own thread in both runs. -/
theorem Unwinding.step_own (u : Unwinding m own c view inv fresh alike agree sim) {k : κ}
    (hown : own k = true) {s s' : σ} {h h' : Handler ο ρ α} (hs : inv s) {nonce : ν}
    (hfresh : fresh nonce s) (hkeeps : Keeps (c k) (view s) h) (hstates : alike s s')
    (htol : h.Tolerates agree sim) (hsim : Similar sim h h') (fate : Fate) :
    alike (h.step m.exec fate nonce s).1 (h'.step m.exec fate nonce s').1 ∧
      (h.step m.exec fate nonce s).2.Tolerates agree sim ∧
      Similar sim (h.step m.exec fate nonce s).2 (h'.step m.exec fate nonce s').2 := by
  rcases hsim with rfl | ⟨a, a', rfl, rfl, ha⟩
  -- both are at the same operation; what it replies agrees
  · cases h with
    | answer a => exact ⟨hstates, trivial, .inl rfl⟩
    | act op next =>
        obtain ⟨hnext, hreply⟩ := u.ownStep k op nonce s s' hown hs hfresh hkeeps.1 hstates
        exact ⟨hnext, htol.2 _, htol.1 _ _ hreply⟩
    | call op next failed =>
        obtain ⟨hnext, hreply⟩ := u.ownStep k op nonce s s' hown hs hfresh hkeeps.1 hstates
        cases fate with
        | done => exact ⟨hnext, htol.2.1 _, htol.1 _ _ hreply⟩
        | failed => exact ⟨hstates, htol.2.2, .inl rfl⟩
        | lost => exact ⟨hnext, htol.2.2, .inl rfl⟩
  -- both have answered
  · exact ⟨hstates, trivial, .inr ⟨a, a', rfl, rfl, ha⟩⟩

/-- A step of another thread. -/
theorem Unwinding.step_other (u : Unwinding m own c view inv fresh alike agree sim) {k : κ}
    (hown : own k = false) {s s' : σ} {h : Handler ο ρ α} (hs : inv s) {nonce : ν}
    (hfresh : fresh nonce s) (hkeeps : Keeps (c k) (view s) h) (hstates : alike s s')
    (fate : Fate) : alike (h.step m.exec fate nonce s).1 s' := by
  cases h with
  | answer a => exact hstates
  | act op next => exact u.otherStep k op nonce s s' hown hs hfresh hkeeps.1 hstates
  | call op next failed =>
      cases fate with
      | failed => exact hstates
      | _ => exact u.otherStep k op nonce s s' hown hs hfresh hkeeps.1 hstates

theorem Unwinding.underContract_step (u : Unwinding m own c view inv fresh alike agree sim)
    {p : Pool ο ρ α κ σ} (a : Action ν κ ω) (hp : p.UnderContract c view inv) :
    (m.step p a).UnderContract c view inv :=
  m.underContract_step u.stable u.honest u.exec u.world (fun r _ => u.keeps r _) hp

/-- **One step** of the run, and of the run without the others. -/
theorem Unwinding.step (u : Unwinding m own c view inv fresh alike agree sim)
    {p p' : Pool ο ρ α κ σ} (hp : p.UnderContract c view inv) (h : p.Alike own alike agree sim p')
    (a : Action ν κ ω) (hfresh : Draws fresh p a) :
    (m.step p a).Alike own alike agree sim
      (if a.ofOwn own (p.threads.map (·.request)) then m.step p' a else p') := by
  cases a with
  | arrive k =>
      have hlength : p'.threads.length = p.threads.length := by
        simpa using congrArg List.length h.requests
      have hkept : (Action.arrive k : Action ν κ ω).ofOwn own (p.threads.map (·.request)) = true :=
        rfl
      rw [if_pos hkept]
      refine ⟨h.state, by simp only [m.requests_step, h.requests], ?_⟩
      intro i t t' ht ht' hown
      rcases Nat.lt_trichotomy i p.threads.length with hi | rfl | hi
      · rw [Machine.step, List.getElem?_append_left hi] at ht
        rw [Machine.step, List.getElem?_append_left (hlength ▸ hi)] at ht'
        exact h.threads i t t' ht ht' hown
      · obtain rfl : ⟨k, m.program k⟩ = t := by simpa [Machine.step] using ht
        obtain rfl : ⟨k, m.program k⟩ = t' := by
          rw [← hlength] at ht'
          simpa [Machine.step] using ht'
        exact ⟨u.tolerates k hown, .inl rfl⟩
      · have hnone : (m.step p (.arrive k)).threads[i]? = none := by
          simp only [Machine.step, List.getElem?_eq_none_iff, List.length_append,
            List.length_singleton]
          omega
        cases hnone.symm.trans ht
  | world w => exact ⟨u.worldStep w _ _ h.state, h.requests, h.threads⟩
  | advance i fate nonce =>
      -- threads keep their places: whose a step is can be told in either run
      have hrequest : p'.threads[i]?.map (·.request) = p.threads[i]?.map (·.request) := by
        rw [← List.getElem?_map, ← List.getElem?_map, h.requests]
      cases ht : p.threads[i]? with
      | none => simpa [Action.ofOwn, Machine.step, ht] using h
      | some t =>
          obtain ⟨t', ht', hsame⟩ : ∃ t', p'.threads[i]? = some t' ∧ t'.request = t.request := by
            simpa [ht] using hrequest
          have hkeeps := hp.threads t (List.mem_of_getElem? ht)
          have hnonce := hfresh i fate nonce rfl
          have hofOwn : (Action.advance i fate nonce : Action ν κ ω).ofOwn own
              (p.threads.map (·.request)) = own t.request := by
            simp [Action.ofOwn, ht]
          rw [hofOwn]
          cases hown : own t.request with
          | true =>
              obtain ⟨htol, hsim⟩ := h.threads i t t' ht ht' hown
              obtain ⟨hstate, htol, hsim⟩ :=
                u.step_own hown hp.state hnonce hkeeps h.state htol hsim fate
              rw [if_pos rfl]
              refine ⟨?_, by simp only [m.requests_step, h.requests], ?_⟩
              · rwa [m.step_advance ht, m.step_advance ht']
              · rw [m.step_advance ht, m.step_advance ht']
                intro j x x' hx hx' hownx
                rcases getElem?_set_cases hx with ⟨rfl, rfl⟩ | ⟨hj, hx⟩
                · rcases getElem?_set_cases hx' with ⟨-, rfl⟩ | ⟨hj, -⟩
                  · exact ⟨htol, hsim⟩
                  · exact absurd rfl hj
                · rcases getElem?_set_cases hx' with ⟨hj', -⟩ | ⟨-, hx'⟩
                  · exact absurd hj' hj
                  · exact h.threads j x x' hx hx' hownx
          | false =>
              rw [if_neg Bool.false_ne_true]
              refine ⟨?_, by simp only [m.requests_step, h.requests, Action.arrived], ?_⟩
              · rw [m.step_advance ht]
                exact u.step_other hown hp.state hnonce hkeeps h.state fate
              · rw [m.step_advance ht]
                intro j x x' hx hx' hownx
                rcases getElem?_set_cases hx with ⟨rfl, rfl⟩ | ⟨-, hx⟩
                · exact absurd hownx (by simp [hown])
                · exact h.threads j x x' hx hx' hownx

/-- **The own requests are answered as if they were alone**, and leave what they would leave. -/
theorem Unwinding.run_alone (u : Unwinding m own c view inv fresh alike agree sim)
    {p p' : Pool ο ρ α κ σ} (hp : p.UnderContract c view inv) (h : p.Alike own alike agree sim p')
    (inputs : List (Action ν κ ω)) (hfresh : Runs.AllSteps m.step (Draws fresh) p inputs) :
    (Runs.run m.step p inputs).Alike own alike agree sim
      (Runs.run m.step p' (alone own (p.threads.map (·.request)) inputs)) := by
  induction inputs generalizing p p' with
  | nil => exact h
  | cons a rest ih =>
      -- the contract is that of the full run; the other one needs none
      have hstep := u.step hp h a hfresh.1
      have hrest := ih (u.underContract_step a hp) hstep hfresh.2
      rw [m.requests_step] at hrest
      rw [alone]
      split
      · rwa [if_pos ‹_›] at hrest
      · rwa [if_neg ‹_›] at hrest

end

end Feloxi.Handlers
