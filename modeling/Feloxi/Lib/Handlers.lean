import Feloxi.Lib.Runs
import Mathlib.Data.List.Basic
import Mathlib.Order.Basic

/-!
# Feloxi.Lib.Handlers

Request handlers that run at the same time over one shared state. A handler is a tree of
operations with a continuation on each reply; a machine keeps a pool of them and moves one
by one operation at a time, so that a run is any interleaving of any number of requests.

A call of a store can fail, before it took effect or after. What happens outside the
handlers (a clock, a background task) is a step of the world.
-/

namespace Feloxi.Handlers

/-- What becomes of a call. -/
inductive Fate where
  | done
  /-- It fails and has no effect. -/
  | failed
  /-- It has its effect, but the caller sees a failure. -/
  | lost
  deriving Repr, DecidableEq

/-- A handler over the operations `ο` with replies `ρ`. -/
inductive Handler (ο : Type) (ρ : ο → Type) (α : Type) where
  | answer (a : α)
  /-- In memory: cannot fail. -/
  | act (op : ο) (next : ρ op → Handler ο ρ α)
  /-- A call of a store, and how the handler goes on when it fails. -/
  | call (op : ο) (next : ρ op → Handler ο ρ α) (failed : Handler ο ρ α)

variable {ο : Type} {ρ : ο → Type} {α β σ ν κ ω : Type}

namespace Handler

def bind (h : Handler ο ρ α) (k : α → Handler ο ρ β) : Handler ο ρ β :=
  match h with
  | .answer a => k a
  | .act op next => .act op fun reply => (next reply).bind k
  | .call op next failed => .call op (fun reply => (next reply).bind k) (failed.bind k)

@[simp] theorem bind_answer (a : α) (k : α → Handler ο ρ β) : (answer a).bind k = k a := rfl

@[simp] theorem bind_act (op : ο) (next : ρ op → Handler ο ρ α) (k : α → Handler ο ρ β) :
    (act op next).bind k = .act op fun reply => (next reply).bind k := rfl

@[simp] theorem bind_call (op : ο) (next : ρ op → Handler ο ρ α) (failed : Handler ο ρ α)
    (k : α → Handler ο ρ β) :
    (call op next failed).bind k = .call op (fun reply => (next reply).bind k) (failed.bind k) :=
  rfl

/-- One step of a handler. -/
def step (exec : (op : ο) → ν → σ → σ × ρ op) (fate : Fate) (nonce : ν) (s : σ) :
    Handler ο ρ α → σ × Handler ο ρ α
  | .answer a => (s, .answer a)
  | .act op next => ((exec op nonce s).1, next (exec op nonce s).2)
  | .call op next failed =>
    match fate with
    | .done => ((exec op nonce s).1, next (exec op nonce s).2)
    | .failed => (s, failed)
    | .lost => ((exec op nonce s).1, failed)

/-- The operation that a step carries out. -/
def effect (fate : Fate) : Handler ο ρ α → Option ο
  | .answer _ => none
  | .act op _ => some op
  | .call op _ _ => if fate = .failed then none else some op

/-- A handler on its own, from its first step to its answer. -/
def run (exec : (op : ο) → ν → σ → σ × ρ op) :
    Handler ο ρ α → (Nat → Fate × ν) → σ → σ × α
  | .answer a, _, s => (s, a)
  | .act op next, script, s =>
    (next (exec op (script 0).2 s).2).run exec (fun n => script (n + 1)) (exec op (script 0).2 s).1
  | .call op next failed, script, s =>
    match (script 0).1 with
    | .done =>
      (next (exec op (script 0).2 s).2).run exec (fun n => script (n + 1))
        (exec op (script 0).2 s).1
    | .failed => failed.run exec (fun n => script (n + 1)) s
    | .lost => failed.run exec (fun n => script (n + 1)) (exec op (script 0).2 s).1

/-- The answer of a handler that has given one. -/
def answered : Handler ο ρ α → Option α
  | .answer a => some a
  | _ => none

/-- The operation a handler is about to carry out. -/
def nextOp : Handler ο ρ α → Option ο
  | .answer _ => none
  | .act op _ => some op
  | .call op _ _ => some op

/-- A step that carries nothing out is a call that failed. -/
theorem effect_eq_none {h : Handler ο ρ α} {op : ο} {fate : Fate} (hnext : h.nextOp = some op)
    (heffect : h.effect fate = none) : fate = .failed := by
  cases h with
  | answer a => cases hnext
  | act o next => cases heffect
  | call o next failed =>
      by_contra hfate
      rw [effect, if_neg hfate] at heffect
      cases heffect

/-- Every operation the handler may carry out satisfies `P`. -/
def AllOps (P : ο → Prop) : Handler ο ρ α → Prop
  | .answer _ => True
  | .act op next => P op ∧ ∀ reply, (next reply).AllOps P
  | .call op next failed => P op ∧ (∀ reply, (next reply).AllOps P) ∧ failed.AllOps P

theorem AllOps.bind {P : ο → Prop} {h : Handler ο ρ α} {k : α → Handler ο ρ β} (hh : h.AllOps P)
    (hk : ∀ a, (k a).AllOps P) : (h.bind k).AllOps P := by
  induction h with
  | answer a => exact hk a
  | act op next ih => exact ⟨hh.1, fun reply => ih reply (hh.2 reply)⟩
  | call op next failed ih ihFailed =>
      exact ⟨hh.1, fun reply => ih reply (hh.2.1 reply), ihFailed hh.2.2⟩

end Handler

/-! ### Gates -/

/-- No answer that satisfies `good` is given before a reply that satisfies `gate` came in; a
call that fails replies `none`. -/
def Gated (gate : (op : ο) → Option (ρ op) → Prop) (good : α → Prop) : Handler ο ρ α → Prop
  | .answer a => ¬ good a
  | .act op next => ∀ reply, ¬ gate op (some reply) → Gated gate good (next reply)
  | .call op next failed =>
    (∀ reply, ¬ gate op (some reply) → Gated gate good (next reply)) ∧
      (¬ gate op none → Gated gate good failed)

section Gates

variable {gate : (op : ο) → Option (ρ op) → Prop} {good : α → Prop}

/-- The handler gives no answer in `good`. -/
def Handler.Never (good : α → Prop) (h : Handler ο ρ α) : Prop := Gated (fun _ _ => False) good h

/-- Once the handler carries out an operation in `P`, it gives no answer in `good`. -/
def Handler.Commits (P : ο → Prop) (good : α → Prop) : Handler ο ρ α → Prop
  | .answer _ => True
  | .act op next => ∀ reply, (next reply).Commits P good ∧ (P op → (next reply).Never good)
  | .call op next failed =>
    (∀ reply, (next reply).Commits P good ∧ (P op → (next reply).Never good)) ∧
      failed.Commits P good ∧ (P op → failed.Never good)

theorem Handler.Commits.of_never {P : ο → Prop} {h : Handler ο ρ α} (hh : h.Never good) :
    h.Commits P good := by
  induction h with
  | answer a => trivial
  | act op next ih => exact fun reply => ⟨ih reply (hh reply not_false), fun _ => hh reply not_false⟩
  | call op next failed ih ihFailed =>
      refine ⟨fun reply => ?_, ihFailed (hh.2 not_false), fun _ => hh.2 not_false⟩
      exact ⟨ih reply (hh.1 reply not_false), fun _ => hh.1 reply not_false⟩

end Gates

/-! ### Going through -/

/-- The handler carries out operations in `P` only, and ends with a `good` answer if no call
fails and every reply satisfies `ok`. -/
def Handler.Delivers (P : ο → Prop) (ok : (op : ο) → ρ op → Prop) (good : α → Prop) :
    Handler ο ρ α → Prop
  | .answer a => good a
  | .act op next => P op ∧ ∀ reply, ok op reply → (next reply).Delivers P ok good
  | .call op next _ => P op ∧ ∀ reply, ok op reply → (next reply).Delivers P ok good

/-- On its own from `s`, no call of the handler fails and every reply satisfies `ok`. -/
def Handler.Smooth (exec : (op : ο) → ν → σ → σ × ρ op) (ok : (op : ο) → ρ op → Prop) :
    Handler ο ρ α → (Nat → Fate × ν) → σ → Prop
  | .answer _, _, _ => True
  | .act op next, script, s =>
    ok op (exec op (script 0).2 s).2 ∧
      (next (exec op (script 0).2 s).2).Smooth exec ok (fun n => script (n + 1))
        (exec op (script 0).2 s).1
  | .call op next _, script, s =>
    (script 0).1 = .done ∧ ok op (exec op (script 0).2 s).2 ∧
      (next (exec op (script 0).2 s).2).Smooth exec ok (fun n => script (n + 1))
        (exec op (script 0).2 s).1

section Delivery

variable {P : ο → Prop} {ok : (op : ο) → ρ op → Prop} {good : α → Prop}

theorem Handler.Delivers.mono {Q : ο → Prop} {h : Handler ο ρ α} (hh : h.Delivers P ok good)
    (hPQ : ∀ op, P op → Q op) : h.Delivers Q ok good := by
  induction h with
  | answer a => exact hh
  | act op next ih => exact ⟨hPQ op hh.1, fun reply hreply => ih reply (hh.2 reply hreply)⟩
  | call op next failed ih _ =>
      exact ⟨hPQ op hh.1, fun reply hreply => ih reply (hh.2 reply hreply)⟩

/-- A handler on its own delivers, if it goes through. -/
theorem Handler.Delivers.run {exec : (op : ο) → ν → σ → σ × ρ op} {h : Handler ο ρ α}
    (hh : h.Delivers P ok good) {script : Nat → Fate × ν} {s : σ}
    (hsmooth : h.Smooth exec ok script s) : good (h.run exec script s).2 := by
  induction h generalizing script s with
  | answer a => exact hh
  | act op next ih => exact ih _ (hh.2 _ hsmooth.1) hsmooth.2
  | call op next failed ih _ =>
      obtain ⟨hdone, hok, hrest⟩ := hsmooth
      simp only [Handler.run, hdone]
      exact ih _ (hh.2 _ hok) hrest

/-- Once a reply does not satisfy `ok`, or a call fails, there is no `good` answer. -/
def Handler.Strict (ok : (op : ο) → ρ op → Prop) (good : α → Prop) : Handler ο ρ α → Prop
  | .answer _ => True
  | .act op next => ∀ reply,
    (ok op reply → (next reply).Strict ok good) ∧ (¬ ok op reply → (next reply).Never good)
  | .call op next failed =>
    (∀ reply,
      (ok op reply → (next reply).Strict ok good) ∧ (¬ ok op reply → (next reply).Never good)) ∧
      failed.Never good

theorem Handler.Never.run {exec : (op : ο) → ν → σ → σ × ρ op} {h : Handler ο ρ α}
    (hh : h.Never good) (script : Nat → Fate × ν) (s : σ) : ¬ good (h.run exec script s).2 := by
  induction h generalizing script s with
  | answer a => exact hh
  | act op next ih => exact ih _ (hh _ not_false) _ _
  | call op next failed ih ihFailed =>
      rw [Handler.run]
      split
      · exact ih _ (hh.1 _ not_false) _ _
      · exact ihFailed (hh.2 not_false) _ _
      · exact ihFailed (hh.2 not_false) _ _

/-- A strict handler gives a `good` answer only if it goes through. -/
theorem Handler.Strict.run {exec : (op : ο) → ν → σ → σ × ρ op} {h : Handler ο ρ α}
    (hh : h.Strict ok good) {script : Nat → Fate × ν} {s : σ}
    (hnot : ¬ h.Smooth exec ok script s) : ¬ good (h.run exec script s).2 := by
  induction h generalizing script s with
  | answer a => exact absurd trivial hnot
  | act op next ih =>
      rw [Handler.run]
      by_cases hok : ok op (exec op (script 0).2 s).2
      · exact ih _ ((hh _).1 hok) fun hrest => hnot ⟨hok, hrest⟩
      · exact ((hh _).2 hok).run _ _
  | call op next failed ih _ =>
      rw [Handler.run]
      split
      · rename_i hdone
        by_cases hok : ok op (exec op (script 0).2 s).2
        · exact ih _ ((hh.1 _).1 hok) fun hrest => hnot ⟨hdone, hok, hrest⟩
        · exact ((hh.1 _).2 hok).run _ _
      · exact hh.2.run _ _
      · exact hh.2.run _ _

end Delivery

/-- What the operations of a handler keep holds when it has answered. -/
theorem Handler.AllOps.run {exec : (op : ο) → ν → σ → σ × ρ op} {P : ο → Prop} {I : σ → Prop}
    (hkeep : ∀ op nonce s, P op → I s → I (exec op nonce s).1) {h : Handler ο ρ α}
    (hops : h.AllOps P) {script : Nat → Fate × ν} {s : σ} (hs : I s) :
    I (h.run exec script s).1 := by
  induction h generalizing script s with
  | answer a => exact hs
  | act op next ih => exact ih _ (hops.2 _) (hkeep _ _ _ hops.1 hs)
  | call op next failed ih ihFailed =>
      rw [Handler.run]
      split
      · exact ih _ (hops.2.1 _) (hkeep _ _ _ hops.1 hs)
      · exact ihFailed hops.2.2 hs
      · exact ihFailed hops.2.2 (hkeep _ _ _ hops.1 hs)

/-! ### Machines -/

structure Thread (ο : Type) (ρ : ο → Type) (α κ : Type) where
  request : κ
  program : Handler ο ρ α

structure Pool (ο : Type) (ρ : ο → Type) (α κ σ : Type) where
  state : σ
  threads : List (Thread ο ρ α κ)
  /-- The operations that had their effect, each with the request it was carried out for. -/
  log : List (κ × ο)

inductive Action (ν κ ω : Type) where
  | arrive (request : κ)
  /-- Thread `i` takes a step; the nonce is what the step draws at random. -/
  | advance (i : Nat) (fate : Fate) (nonce : ν)
  | world (w : ω)

structure Machine (ο : Type) (ρ : ο → Type) (α κ σ ν ω : Type) where
  exec : (op : ο) → ν → σ → σ × ρ op
  program : κ → Handler ο ρ α
  world : ω → σ → σ

namespace Machine

variable (m : Machine ο ρ α κ σ ν ω)

/-- A step of the thread at `i`. -/
def advance (p : Pool ο ρ α κ σ) (i : Nat) (t : Thread ο ρ α κ) (fate : Fate) (nonce : ν) :
    Pool ο ρ α κ σ where
  state := (t.program.step m.exec fate nonce p.state).1
  threads := p.threads.set i ⟨t.request, (t.program.step m.exec fate nonce p.state).2⟩
  log := p.log ++ ((t.program.effect fate).map fun op => (t.request, op)).toList

def step (p : Pool ο ρ α κ σ) : Action ν κ ω → Pool ο ρ α κ σ
  | .arrive request => { p with threads := p.threads ++ [⟨request, m.program request⟩] }
  | .advance i fate nonce =>
    match p.threads[i]? with
    | none => p
    | some t => m.advance p i t fate nonce
  | .world w => { p with state := m.world w p.state }

end Machine

theorem Machine.step_advance (m : Machine ο ρ α κ σ ν ω) {p : Pool ο ρ α κ σ} {i : Nat}
    {t : Thread ο ρ α κ} (ht : p.threads[i]? = some t) (fate : Fate) (nonce : ν) :
    m.step p (.advance i fate nonce) = m.advance p i t fate nonce := by
  simp only [step, ht]

/-- No request is in progress. -/
def Pool.Quiet (p : Pool ο ρ α κ σ) : Prop := ∀ t ∈ p.threads, ∃ a, t.program = .answer a

/-! ### One step -/

/-- What a step of a handler can be: the state and the handler before and after. -/
inductive Moves (exec : (op : ο) → ν → σ → σ × ρ op) (s : σ) :
    Handler ο ρ α → σ → Handler ο ρ α → Option ο → Prop where
  | act (op : ο) (next : ρ op → Handler ο ρ α) (nonce : ν) :
      Moves exec s (.act op next) (exec op nonce s).1 (next (exec op nonce s).2) (some op)
  | done (op : ο) (next : ρ op → Handler ο ρ α) (failed : Handler ο ρ α) (nonce : ν) :
      Moves exec s (.call op next failed) (exec op nonce s).1 (next (exec op nonce s).2) (some op)
  | failed (op : ο) (next : ρ op → Handler ο ρ α) (failed : Handler ο ρ α) :
      Moves exec s (.call op next failed) s failed none
  | lost (op : ο) (next : ρ op → Handler ο ρ α) (failed : Handler ο ρ α) (nonce : ν) :
      Moves exec s (.call op next failed) (exec op nonce s).1 failed (some op)

/-- A handler that has answered moves no more. -/
theorem Moves.not_answered {exec : (op : ο) → ν → σ → σ × ρ op} {s s' : σ} {a : α}
    {h' : Handler ο ρ α} {op : Option ο} : ¬ Moves exec s (.answer a) s' h' op := nofun

/-- The state after a step: as it was, or as the operation left it. -/
theorem Moves.state {exec : (op : ο) → ν → σ → σ × ρ op} {s s' : σ} {h h' : Handler ο ρ α}
    {op : Option ο} (hmove : Moves exec s h s' h' op) :
    op = none ∧ s' = s ∨
      ∃ o nonce, op = some o ∧ h.nextOp = some o ∧ s' = (exec o nonce s).1 := by
  cases hmove with
  | act o next nonce => exact .inr ⟨o, nonce, rfl, rfl, rfl⟩
  | done o next failed nonce => exact .inr ⟨o, nonce, rfl, rfl, rfl⟩
  | failed => exact .inl ⟨rfl, rfl⟩
  | lost o next failed nonce => exact .inr ⟨o, nonce, rfl, rfl, rfl⟩

/-- A step of one handler after another is a step of the first, or of the second if the
first has answered. -/
theorem Moves.of_bind {exec : (op : ο) → ν → σ → σ × ρ op} {s s' : σ} {p : Handler ο ρ α}
    {k : α → Handler ο ρ β} {h' : Handler ο ρ β} {op : Option ο}
    (hmove : Moves exec s (p.bind k) s' h' op) :
    (∃ a, p = .answer a ∧ Moves exec s (k a) s' h' op) ∨
      ∃ p', h' = p'.bind k ∧ Moves exec s p s' p' op := by
  cases p with
  | answer a => exact .inl ⟨a, rfl, hmove⟩
  | act o next =>
      right
      cases hmove with
      | act _ _ nonce => exact ⟨_, rfl, .act o next nonce⟩
  | call o next failed =>
      right
      cases hmove with
      | done _ _ _ nonce => exact ⟨_, rfl, .done o next failed nonce⟩
      | failed => exact ⟨_, rfl, .failed o next failed⟩
      | lost _ _ _ nonce => exact ⟨_, rfl, .lost o next failed nonce⟩

/-- A step within the operations that a handler may carry out. -/
theorem Handler.AllOps.moves {exec : (op : ο) → ν → σ → σ × ρ op} {s s' : σ} {h h' : Handler ο ρ α}
    {op : Option ο} {P : ο → Prop} (hops : h.AllOps P) (hmove : Moves exec s h s' h' op) :
    h'.AllOps P ∧ ∀ o, op = some o → P o := by
  cases hmove with
  | act o next nonce => exact ⟨hops.2 _, fun _ h => by cases h; exact hops.1⟩
  | done o next failed nonce => exact ⟨hops.2.1 _, fun _ h => by cases h; exact hops.1⟩
  | failed o next failed => exact ⟨hops.2.2, nofun⟩
  | lost o next failed nonce => exact ⟨hops.2.2, fun _ h => by cases h; exact hops.1⟩

/-- A gated handler stays gated, or its step was the gate. -/
theorem Gated.moves {exec : (op : ο) → ν → σ → σ × ρ op} {s s' : σ} {h h' : Handler ο ρ α}
    {op : Option ο} {gate : (op : ο) → Option (ρ op) → Prop} {good : α → Prop}
    (hgated : Gated gate good h) (hmove : Moves exec s h s' h' op) :
    Gated gate good h' ∨
      (∃ o nonce, op = some o ∧ s' = (exec o nonce s).1 ∧ gate o (some (exec o nonce s).2)) ∨
      ∃ o, gate o none := by
  by_cases hnone : ∃ o, gate o none
  · exact .inr (.inr hnone)
  · have hclosed : ∀ o, ¬ gate o none := fun o ho => hnone ⟨o, ho⟩
    cases hmove with
    | act o next nonce =>
        by_cases hgate : gate o (some (exec o nonce s).2)
        · exact .inr (.inl ⟨o, nonce, rfl, rfl, hgate⟩)
        · exact .inl (hgated _ hgate)
    | done o next failed nonce =>
        by_cases hgate : gate o (some (exec o nonce s).2)
        · exact .inr (.inl ⟨o, nonce, rfl, rfl, hgate⟩)
        · exact .inl (hgated.1 _ hgate)
    | failed o next failed => exact .inl (hgated.2 (hclosed o))
    | lost o next failed nonce => exact .inl (hgated.2 (hclosed o))

theorem Handler.Never.moves {exec : (op : ο) → ν → σ → σ × ρ op} {s s' : σ}
    {h h' : Handler ο ρ α} {op : Option ο} {good : α → Prop} (hnever : h.Never good)
    (hmove : Moves exec s h s' h' op) : h'.Never good := by
  rcases Gated.moves hnever hmove with h | ⟨_, _, _, _, h⟩ | ⟨_, h⟩
  · exact h
  · exact h.elim
  · exact h.elim

theorem Handler.Commits.moves {exec : (op : ο) → ν → σ → σ × ρ op} {s s' : σ}
    {h h' : Handler ο ρ α} {op : Option ο} {P : ο → Prop} {good : α → Prop}
    (hcommits : h.Commits P good) (hmove : Moves exec s h s' h' op) :
    h'.Commits P good ∧ ∀ o, op = some o → P o → h'.Never good := by
  cases hmove with
  | act o next nonce =>
      exact ⟨(hcommits _).1, fun _ h hP => by cases h; exact (hcommits _).2 hP⟩
  | done o next failed nonce =>
      exact ⟨(hcommits.1 _).1, fun _ h hP => by cases h; exact (hcommits.1 _).2 hP⟩
  | failed o next failed => exact ⟨hcommits.2.1, nofun⟩
  | lost o next failed nonce =>
      exact ⟨hcommits.2.1, fun _ h hP => by cases h; exact hcommits.2.2 hP⟩

theorem Handler.step_moves (exec : (op : ο) → ν → σ → σ × ρ op) (fate : Fate) (nonce : ν) (s : σ)
    (h : Handler ο ρ α) :
    (∃ a, h = .answer a) ∨
      Moves exec s h (h.step exec fate nonce s).1 (h.step exec fate nonce s).2 (h.effect fate) := by
  cases h with
  | answer a => exact .inl ⟨a, rfl⟩
  | act op next => exact .inr (.act op next nonce)
  | call op next failed =>
      cases fate with
      | done => exact .inr (.done op next failed nonce)
      | failed => exact .inr (.failed op next failed)
      | lost => exact .inr (.lost op next failed nonce)

/-- **What a step of a machine can be.** -/
theorem Machine.step_cases (m : Machine ο ρ α κ σ ν ω) (p : Pool ο ρ α κ σ) (a : Action ν κ ω) :
    m.step p a = p ∨
    (∃ request, a = .arrive request ∧
      m.step p a = { p with threads := p.threads ++ [⟨request, m.program request⟩] }) ∨
    (∃ i fate nonce t s' h' op, a = .advance i fate nonce ∧ p.threads[i]? = some t ∧
      t.program.effect fate = op ∧ Moves m.exec p.state t.program s' h' op ∧
      m.step p a = { state := s', threads := p.threads.set i ⟨t.request, h'⟩,
                     log := p.log ++ (op.map fun op => (t.request, op)).toList }) ∨
    ∃ w, a = .world w ∧ m.step p a = { p with state := m.world w p.state } := by
  cases a with
  | arrive request => exact .inr (.inl ⟨request, rfl, rfl⟩)
  | world w => exact .inr (.inr (.inr ⟨w, rfl, rfl⟩))
  | advance i fate nonce =>
      simp only [step]
      cases ht : p.threads[i]? with
      | none => exact .inl rfl
      | some t =>
          rcases Handler.step_moves m.exec fate nonce p.state t.program with ⟨answer, hanswer⟩ | hmove
          · left
            have hset : p.threads.set i ⟨t.request, .answer answer⟩ = p.threads := by
              obtain ⟨hi, rfl⟩ := List.getElem?_eq_some_iff.1 ht
              rw [← hanswer]
              exact List.set_getElem_self hi
            simp [advance, hanswer, Handler.step, Handler.effect, hset]
          · exact .inr (.inr (.inl ⟨i, fate, nonce, t, _, _, _, rfl, ht, rfl, hmove, rfl⟩))

/-! ### Contracts -/

/-- What handlers promise of their operations and answers, and may assume of the replies, in
a world `W` that only grows. -/
structure Contract (W : Type) (ο : Type) (ρ : ο → Type) (α : Type) where
  pre : W → ο → Prop
  post : W → (op : ο) → ρ op → Prop
  ans : W → α → Prop

section Contracts

variable {W : Type} [Preorder W]

/-- The handler keeps the contract from the world `w` on, whatever happens between its
steps. -/
def Keeps (c : Contract W ο ρ α) : W → Handler ο ρ α → Prop
  | w, .answer a => c.ans w a
  | w, .act op next =>
    c.pre w op ∧ ∀ w' reply, w ≤ w' → c.post w' op reply → Keeps c w' (next reply)
  | w, .call op next failed =>
    c.pre w op ∧ (∀ w' reply, w ≤ w' → c.post w' op reply → Keeps c w' (next reply)) ∧
      ∀ w', w ≤ w' → Keeps c w' failed

/-- What is promised stays true. -/
structure Contract.Stable (c : Contract W ο ρ α) : Prop where
  pre : ∀ {w w' op}, w ≤ w' → c.pre w op → c.pre w' op
  ans : ∀ {w w' a}, w ≤ w' → c.ans w a → c.ans w' a

theorem Keeps.mono {c : Contract W ο ρ α} (hc : c.Stable) {w w' : W} (hle : w ≤ w')
    {h : Handler ο ρ α} (hk : Keeps c w h) : Keeps c w' h := by
  cases h with
  | answer a => exact hc.ans hle hk
  | act op next =>
      obtain ⟨hpre, hnext⟩ := hk
      exact ⟨hc.pre hle hpre, fun v reply hv => hnext v reply (hle.trans hv)⟩
  | call op next failed =>
      obtain ⟨hpre, hnext, hfailed⟩ := hk
      exact ⟨hc.pre hle hpre, fun v reply hv => hnext v reply (hle.trans hv),
        fun v hv => hfailed v (hle.trans hv)⟩

/-- One handler after another; the second may assume the answer of the first. -/
theorem Keeps.bind {c : Contract W ο ρ α} {ans : W → β → Prop} {w : W} {h : Handler ο ρ α}
    {k : α → Handler ο ρ β} (hk : Keeps c w h)
    (hrest : ∀ w' a, w ≤ w' → c.ans w' a → Keeps ⟨c.pre, c.post, ans⟩ w' (k a)) :
    Keeps ⟨c.pre, c.post, ans⟩ w (h.bind k) := by
  induction h generalizing w with
  | answer a => exact hrest w a le_rfl hk
  | act op next ih =>
      obtain ⟨hpre, hnext⟩ := hk
      refine ⟨hpre, fun v reply hv hpost => ih reply (hnext v reply hv hpost) ?_⟩
      exact fun u a hu => hrest u a (hv.trans hu)
  | call op next failed ih ihFailed =>
      obtain ⟨hpre, hnext, hfailed⟩ := hk
      refine ⟨hpre, fun v reply hv hpost => ih reply (hnext v reply hv hpost) ?_,
        fun v hv => ihFailed (hfailed v hv) ?_⟩
      · exact fun u a hu => hrest u a (hv.trans hu)
      · exact fun u a hu => hrest u a (hv.trans hu)

/-- A contract that asks nothing of a handler. -/
theorem Keeps.of_ans {c : Contract W ο ρ α} (hpre : ∀ w op, c.pre w op) (hans : ∀ w a, c.ans w a)
    (w : W) (h : Handler ο ρ α) : Keeps c w h := by
  induction h generalizing w with
  | answer a => exact hans w a
  | act op next ih => exact ⟨hpre w op, fun v reply _ _ => ih reply v⟩
  | call op next failed ih ihFailed =>
      exact ⟨hpre w op, fun v reply _ _ => ih reply v, fun v _ => ihFailed v⟩

/-- The operations grow the world and keep what the contract says of their replies. -/
def Honest (c : Contract W ο ρ α) (exec : (op : ο) → ν → σ → σ × ρ op) (view : σ → W)
    (s : σ) : Prop :=
  ∀ op nonce, c.pre (view s) op →
    view s ≤ view (exec op nonce s).1 ∧ c.post (view (exec op nonce s).1) op (exec op nonce s).2

/-- **A step keeps the contract.** -/
theorem Keeps.moves {c : Contract W ο ρ α} {exec : (op : ο) → ν → σ → σ × ρ op} {view : σ → W}
    {s s' : σ} {h h' : Handler ο ρ α} {op : Option ο} (hhonest : Honest c exec view s)
    (hmove : Moves exec s h s' h' op) (hk : Keeps c (view s) h) :
    view s ≤ view s' ∧ Keeps c (view s') h' := by
  cases hmove with
  | act op next nonce =>
      obtain ⟨hle, hpost⟩ := hhonest op nonce hk.1
      exact ⟨hle, hk.2 _ _ hle hpost⟩
  | done op next failed nonce =>
      obtain ⟨hle, hpost⟩ := hhonest op nonce hk.1
      exact ⟨hle, hk.2.1 _ _ hle hpost⟩
  | failed op next failed => exact ⟨le_rfl, hk.2.2 _ le_rfl⟩
  | lost op next failed nonce =>
      obtain ⟨hle, -⟩ := hhonest op nonce hk.1
      exact ⟨hle, hk.2.2 _ hle⟩

/-- **So does a whole handler**, run on its own, and its answer is as promised. -/
theorem Keeps.run {c : Contract W ο ρ α} {exec : (op : ο) → ν → σ → σ × ρ op} {view : σ → W}
    (inv : σ → Prop) (hhonest : ∀ s, inv s → Honest c exec view s)
    (hinv : ∀ op nonce s, inv s → c.pre (view s) op → inv (exec op nonce s).1)
    {h : Handler ο ρ α} (script : Nat → Fate × ν) {s : σ} (hs : inv s)
    (hk : Keeps c (view s) h) :
    inv (h.run exec script s).1 ∧ view s ≤ view (h.run exec script s).1 ∧
      c.ans (view (h.run exec script s).1) (h.run exec script s).2 := by
  induction h generalizing script s with
  | answer a => exact ⟨hs, le_rfl, hk⟩
  | act op next ih =>
      obtain ⟨hle, hpost⟩ := hhonest s hs op (script 0).2 hk.1
      have hrest := ih _ (fun n => script (n + 1)) (hinv op _ s hs hk.1) (hk.2 _ _ hle hpost)
      exact ⟨hrest.1, hle.trans hrest.2.1, hrest.2.2⟩
  | call op next failed ih ihFailed =>
      unfold Handler.run
      split
      · obtain ⟨hle, hpost⟩ := hhonest s hs op (script 0).2 hk.1
        have hrest := ih _ (fun n => script (n + 1)) (hinv op _ s hs hk.1) (hk.2.1 _ _ hle hpost)
        exact ⟨hrest.1, hle.trans hrest.2.1, hrest.2.2⟩
      · exact ihFailed _ hs (hk.2.2 _ le_rfl)
      · obtain ⟨hle, -⟩ := hhonest s hs op (script 0).2 hk.1
        have hrest := ihFailed (fun n => script (n + 1)) (hinv op _ s hs hk.1) (hk.2.2 _ hle)
        exact ⟨hrest.1, hle.trans hrest.2.1, hrest.2.2⟩

end Contracts

/-! ### Threads -/

section Threads

variable {τ : Type} {l : List τ} {i : Nat} {x y : τ} {P : τ → Prop} {R : τ → τ → Prop}

/-- An element after a step of one thread. -/
theorem getElem?_set_cases {j : Nat} (h : (l.set i x)[j]? = some y) :
    (j = i ∧ y = x) ∨ (j ≠ i ∧ l[j]? = some y) := by
  by_cases hij : i = j
  · subst hij
    obtain ⟨hi, hy⟩ := List.getElem?_eq_some_iff.1 h
    exact .inl ⟨rfl, by simpa using hy.symm⟩
  · rw [List.getElem?_set_ne hij] at h
    exact .inr ⟨Ne.symm hij, h⟩

/-- An element once a thread has joined the pool. -/
theorem getElem?_append_one {j : Nat} (h : (l ++ [x])[j]? = some y) : l[j]? = some y ∨ y = x := by
  rcases Nat.lt_or_ge j l.length with hj | hj
  · exact .inl (by rwa [List.getElem?_append_left hj] at h)
  · rw [List.getElem?_append_right hj] at h
    exact .inr (List.mem_singleton.1 (List.mem_of_getElem? h))

theorem mem_of_set (h : y ∈ l.set i x) : y = x ∨ ∃ j, j ≠ i ∧ l[j]? = some y := by
  obtain ⟨j, hj⟩ := List.mem_iff_getElem?.1 h
  rcases getElem?_set_cases hj with ⟨-, rfl⟩ | hj
  · exact .inl rfl
  · exact .inr ⟨j, hj⟩

/-- After a step of one thread, each thread is that one or another as it was. -/
theorem forall_set (hx : P x) (hrest : ∀ (j : Nat) (y : τ), j ≠ i → l[j]? = some y → P y) :
    ∀ y ∈ l.set i x, P y := by
  intro y hy
  rcases mem_of_set hy with rfl | ⟨j, hj, hy⟩
  · exact hx
  · exact hrest j y hj hy

/-- A thread steps and stays in the class, or was not in it. -/
theorem exists_set {z : τ} (h : ∃ y ∈ l, P y) (hi : l[i]? = some z) (hx : P z → P x) :
    ∃ y ∈ l.set i x, P y := by
  obtain ⟨y, hy, hpy⟩ := h
  obtain ⟨j, hj⟩ := List.mem_iff_getElem?.1 hy
  by_cases hij : i = j
  · subst hij
    obtain rfl : z = y := Option.some.inj (hi.symm.trans hj)
    exact ⟨x, List.mem_set (List.getElem?_eq_some_iff.1 hi).1 x, hx hpy⟩
  · exact ⟨y, List.mem_of_getElem? ((List.getElem?_set_ne hij).trans hj), hpy⟩

theorem forall_append_one (hl : ∀ y ∈ l, P y) (hx : P x) : ∀ y ∈ l ++ [x], P y := by
  intro y hy
  rcases List.mem_append.1 hy with hy | hy
  · exact hl y hy
  · rw [List.mem_singleton.1 hy]
    exact hx

/-- At most one thread is in the class `P`. -/
def Lone (P : τ → Prop) (l : List τ) : Prop :=
  ∀ (i j : Nat) (x y : τ), l[i]? = some x → l[j]? = some y → P x → P y → i = j

theorem Lone.nil : Lone P ([] : List τ) := by
  intro i j x y hx
  simp at hx

theorem Lone.mono {Q : τ → Prop} (h : Lone P l) (hsub : ∀ x, Q x → P x) : Lone Q l :=
  fun i j x y hx hy hqx hqy => h i j x y hx hy (hsub x hqx) (hsub y hqy)

/-- A thread outside the class joins the pool. -/
theorem Lone.append (h : Lone P l) (hx : ¬ P x) : Lone P (l ++ [x]) := by
  have hold : ∀ (j : Nat) (z : τ), (l ++ [x])[j]? = some z → P z → l[j]? = some z := by
    intro j z hz hp
    rcases getElem?_append_one hz with hz | rfl
    · exact hz
    · exact absurd hp hx
  intro i j y z hy hz hpy hpz
  exact h i j y z (hold i y hy hpy) (hold j z hz hpz) hpy hpz

/-- A thread steps, and is in the class only if no other thread is. -/
theorem Lone.set (h : Lone P l) (hx : P x → ∀ (j : Nat) (y : τ), j ≠ i → l[j]? = some y → ¬ P y) :
    Lone P (l.set i x) := by
  intro a b y z hy hz hpy hpz
  rcases getElem?_set_cases hy with ⟨rfl, rfl⟩ | ⟨ha, hya⟩
  · rcases getElem?_set_cases hz with ⟨rfl, -⟩ | ⟨hb, hzb⟩
    · rfl
    · exact absurd hpz (hx hpy b z hb hzb)
  · rcases getElem?_set_cases hz with ⟨rfl, rfl⟩ | ⟨-, hzb⟩
    · exact absurd hpy (hx hpz a y ha hya)
    · exact h a b y z hya hzb hpy hpz

/-- A thread steps within the class. -/
theorem Lone.set_same (h : Lone P l) (hi : l[i]? = some y) (hx : P x → P y) :
    Lone P (l.set i x) :=
  h.set fun hp j z hj hz hpz => hj (h j i z y hz hi hpz (hx hp))

end Threads

/-- **What every request starts with and every step keeps, every thread has.** -/
theorem Machine.forall_threads_step (m : Machine ο ρ α κ σ ν ω) {P : κ → Handler ο ρ α → Prop}
    {p : Pool ο ρ α κ σ} (a : Action ν κ ω) (hstart : ∀ r, P r (m.program r))
    (hmoves : ∀ r s s' h h' op, P r h → Moves m.exec s h s' h' op → P r h')
    (hp : ∀ t ∈ p.threads, P t.request t.program) :
    ∀ t ∈ (m.step p a).threads, P t.request t.program := by
  rcases m.step_cases p a with h | ⟨r, -, h⟩ | ⟨i, fate, nonce, t, s', h', op, -, ht, -, hmove, h⟩ |
    ⟨w, -, h⟩
  · rw [h]
    exact hp
  · rw [h]
    exact forall_append_one hp (hstart r)
  · have ht' := hp t (List.mem_of_getElem? ht)
    rw [h]
    refine forall_set (hmoves t.request _ _ _ _ _ ht' hmove) ?_
    exact fun j u _ hu => hp u (List.mem_of_getElem? hu)
  · rw [h]
    exact hp

/-- If every request that comes in is in `Q`, so is every request that takes a step. -/
theorem Machine.allSteps_requests (m : Machine ο ρ α κ σ ν ω) (Q : κ → Prop) (p : Pool ο ρ α κ σ)
    (inputs : List (Action ν κ ω)) (hp : ∀ t ∈ p.threads, Q t.request)
    (harrive : ∀ r, .arrive r ∈ inputs → Q r) :
    Runs.AllSteps m.step (fun p a => ∀ i fate nonce t, a = .advance i fate nonce →
      p.threads[i]? = some t → Q t.request) p inputs := by
  induction inputs generalizing p with
  | nil => trivial
  | cons a rest ih =>
      refine ⟨fun i _ _ t _ ht => hp t (List.mem_of_getElem? ht), ih _ ?_ ?_⟩
      · rcases m.step_cases p a with h | ⟨r, rfl, h⟩ |
          ⟨i, fate, nonce, t, s', h', op, rfl, ht, -, hmove, h⟩ | ⟨w, rfl, h⟩
        · rw [h]
          exact hp
        · rw [h]
          exact forall_append_one hp (harrive r List.mem_cons_self)
        · rw [h]
          exact forall_set (hp t (List.mem_of_getElem? ht)) fun j u _ hu =>
            hp u (List.mem_of_getElem? hu)
        · rw [h]
          exact hp
      · exact fun r hr => harrive r (List.mem_cons_of_mem a hr)

/-! ### Pools under contract -/

section Pools

variable {W : Type} [Preorder W] (c : κ → Contract W ο ρ α) (view : σ → W) (inv : σ → Prop)

/-- Every thread keeps the contract of its request. -/
structure Pool.UnderContract (p : Pool ο ρ α κ σ) : Prop where
  state : inv p.state
  threads : ∀ t ∈ p.threads, Keeps (c t.request) (view p.state) t.program

variable {c view inv}

/-- **One step under contract.** -/
theorem Machine.underContract_step (m : Machine ο ρ α κ σ ν ω) {p : Pool ο ρ α κ σ}
    {a : Action ν κ ω} (hc : ∀ r, (c r).Stable)
    (hhonest : ∀ r s, inv s → Honest (c r) m.exec view s)
    (hinv : ∀ r op nonce s, inv s → (c r).pre (view s) op → inv (m.exec op nonce s).1)
    (hworld : ∀ w s, inv s → inv (m.world w s) ∧ view s ≤ view (m.world w s))
    (harrive : ∀ r, a = .arrive r → Keeps (c r) (view p.state) (m.program r))
    (hp : p.UnderContract c view inv) : (m.step p a).UnderContract c view inv := by
  rcases m.step_cases p a with h | ⟨r, rfl, h⟩ | ⟨i, fate, nonce, t, s', h', op, rfl, ht, -, hmove, h⟩ |
    ⟨w, rfl, h⟩
  · rw [h]
    exact hp
  · rw [h]
    exact ⟨hp.state, forall_append_one hp.threads (harrive r rfl)⟩
  · have hk := hp.threads t (List.mem_of_getElem? ht)
    obtain ⟨hle, hk'⟩ := hk.moves (hhonest t.request p.state hp.state) hmove
    have hs' : inv s' := by
      obtain ⟨request, program⟩ := t
      cases hmove with
      | act op next nonce => exact hinv request op nonce _ hp.state hk.1
      | done op next failed nonce => exact hinv request op nonce _ hp.state hk.1
      | failed op next failed => exact hp.state
      | lost op next failed nonce => exact hinv request op nonce _ hp.state hk.1
    rw [h]
    refine ⟨hs', forall_set hk' ?_⟩
    intro j u _ hu
    exact (hp.threads u (List.mem_of_getElem? hu)).mono (hc u.request) hle
  · obtain ⟨hs', hle⟩ := hworld w p.state hp.state
    rw [h]
    exact ⟨hs', fun t ht => (hp.threads t ht).mono (hc t.request) hle⟩

end Pools

end Feloxi.Handlers
