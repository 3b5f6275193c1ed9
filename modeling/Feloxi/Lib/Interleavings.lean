import Feloxi.Lib.Runs

/-!
# Feloxi.Lib.Interleavings

Programs, as lists of commands, run at the same time on one state: a step starts a program, or
runs the next command of one that was started, or is an event of the environment.
-/

namespace Feloxi.Interleavings

variable {σ κ ι ε : Type*}

/-- A state, and what is left of each program. -/
structure Pool (σ κ : Type*) where
  state : σ
  threads : List (List κ)

inductive Action (ι ε : Type*) where
  | start (call : ι)
  /-- The next command of a thread. -/
  | pick (thread : Nat)
  | event (e : ε)

/-- What the calls run, and what commands and events do. -/
structure System (σ κ ι ε : Type*) where
  program : ι → List κ
  exec : σ → κ → σ
  occur : σ → ε → σ

namespace System

variable (sys : System σ κ ι ε)

def step (p : Pool σ κ) : Action ι ε → Pool σ κ
  | .start call => { p with threads := p.threads ++ [sys.program call] }
  | .pick i =>
    match p.threads[i]? with
    | some (c :: rest) => ⟨sys.exec p.state c, p.threads.set i rest⟩
    | _ => p
  | .event e => { p with state := sys.occur p.state e }

def run (p : Pool σ κ) (actions : List (Action ι ε)) : Pool σ κ := Runs.run sys.step p actions

end System

/-- No program is left. -/
def Pool.Idle (p : Pool σ κ) : Prop := ∀ thread ∈ p.threads, thread = []

/-- The command that a thread runs next. -/
def Pool.next? (p : Pool σ κ) (i : Nat) : Option κ := p.threads[i]?.bind List.head?

variable {sys : System σ κ ι ε}

theorem step_pick_of_none {p : Pool σ κ} {i : Nat} (h : p.next? i = none) :
    sys.step p (.pick i) = p := by
  rw [System.step]
  split
  · rename_i hthread
    simp [Pool.next?, hthread] at h
  · rfl

/-- The picked thread stands between those before and those after it. -/
theorem step_pick_of_some (sys : System σ κ ι ε) {p : Pool σ κ} {i : Nat} {c : κ} (h : p.next? i = some c) :
    ∃ before rest after, p.threads = before ++ (c :: rest) :: after ∧
      sys.step p (.pick i) = ⟨sys.exec p.state c, before ++ rest :: after⟩ := by
  obtain ⟨thread, hthread, hhead⟩ := Option.bind_eq_some_iff.1 h
  obtain ⟨rest, rfl⟩ : ∃ rest, thread = c :: rest := List.head?_eq_some_iff.1 hhead
  obtain ⟨hi, hget⟩ := List.getElem?_eq_some_iff.1 hthread
  refine ⟨p.threads.take i, rest, p.threads.drop (i + 1), ?_, ?_⟩
  · rw [← hget, ← List.drop_eq_getElem_cons hi, List.take_append_drop]
  · simp only [System.step, hthread]
    rw [List.set_eq_take_append_cons_drop, if_pos hi]

/-- What is left of the threads is part of a program that was called. -/
def Pool.Called (sys : System σ κ ι ε) (p : Pool σ κ) : Prop :=
  ∀ thread ∈ p.threads, ∃ call, thread <:+ sys.program call

theorem called_step {p : Pool σ κ} (h : p.Called sys) (action : Action ι ε) :
    (sys.step p action).Called sys := by
  cases action with
  | start call =>
      intro thread hthread
      rcases List.mem_append.1 hthread with hthread | hthread
      · exact h thread hthread
      · rw [List.mem_singleton.1 hthread]
        exact ⟨call, List.suffix_rfl⟩
  | event e => exact h
  | pick i =>
      cases hnext : p.next? i with
      | none => rwa [step_pick_of_none hnext]
      | some c =>
          obtain ⟨before, rest, after, hthreads, hstep⟩ := step_pick_of_some sys hnext
          rw [Pool.Called, hthreads] at h
          rw [hstep]
          intro thread hthread
          simp only [List.mem_append, List.mem_cons] at hthread
          rcases hthread with hthread | rfl | hthread
          · exact h thread (by simp [hthread])
          · obtain ⟨call, hsuffix⟩ := h (c :: thread) (by simp)
            exact ⟨call, (List.suffix_cons c thread).trans hsuffix⟩
          · exact h thread (by simp [hthread])

/-! ### Finishing -/

/-- Threads that are done, and others that are run one after the other. -/
theorem exists_picks (sys : System σ κ ι ε) (threads : List (List κ)) (n : Nat) (s : σ) :
    ∃ picks : List (Action ι ε), sys.run ⟨s, List.replicate n [] ++ threads⟩ picks =
      ⟨threads.flatten.foldl sys.exec s, List.replicate (n + threads.length) []⟩ := by
  induction threads generalizing n s with
  | nil => exact ⟨[], by simp [System.run]⟩
  | cons thread threads ih =>
      induction thread generalizing s with
      | nil =>
          obtain ⟨picks, hpicks⟩ := ih (n + 1) s
          refine ⟨picks, ?_⟩
          rw [List.replicate_succ', List.append_assoc] at hpicks
          simp only [List.singleton_append] at hpicks
          rw [hpicks]
          simp [Nat.add_comm, Nat.add_left_comm]
      | cons c rest ihrest =>
          obtain ⟨picks, hpicks⟩ := ihrest (sys.exec s c)
          refine ⟨.pick n :: picks, ?_⟩
          have hstep : sys.step ⟨s, List.replicate n [] ++ (c :: rest) :: threads⟩ (.pick n) =
              ⟨sys.exec s c, List.replicate n [] ++ rest :: threads⟩ := by
            simp [System.step]
          rw [System.run, Runs.run_cons, hstep]
          exact hpicks

/-- Every pool can be finished, its threads one after the other. -/
theorem exists_finish (sys : System σ κ ι ε) (p : Pool σ κ) :
    ∃ picks : List (Action ι ε), (sys.run p picks).Idle ∧
      (sys.run p picks).state = p.threads.flatten.foldl sys.exec p.state := by
  obtain ⟨picks, hpicks⟩ := exists_picks sys p.threads 0 p.state
  refine ⟨picks, ?_⟩
  have hrun : sys.run p picks = _ := hpicks
  rw [hrun]
  exact ⟨fun thread hthread => List.eq_of_mem_replicate hthread, rfl⟩

end Feloxi.Interleavings
