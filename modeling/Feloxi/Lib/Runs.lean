import Mathlib.Data.List.Nodup

/-!
# Feloxi.Lib.Runs

Finite runs of a deterministic step function whose inputs carry all the
nondeterminism, and the two rules the developments over it are assembled from:

* an **invariant** that every admissible step keeps holds after every run of
  admissible steps (`AllSteps.invariant`);
* a **keyed sweep** (a left fold over items with pairwise distinct keys) does to
  the part of the state owned by one key exactly what that key's own item does
  (`foldl_at_key`), provided the other items leave that part alone.
-/

namespace Feloxi.Runs

variable {σ ι γ κ : Type*}

/-- The state after a run. -/
def run (step : σ → ι → σ) (s : σ) (inputs : List ι) : σ := inputs.foldl step s

@[simp] theorem run_nil (step : σ → ι → σ) (s : σ) : run step s [] = s := rfl

@[simp] theorem run_cons (step : σ → ι → σ) (s : σ) (i : ι) (rest : List ι) :
    run step s (i :: rest) = run step (step s i) rest := rfl

theorem run_append (step : σ → ι → σ) (s : σ) (first second : List ι) :
    run step s (first ++ second) = run step (run step s first) second :=
  List.foldl_append

/-- Every step of the run is admissible in the state it is taken from. -/
def AllSteps (step : σ → ι → σ) (ok : σ → ι → Prop) : σ → List ι → Prop
  | _, [] => True
  | s, i :: rest => ok s i ∧ AllSteps step ok (step s i) rest

@[simp] theorem allSteps_nil (step : σ → ι → σ) (ok : σ → ι → Prop) (s : σ) :
    AllSteps step ok s [] := trivial

@[simp] theorem allSteps_cons (step : σ → ι → σ) (ok : σ → ι → Prop) (s : σ) (i : ι)
    (rest : List ι) :
    AllSteps step ok s (i :: rest) ↔ ok s i ∧ AllSteps step ok (step s i) rest := Iff.rfl

theorem allSteps_append {step : σ → ι → σ} {ok : σ → ι → Prop} {s : σ} {first second : List ι} :
    AllSteps step ok s (first ++ second) ↔
      AllSteps step ok s first ∧ AllSteps step ok (run step s first) second := by
  induction first generalizing s with
  | nil => simp
  | cons i rest ih => simp [ih, and_assoc]

/-- **The invariant rule.** What every admissible step preserves holds after
every run of admissible steps. -/
theorem AllSteps.invariant (inv : σ → Prop) {step : σ → ι → σ} {ok : σ → ι → Prop}
    (hstep : ∀ s i, inv s → ok s i → inv (step s i)) {s : σ} {inputs : List ι}
    (hall : AllSteps step ok s inputs) (hs : inv s) : inv (run step s inputs) := by
  induction inputs generalizing s with
  | nil => exact hs
  | cons i rest ih => exact ih hall.2 (hstep s i hs hall.1)

/-- What an invariant makes of every admissible step holds of every step of a run
of admissible steps. -/
theorem AllSteps.of_invariant (inv : σ → Prop) {step : σ → ι → σ} {ok ok' : σ → ι → Prop}
    (hstep : ∀ s i, inv s → ok s i → inv (step s i)) (hok : ∀ s i, inv s → ok s i → ok' s i)
    {s : σ} {inputs : List ι} (hall : AllSteps step ok s inputs) (hs : inv s) :
    AllSteps step ok' s inputs := by
  induction inputs generalizing s with
  | nil => trivial
  | cons i rest ih => exact ⟨hok s i hs hall.1, ih hall.2 (hstep s i hs hall.1)⟩

/-- What holds of every input may be added to what makes a step admissible. -/
theorem AllSteps.and_mem {step : σ → ι → σ} {ok : σ → ι → Prop} {P : ι → Prop} {s : σ}
    {inputs : List ι} (hall : AllSteps step ok s inputs) (hP : ∀ i ∈ inputs, P i) :
    AllSteps step (fun s i => P i ∧ ok s i) s inputs := by
  induction inputs generalizing s with
  | nil => trivial
  | cons i rest ih =>
      exact ⟨⟨hP i List.mem_cons_self, hall.1⟩, ih hall.2 fun j hj => hP j (List.mem_cons_of_mem i hj)⟩

/-- The invariant rule when every step is admissible. -/
theorem run_invariant (inv : σ → Prop) {step : σ → ι → σ}
    (hstep : ∀ s i, inv s → inv (step s i)) {s : σ} (hs : inv s) (inputs : List ι) :
    inv (run step s inputs) := by
  induction inputs generalizing s with
  | nil => exact hs
  | cons i rest ih => exact ih (hstep s i hs)

/-- An element of two traces in a row lies in the first or in the second. -/
theorem append_eq_append_cons {xs ys before after : List ι} {i : ι}
    (h : xs ++ ys = before ++ i :: after) :
    (∃ middle, xs = before ++ i :: middle ∧ after = middle ++ ys) ∨
      ∃ first, before = xs ++ first ∧ ys = first ++ i :: after := by
  rcases List.append_eq_append_iff.1 h with ⟨first, hbefore, hys⟩ | ⟨rest, hxs, hafter⟩
  · exact .inr ⟨first, hbefore, hys⟩
  · cases rest with
    | nil => exact .inr ⟨[], by rw [hxs, List.append_nil, List.append_nil], hafter.symm⟩
    | cons j rest =>
        obtain ⟨rfl, hrest⟩ := List.cons_eq_cons.1 hafter
        exact .inl ⟨rest, hxs, hrest⟩

/-! ### Sweeps -/

/-- A fold whose steps all leave an observation alone leaves it alone. -/
theorem foldl_frame (obs : σ → γ) {f : σ → ι → σ} {items : List ι}
    (h : ∀ s, ∀ i ∈ items, obs (f s i) = obs s) (s : σ) : obs (items.foldl f s) = obs s := by
  induction items generalizing s with
  | nil => rfl
  | cons i rest ih =>
      rw [List.foldl_cons, ih (fun s j hj => h s j (List.mem_cons_of_mem i hj))]
      exact h s i List.mem_cons_self

/-- A fold preserves what each of its steps preserves. -/
theorem foldl_invariant (inv : σ → Prop) {f : σ → ι → σ} {items : List ι}
    (h : ∀ s, ∀ i ∈ items, inv s → inv (f s i)) {s : σ} (hs : inv s) :
    inv (items.foldl f s) := by
  induction items generalizing s with
  | nil => exact hs
  | cons i rest ih =>
      exact ih (fun s j hj => h s j (List.mem_cons_of_mem i hj)) (h s i List.mem_cons_self hs)

/-- A reflexive and transitive relation that each step stays in relates the two
ends of a fold. -/
theorem foldl_rel (rel : σ → σ → Prop) {f : σ → ι → σ} (hrefl : ∀ s, rel s s)
    (htrans : ∀ {a b c}, rel a b → rel b c → rel a c) {items : List ι}
    (hstep : ∀ s, ∀ i ∈ items, rel s (f s i)) (s : σ) : rel s (items.foldl f s) := by
  induction items generalizing s with
  | nil => exact hrefl s
  | cons i rest ih =>
      exact htrans (hstep s i List.mem_cons_self)
        (ih (fun s j hj => hstep s j (List.mem_cons_of_mem i hj)) (f s i))

/-- A fold preserves what each of its steps preserves from the state its prefix
leads to. -/
theorem foldl_prefix_invariant (inv : σ → Prop) {f : σ → ι → σ} {items : List ι} {s : σ}
    (hs : inv s)
    (h : ∀ before i after, items = before ++ i :: after → inv (before.foldl f s) →
      inv (f (before.foldl f s) i)) : inv (items.foldl f s) := by
  have hgo : ∀ after before, items = before ++ after → inv (before.foldl f s) →
      inv (items.foldl f s) := by
    intro after
    induction after with
    | nil =>
        rintro before hitems hinv
        rwa [hitems, List.append_nil]
    | cons i rest ih =>
        rintro before hitems hinv
        refine ih (before ++ [i]) (by simpa using hitems) ?_
        rw [List.foldl_append]
        exact h before i rest hitems hinv
  exact hgo items [] rfl hs

/-- The items of a fold, each with the state it is met in. -/
def visits (f : σ → ι → σ) : σ → List ι → List (σ × ι)
  | _, [] => []
  | s, i :: rest => (s, i) :: visits f (f s i) rest

/-- An item is met in the state its prefix leads to. -/
theorem mem_visits (f : σ → ι → σ) (s : σ) (before : List ι) (i : ι) (after : List ι) :
    (before.foldl f s, i) ∈ visits f s (before ++ i :: after) := by
  induction before generalizing s with
  | nil => exact List.mem_cons_self
  | cons j rest ih => exact List.mem_cons_of_mem _ (ih (f s j))

/-- A visited item splits the list, and is met in the state its prefix leads to. -/
theorem visits_split {f : σ → ι → σ} {s : σ} {items : List ι} {v : σ × ι}
    (h : v ∈ visits f s items) :
    ∃ before after, items = before ++ v.2 :: after ∧ v.1 = before.foldl f s := by
  induction items generalizing s with
  | nil => cases h
  | cons i rest ih =>
      rcases List.mem_cons.1 h with rfl | h
      · exact ⟨[], rest, rfl, rfl⟩
      · obtain ⟨before, after, hrest, hstate⟩ := ih h
        exact ⟨i :: before, after, by rw [hrest]; rfl, hstate⟩

/-- An item of a list with distinct keys splits it into two parts free of its key. -/
theorem split_at_key {key : ι → κ} {items : List ι} (hnodup : (items.map key).Nodup) {i : ι}
    (hi : i ∈ items) :
    ∃ before after, items = before ++ i :: after ∧ (∀ j ∈ before, key j ≠ key i) ∧
      ∀ j ∈ after, key j ≠ key i := by
  obtain ⟨before, after, rfl⟩ := List.append_of_mem hi
  refine ⟨before, after, rfl, ?_, ?_⟩
  · rintro j hj heq
    simp only [List.map_append, List.map_cons, List.nodup_append, List.mem_map] at hnodup
    exact hnodup.2.2 (key j) ⟨j, hj, rfl⟩ (key i) List.mem_cons_self heq
  · rintro j hj heq
    simp only [List.map_append, List.map_cons, List.nodup_append, List.nodup_cons] at hnodup
    exact hnodup.2.1.1 (heq ▸ List.mem_map_of_mem hj)

/-- **The sweep rule.** In a fold over items with distinct keys, where only the
item of key `key i` touches the observation `obs`, the observation after the
fold is the one after item `i` alone, taken in a state with the same observation
as the first. -/
theorem foldl_at_key (obs : σ → γ) {f : σ → ι → σ} {key : ι → κ} {items : List ι}
    (hnodup : (items.map key).Nodup) {i : ι} (hi : i ∈ items)
    (hframe : ∀ s, ∀ j ∈ items, key j ≠ key i → obs (f s j) = obs s) (s : σ) :
    ∃ s', obs s' = obs s ∧ obs (items.foldl f s) = obs (f s' i) := by
  obtain ⟨before, after, rfl, hbefore, hafter⟩ := split_at_key hnodup hi
  refine ⟨before.foldl f s, ?_, ?_⟩
  · exact foldl_frame obs (fun s j hj => hframe s j (by simp [hj]) (hbefore j hj)) s
  · rw [List.foldl_append, List.foldl_cons]
    exact foldl_frame obs (fun s j hj => hframe s j (by simp [hj]) (hafter j hj)) _

end Feloxi.Runs
