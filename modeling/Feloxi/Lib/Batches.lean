import Mathlib.Data.List.Induction

/-!
# Feloxi.Lib.Batches

A sequence taken in one pass keeps the newest of its elements; taken in consecutive
batches, it keeps the newest of the last batch. What the two keep is compared through a
function `f` of the kept element.

An element is **unbeaten** if no later one is newer. Every unbeaten element is what some
cut of the sequence keeps, and every cut keeps an unbeaten one. So all cuts agree just
when all unbeaten elements do, and the last element is always one of them
(`cuts_agree_iff`).
-/

namespace Feloxi.Batches

variable {α β : Type*}

/-- Keep an element unless a kept one is not older. -/
def keep (newer : α → α → Bool) : Option α → α → Option α
  | some kept, x => if newer x kept then some x else some kept
  | none, x => some x

/-- The element kept of a sequence taken in one pass. -/
def newest (newer : α → α → Bool) (xs : List α) : Option α := xs.foldl (keep newer) none

/-- The element kept of a sequence taken in batches. -/
def lastNewest (newer : α → α → Bool) (batches : List (List α)) : Option α :=
  batches.foldl (fun kept batch => (newest newer batch).or kept) none

/-- No later element is newer. -/
def Unbeaten (newer : α → α → Bool) (xs : List α) (x : α) : Prop :=
  ∃ before after, xs = before ++ x :: after ∧ ∀ y ∈ after, newer y x = false

variable {newer : α → α → Bool}

@[simp] theorem newest_nil : newest newer ([] : List α) = none := rfl

theorem newest_concat (xs : List α) (x : α) :
    newest newer (xs ++ [x]) = keep newer (newest newer xs) x := by
  rw [newest, List.foldl_append, ← newest]
  rfl

/-- An unbeaten head is kept. -/
theorem newest_cons {x : α} {xs : List α} (h : ∀ y ∈ xs, newer y x = false) :
    newest newer (x :: xs) = some x := by
  induction xs using List.reverseRecOn with
  | nil => rfl
  | append_singleton xs y ih =>
      rw [← List.cons_append, newest_concat, ih fun z hz => h z (List.mem_append_left _ hz), keep,
        h y (List.mem_append_right _ (List.mem_singleton_self y)), if_neg Bool.false_ne_true]

/-- What is kept is unbeaten. -/
theorem unbeaten_of_newest {xs : List α} {x : α} (h : newest newer xs = some x) :
    Unbeaten newer xs x := by
  induction xs using List.reverseRecOn generalizing x with
  | nil => cases h
  | append_singleton xs y ih =>
      rw [newest_concat] at h
      have hlast : ∀ z, z = y → Unbeaten newer (xs ++ [y]) z := by
        rintro z rfl
        exact ⟨xs, [], rfl, fun _ hmem => absurd hmem List.not_mem_nil⟩
      cases hkept : newest newer xs with
      | none =>
          rw [hkept] at h
          exact hlast x (Option.some.inj h).symm
      | some kept =>
          rw [hkept, keep] at h
          split at h
          · exact hlast x (Option.some.inj h).symm
          · rename_i hold
            obtain rfl := Option.some.inj h
            obtain ⟨before, after, rfl, hafter⟩ := ih hkept
            refine ⟨before, after ++ [y], by rw [List.append_assoc]; rfl, ?_⟩
            intro z hz
            rcases List.mem_append.1 hz with hz | hz
            · exact hafter z hz
            · rw [List.mem_singleton.1 hz]
              exact Bool.eq_false_iff.2 hold

theorem newest_eq_none_iff {xs : List α} : newest newer xs = none ↔ xs = [] := by
  constructor
  · intro h
    induction xs using List.reverseRecOn with
    | nil => rfl
    | append_singleton xs y ih =>
        rw [newest_concat] at h
        cases hkept : newest newer xs with
        | none => rw [hkept] at h; cases h
        | some kept =>
            rw [hkept, keep] at h
            split at h <;> cases h
  · rintro rfl
    rfl

theorem lastNewest_concat (batches : List (List α)) (batch : List α) :
    lastNewest newer (batches ++ [batch]) =
      (newest newer batch).or (lastNewest newer batches) := by
  rw [lastNewest, List.foldl_append, ← lastNewest]
  rfl

/-- Every cut keeps an unbeaten element. -/
theorem unbeaten_of_lastNewest {batches : List (List α)} {x : α}
    (h : lastNewest newer batches = some x) : Unbeaten newer batches.flatten x := by
  induction batches using List.reverseRecOn generalizing x with
  | nil => cases h
  | append_singleton batches batch ih =>
      rw [lastNewest_concat] at h
      rw [List.flatten_append, List.flatten_singleton]
      cases hbatch : newest newer batch with
      | none =>
          rw [hbatch, Option.none_or] at h
          rw [newest_eq_none_iff.1 hbatch, List.append_nil]
          exact ih h
      | some kept =>
          rw [hbatch, Option.some_or] at h
          obtain rfl := Option.some.inj h
          obtain ⟨before, after, hsplit, hafter⟩ := unbeaten_of_newest hbatch
          exact ⟨batches.flatten ++ before, after, by rw [hsplit, List.append_assoc], hafter⟩

theorem lastNewest_eq_none_iff {batches : List (List α)} :
    lastNewest newer batches = none ↔ batches.flatten = [] := by
  induction batches using List.reverseRecOn with
  | nil => exact ⟨fun _ => rfl, fun _ => rfl⟩
  | append_singleton batches batch ih =>
      rw [lastNewest_concat, Option.or_eq_none_iff, newest_eq_none_iff, ih, List.flatten_append,
        List.flatten_singleton, List.append_eq_nil_iff, and_comm]

/-- Every unbeaten element is kept by a cut into two batches. -/
theorem lastNewest_of_unbeaten {before after : List α} {x : α}
    (h : ∀ y ∈ after, newer y x = false) :
    lastNewest newer [before, x :: after] = some x := by
  show (newest newer (x :: after)).or _ = some x
  rw [newest_cons h, Option.some_or]

/-- The last element is unbeaten. -/
theorem unbeaten_getLast {xs : List α} {x : α} (h : xs.getLast? = some x) :
    Unbeaten newer xs x := by
  obtain ⟨before, rfl⟩ := List.getLast?_eq_some_iff.1 h
  exact ⟨before, [], rfl, fun _ hmem => absurd hmem List.not_mem_nil⟩

/-- **When all cuts agree.** Let `later` be another way to compare, under which an element
that beats another is never older. All ways of cutting a sequence agree with the one pass
under `later` if and only if every unbeaten element agrees with the last one. -/
theorem cuts_agree_iff (f : α → β) {newer later : α → α → Bool}
    (hlater : ∀ x y, later y x = false → newer y x = false) (xs : List α) :
    (∀ batches, batches.flatten = xs →
      (lastNewest newer batches).map f = (newest later xs).map f) ↔
      ∀ x, Unbeaten newer xs x → xs.getLast?.map f = some (f x) := by
  -- what the one pass keeps is unbeaten either way
  have hone : ∀ x, newest later xs = some x → Unbeaten newer xs x := by
    intro x hx
    obtain ⟨before, after, hsplit, hafter⟩ := unbeaten_of_newest hx
    exact ⟨before, after, hsplit, fun y hy => hlater x y (hafter y hy)⟩
  constructor
  · intro hcuts x hx
    have hkeeps : ∀ z, Unbeaten newer xs z → (newest later xs).map f = some (f z) := by
      rintro z ⟨before, after, rfl, hafter⟩
      rw [← hcuts [before, z :: after] (by simp), lastNewest_of_unbeaten hafter]
      rfl
    cases hlast : xs.getLast? with
    | none =>
        obtain ⟨before, after, hsplit, -⟩ := hx
        rw [List.getLast?_eq_none_iff.1 hlast] at hsplit
        simp at hsplit
    | some last => exact (hkeeps last (unbeaten_getLast hlast)).symm.trans (hkeeps x hx)
  · rintro hagree batches rfl
    cases hkept : lastNewest newer batches with
    | none =>
        rw [lastNewest_eq_none_iff.1 hkept]
        rfl
    | some x =>
        cases hnewest : newest later batches.flatten with
        | none =>
            rw [lastNewest_eq_none_iff.2 (newest_eq_none_iff.1 hnewest)] at hkept
            cases hkept
        | some y =>
            exact (hagree x (unbeaten_of_lastNewest hkept)).symm.trans (hagree y (hone y hnewest))

/-- A cut of the elements of one kind comes from a cut of the whole sequence. -/
theorem exists_cut_filter (p : α → Bool) (batch : List α) (batches : List (List α)) (xs : List α)
    (h : (batch :: batches).flatten = xs.filter p) :
    ∃ whole : List (List α), whole.flatten = xs ∧
      whole.map (fun b => b.filter p) = batch :: batches := by
  induction batches generalizing batch xs with
  | nil =>
      refine ⟨[xs], List.flatten_singleton, ?_⟩
      rw [List.map_singleton, ← h, List.flatten_singleton]
  | cons next rest ih =>
      rw [List.flatten_cons] at h
      obtain ⟨first, others, rfl, hfirst, hothers⟩ := List.filter_eq_append_iff.1 h.symm
      obtain ⟨whole, hwhole, hmap⟩ := ih next others hothers.symm
      exact ⟨first :: whole, by rw [List.flatten_cons, hwhole], by
        rw [List.map_cons, hfirst, hmap]⟩

end Feloxi.Batches
