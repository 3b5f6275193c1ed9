import Mathlib.Data.List.Basic

/-!
# Feloxi.Lib.Overwrites

A burst of updates of one value. In turn, each update sees what the one before it left.
When all of them are computed from the value as it was before the burst, only the last one
is kept. The two agree if the later updates absorb the earlier ones.
-/

namespace Feloxi.Overwrites

variable {α : Type*}

/-- The updates one after the other. -/
def inTurn (updates : List (α → α)) (x : α) : α := updates.foldl (fun x f => f x) x

/-- Every update from the value as it was: the last is kept. -/
def lastOnly (updates : List (α → α)) (x : α) : α := updates.getLast?.elim x fun f => f x

@[simp] theorem inTurn_nil (x : α) : inTurn [] x = x := rfl

@[simp] theorem inTurn_cons (f : α → α) (updates : List (α → α)) (x : α) :
    inTurn (f :: updates) x = inTurn updates (f x) := rfl

theorem inTurn_append (first second : List (α → α)) (x : α) :
    inTurn (first ++ second) x = inTurn second (inTurn first x) := List.foldl_append

@[simp] theorem lastOnly_nil (x : α) : lastOnly [] x = x := rfl

theorem lastOnly_append_one (updates : List (α → α)) (f : α → α) (x : α) :
    lastOnly (updates ++ [f]) x = f x := by
  rw [lastOnly, List.getLast?_append]
  rfl

/-- An update does the same whether or not an earlier one came before it. -/
def Absorbing (updates : List (α → α)) : Prop := updates.Pairwise fun f g => ∀ x, g (f x) = g x

/-- By induction on the updates: the first is forgotten by whatever comes last. -/
theorem lastOnly_eq_inTurn {updates : List (α → α)} (h : Absorbing updates) (x : α) :
    lastOnly updates x = inTurn updates x := by
  induction updates generalizing x with
  | nil => rfl
  | cons f updates ih =>
      obtain ⟨hf, hrest⟩ := List.pairwise_cons.1 h
      rw [inTurn_cons, ← ih hrest]
      rcases List.eq_nil_or_concat updates with rfl | ⟨before, g, rfl⟩
      · rfl
      · rw [List.concat_eq_append, ← List.cons_append, lastOnly_append_one, lastOnly_append_one]
        exact (hf g (by simp) x).symm

theorem absorbing_of_length_le_one {updates : List (α → α)} (h : updates.length ≤ 1) :
    Absorbing updates := by
  rcases updates with _ | ⟨f, _ | ⟨g, updates⟩⟩
  · exact .nil
  · exact List.pairwise_singleton _ f
  · simp at h

end Feloxi.Overwrites
