import Mathlib.Logic.Function.Basic

/-!
# Feloxi.Lib.Memo

Memo tables. `fetch` takes the value of a key from the table; a key that has none
gets the value at hand, which is kept from then on.

A table is described by what it may have kept: `Kept` holds of a table all of whose
values are right for their keys. A fetch of a right value keeps the table so
(`Kept.fetch_snd`), and what it answers is right (`Kept.fetch_fst`). Where only one
value is right for a key, the memo cannot be told from the computation.
-/

namespace Feloxi.Memo

variable {κ : Type*} {V : κ → Type*}

/-- At most one value per key. -/
abbrev Table (V : κ → Type*) := (k : κ) → Option (V k)

/-- The value of a key: the kept one, or the one at hand. -/
def fetch [DecidableEq κ] (k : κ) (fresh : V k) (t : Table V) : V k × Table V :=
  match t k with
  | some v => (v, t)
  | none => (fresh, Function.update t k (some fresh))

/-- The table has kept nothing but right values. -/
def Kept (Right : (k : κ) → V k → Prop) (t : Table V) : Prop :=
  ∀ k v, t k = some v → Right k v

theorem kept_empty (Right : (k : κ) → V k → Prop) : Kept Right fun _ => none := by
  intro k v h
  cases h

variable [DecidableEq κ] {t : Table V} {Right : (k : κ) → V k → Prop}

theorem fetch_of_some {k : κ} {v : V k} (h : t k = some v) (fresh : V k) :
    fetch k fresh t = (v, t) := by
  rw [fetch, h]

theorem fetch_of_none {k : κ} (h : t k = none) (fresh : V k) :
    fetch k fresh t = (fresh, Function.update t k (some fresh)) := by
  rw [fetch, h]

theorem fetch_fst (k : κ) (fresh : V k) (t : Table V) :
    (fetch k fresh t).1 = (t k).getD fresh := by
  cases h : t k with
  | some v => rw [fetch_of_some h, Option.getD_some]
  | none => rw [fetch_of_none h, Option.getD_none]

/-- What is fetched is what the key holds afterwards. -/
theorem fetch_self (k : κ) (fresh : V k) (t : Table V) :
    (fetch k fresh t).2 k = some ((t k).getD fresh) := by
  cases h : t k with
  | some v =>
      rw [fetch_of_some h]
      exact h
  | none =>
      rw [fetch_of_none h]
      exact Function.update_self ..

/-- The other keys are left as they are. -/
theorem fetch_other {k other : κ} (h : other ≠ k) (fresh : V k) (t : Table V) :
    (fetch k fresh t).2 other = t other := by
  cases hk : t k with
  | some v => rw [fetch_of_some hk]
  | none =>
      rw [fetch_of_none hk]
      exact Function.update_of_ne h ..

/-- A kept value stays. -/
theorem fetch_kept {other : κ} {v : V other} (h : t other = some v) (k : κ) (fresh : V k) :
    (fetch k fresh t).2 other = some v := by
  by_cases heq : other = k
  · subst heq
    rw [fetch_self, h, Option.getD_some]
  · rw [fetch_other heq, h]

theorem Kept.fetch_fst (h : Kept Right t) {k : κ} {fresh : V k} (hfresh : Right k fresh) :
    Right k (fetch k fresh t).1 := by
  cases hk : t k with
  | some v =>
      rw [fetch_of_some hk]
      exact h k v hk
  | none =>
      rw [fetch_of_none hk]
      exact hfresh

theorem Kept.fetch_snd (h : Kept Right t) {k : κ} {fresh : V k} (hfresh : Right k fresh) :
    Kept Right (fetch k fresh t).2 := by
  intro other v hother
  by_cases heq : other = k
  · subst heq
    rw [fetch_self, ← Memo.fetch_fst, Option.some.injEq] at hother
    exact hother ▸ h.fetch_fst hfresh
  · rw [fetch_other heq] at hother
    exact h other v hother

end Feloxi.Memo
