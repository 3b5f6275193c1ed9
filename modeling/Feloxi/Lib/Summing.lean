import Feloxi.Lib.Grouping
import Mathlib.Algebra.BigOperators.Group.List.Basic
import Mathlib.Algebra.GroupWithZero.Nat

/-!
# Feloxi.Lib.Summing

Tables that add up. A block of items becomes one row for each of its keys, and from then on rows of
the same key may be joined by adding their values, and rows of zeros dropped, whenever the owner of
the table likes. What a reader adds up himself does not depend on it.
-/

namespace Feloxi.Summing

variable {α κ M N : Type} [DecidableEq κ] [AddCommMonoid N]

/-! ### Sums of a column -/

/-- The sum of a column over the rows of some keys. -/
def weigh (f : M → N) (p : κ → Bool) (rows : List (κ × M)) : N :=
  ((rows.filter fun r => p r.1).map fun r => f r.2).sum

variable {f : M → N} {p : κ → Bool} {rows rows' : List (κ × M)}

omit [DecidableEq κ] in
theorem weigh_cons (r : κ × M) :
    weigh f p (r :: rows) = (if p r.1 then f r.2 else 0) + weigh f p rows := by
  by_cases hp : p r.1 <;> simp [weigh, hp]

omit [DecidableEq κ] in
theorem weigh_append : weigh f p (rows ++ rows') = weigh f p rows + weigh f p rows' := by
  simp [weigh]

omit [DecidableEq κ] in
theorem weigh_perm (h : rows.Perm rows') : weigh f p rows = weigh f p rows' :=
  ((h.filter _).map _).sum_eq

omit [DecidableEq κ] in
theorem weigh_filter (q : κ → Bool) :
    weigh f p (rows.filter fun r => q r.1) = weigh f (fun k => p k && q k) rows := by
  simp [weigh, List.filter_filter]

/-! ### Groups -/

/-- `GROUP BY`: a row for each key, with what its items come to. -/
def groupBy (key : α → κ) (aggregate : List α → M) (items : List α) : List (κ × M) :=
  (items.map key).dedup.map fun k => (k, aggregate (items.filter fun a => key a = k))

variable {key : α → κ} {aggregate : List α → M} {items : List α}

theorem mem_keys_groupBy {k : κ} :
    k ∈ (groupBy key aggregate items).map Prod.fst ↔ ∃ a ∈ items, key a = k := by
  simp [groupBy]

theorem nodup_keys_groupBy : ((groupBy key aggregate items).map Prod.fst).Nodup := by
  have hkeys : (groupBy key aggregate items).map Prod.fst = (items.map key).dedup := by
    simp [groupBy, Function.comp_def]
  rw [hkeys]
  exact List.nodup_dedup _

theorem eq_of_mem_groupBy {r : κ × M} (h : r ∈ groupBy key aggregate items) :
    r.2 = aggregate (items.filter fun a => key a = r.1) := by
  obtain ⟨k, -, rfl⟩ := List.mem_map.1 h
  rfl

/-- Key by key, or item by item. -/
theorem sum_groups {keys : List κ} (hkeys : keys.Nodup) (hitems : ∀ a ∈ items, key a ∈ keys)
    (g : α → N) :
    (keys.map fun k => ((items.filter fun a => key a = k).map g).sum).sum = (items.map g).sum := by
  have hperm := Grouping.flatMap_groups_perm hkeys
    (fun a ha k hk => Option.some.inj hk ▸ hitems a ha) fun _ a => some (g a)
  have hsum := hperm.sum_eq
  rw [List.flatMap_def, List.sum_flatten, List.map_map] at hsum
  simpa [Function.comp_def, beq_eq_decide] using hsum

/-- A column that adds up over the items of a group adds up over all groups. -/
theorem weigh_groupBy {g : α → N} (h : ∀ part, f (aggregate part) = (part.map g).sum) :
    weigh f p (groupBy key aggregate items) =
      ((items.filter fun a => p (key a)).map g).sum := by
  have hgroup : ∀ k, p k = true → (items.filter fun a => key a = k) =
      (items.filter fun a => p (key a)).filter fun a => key a = k := by
    intro k hk
    rw [List.filter_filter]
    refine List.filter_congr fun a _ => ?_
    by_cases heq : key a = k <;> simp [heq, hk]
  rw [← sum_groups ((items.map key).nodup_dedup.filter p) (fun a ha => ?_) g]
  · rw [weigh, groupBy, List.filter_map, List.map_map]
    congr 1
    refine List.map_congr_left fun k hk => ?_
    rw [← hgroup k (List.mem_filter.1 hk).2]
    exact h _
  · obtain ⟨ha, hp⟩ := List.mem_filter.1 ha
    simpa [hp] using ⟨a, ha, rfl⟩

theorem sum_map_toNat (q : α → Bool) (l : List α) :
    (l.map fun a => (q a).toNat).sum = l.countP q := by
  induction l with
  | nil => rfl
  | cons a l ih =>
      rw [List.map_cons, List.sum_cons, ih, List.countP_cons, Nat.add_comm]
      cases q a <;> rfl

/-- Key by key, for a count. -/
theorem sum_countP_groups {keys : List κ} (hkeys : keys.Nodup) (hitems : ∀ a ∈ items, key a ∈ keys)
    (q : α → Bool) :
    (keys.map fun k => items.countP fun a => q a && key a == k).sum = items.countP q := by
  rw [← sum_map_toNat, ← sum_groups hkeys hitems]
  congr 1
  refine List.map_congr_left fun k _ => ?_
  rw [sum_map_toNat, List.countP_filter]
  simp [beq_eq_decide]

/-- A column that counts. -/
theorem weigh_groupBy_countP {f : M → Nat} {q : α → Bool}
    (h : ∀ part, f (aggregate part) = part.countP q) :
    weigh f p (groupBy key aggregate items) = items.countP fun a => p (key a) && q a := by
  rw [weigh_groupBy fun part => (h part).trans (sum_map_toNat q part).symm, sum_map_toNat,
    List.countP_filter]
  simp [Bool.and_comm]

/-! ### Tidying up -/

/-- What the owner of a table may do to it, with the places of the rows. -/
inductive Tidy where
  /-- A row takes in another one of its key. -/
  | join (i j : Nat)
  /-- A row of zeros goes. -/
  | drop (i : Nat)

variable [Add M] [Zero M] [DecidableEq M]

def tidy (rows : List (κ × M)) : Tidy → List (κ × M)
  | .join i j =>
    match rows[i]?, (rows.eraseIdx i)[j]? with
    | some (k, a), some (k', b) =>
      if k = k' then (k, a + b) :: (rows.eraseIdx i).eraseIdx j else rows
    | _, _ => rows
  | .drop i =>
    match rows[i]? with
    | some (_, a) => if a = 0 then rows.eraseIdx i else rows
    | none => rows

theorem perm_cons_eraseIdx {l : List α} {i : Nat} {a : α} (h : l[i]? = some a) :
    l.Perm (a :: l.eraseIdx i) := by
  obtain ⟨hi, rfl⟩ := List.getElem?_eq_some_iff.1 h
  exact (List.getElem_cons_eraseIdx_perm hi).symm

/-- What tidying up can do, without the places. -/
theorem tidy_cases (rows : List (κ × M)) (t : Tidy) :
    tidy rows t = rows ∨
    (∃ k a b rest, rows.Perm ((k, a) :: (k, b) :: rest) ∧ tidy rows t = (k, a + b) :: rest) ∨
    ∃ k rest, rows.Perm ((k, 0) :: rest) ∧ tidy rows t = rest := by
  cases t with
  | join i j =>
      cases hi : rows[i]? with
      | none => exact .inl (by simp [tidy, hi])
      | some first =>
          cases hj : (rows.eraseIdx i)[j]? with
          | none => exact .inl (by simp [tidy, hi, hj])
          | some second =>
              obtain ⟨k, a⟩ := first
              obtain ⟨k', b⟩ := second
              by_cases hkey : k = k'
              · subst hkey
                refine .inr (.inl ⟨k, a, b, (rows.eraseIdx i).eraseIdx j, ?_, by simp [tidy, hi, hj]⟩)
                exact (perm_cons_eraseIdx hi).trans ((perm_cons_eraseIdx hj).cons _)
              · exact .inl (by simp [tidy, hi, hj, hkey])
  | drop i =>
      cases hi : rows[i]? with
      | none => exact .inl (by simp [tidy, hi])
      | some first =>
          by_cases hzero : first.2 = 0
          · refine .inr (.inr ⟨first.1, rows.eraseIdx i, ?_, by simp [tidy, hi, hzero]⟩)
            rw [← hzero]
            exact perm_cons_eraseIdx hi
          · exact .inl (by simp [tidy, hi, hzero])

/-- **A sum over the rows of some keys** is the same before and after. -/
theorem weigh_tidy (hadd : ∀ a b, f (a + b) = f a + f b) (hzero : f 0 = 0)
    (rows : List (κ × M)) (t : Tidy) : weigh f p (tidy rows t) = weigh f p rows := by
  rcases tidy_cases rows t with h | ⟨k, a, b, rest, hperm, h⟩ | ⟨k, rest, hperm, h⟩
  · rw [h]
  · rw [h, weigh_perm hperm, weigh_cons, weigh_cons, weigh_cons, hadd, ← add_assoc]
    by_cases hp : p k <;> simp [hp]
  · rw [h, weigh_perm hperm, weigh_cons, hzero]
    simp

/-- What holds of every row and of sums of rows still holds of every row. -/
theorem forall_tidy {P : κ → M → Prop} (hadd : ∀ k a b, P k a → P k b → P k (a + b))
    {rows : List (κ × M)} (h : ∀ r ∈ rows, P r.1 r.2) (t : Tidy) :
    ∀ r ∈ tidy rows t, P r.1 r.2 := by
  rcases tidy_cases rows t with heq | ⟨k, a, b, rest, hperm, heq⟩ | ⟨k, rest, hperm, heq⟩
  · rwa [heq]
  · have hall : ∀ r ∈ (k, a) :: (k, b) :: rest, P r.1 r.2 :=
      fun r hr => h r (hperm.mem_iff.2 hr)
    rw [List.forall_mem_cons, List.forall_mem_cons] at hall
    rw [heq, List.forall_mem_cons]
    exact ⟨hadd k a b hall.1 hall.2.1, hall.2.2⟩
  · rw [heq]
    exact fun r hr => h r (hperm.mem_iff.2 (List.mem_cons_of_mem _ hr))

end Feloxi.Summing
