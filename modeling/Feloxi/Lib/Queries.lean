import Mathlib.Data.List.Dedup
import Mathlib.Data.List.MinMax
import Mathlib.Data.List.Perm.Basic
import Mathlib.Data.List.Sort

/-!
# Feloxi.Lib.Queries

What the clauses of a query do to the rows of a table, kept as a list: `ORDER BY`, which leaves
rows of the same key in any order, `LIMIT 1 BY`, which keeps the first row of each group, and
`GROUP BY` with the aggregates that take a value from the newest row that has one.
-/

namespace Feloxi.Queries

variable {α κ : Type*}

/-! ### ORDER BY -/

/-- `ORDER BY key`: rows of the same key come in any order. -/
structure OrderBy (key : α → Int) where
  sort : List α → List α
  perm : ∀ rows, (sort rows).Perm rows
  sorted : ∀ rows, (sort rows).Pairwise fun a b => key a ≤ key b

/-- Rows of the same key as they are in the table. -/
def OrderBy.stable (key : α → Int) : OrderBy key where
  sort := List.insertionSort fun a b => key a ≤ key b
  perm := List.perm_insertionSort _
  sorted rows := by
    have htotal : Std.Total fun a b : α => key a ≤ key b := ⟨fun a b => Int.le_total (key a) (key b)⟩
    have htrans : IsTrans α fun a b => key a ≤ key b := ⟨fun _ _ _ => Int.le_trans⟩
    exact List.pairwise_insertionSort (fun a b => key a ≤ key b) rows

/-- Rows of the same key with the late ones at the end. -/
def OrderBy.behind (late : α → Bool) (key : α → Int) : OrderBy key where
  sort := (OrderBy.stable fun a => 2 * key a + (late a).toNat).sort
  perm := (OrderBy.stable _).perm
  sorted rows := by
    refine ((OrderBy.stable fun a => 2 * key a + (late a).toNat).sorted rows).imp fun {a b} h => ?_
    have := Bool.toNat_le (late b)
    omega

theorem OrderBy.pairwise_behind (late : α → Bool) (key : α → Int) (rows : List α) :
    ((OrderBy.behind late key).sort rows).Pairwise fun a b =>
      key a = key b → late a = true → late b = true := by
  refine ((OrderBy.stable fun a => 2 * key a + (late a).toNat).sorted rows).imp fun {a b} h => ?_
  intro hkey ha
  cases hb : late b with
  | true => rfl
  | false =>
      simp only [ha, hb, hkey, Bool.toNat_true, Bool.toNat_false] at h
      omega

theorem OrderBy.mem_sort {key : α → Int} (order : OrderBy key) {rows : List α} {r : α} :
    r ∈ order.sort rows ↔ r ∈ rows := (order.perm rows).mem_iff

theorem OrderBy.length_sort {key : α → Int} (order : OrderBy key) (rows : List α) :
    (order.sort rows).length = rows.length := (order.perm rows).length_eq

/-- With one row for each key, the order is strict. -/
theorem OrderBy.strict {key : α → Int} (order : OrderBy key) {rows : List α}
    (hkeys : (rows.map key).Nodup) : (order.sort rows).Pairwise fun a b => key a < key b := by
  have hdistinct : (order.sort rows).Pairwise fun a b => key a ≠ key b :=
    List.pairwise_map.1 (((order.perm rows).map key).nodup_iff.2 hkeys)
  exact (order.sorted rows).imp₂ (fun _ _ hle hne => Int.lt_iff_le_and_ne.2 ⟨hle, hne⟩) hdistinct

/-- `LIMIT`: a row that is cut off comes after all that are there, and they are as many as can be. -/
theorem mem_take_or {R : α → α → Prop} {rows : List α} (h : rows.Pairwise R) {r : α} (hr : r ∈ rows)
    (k : Nat) : r ∈ rows.take k ∨ (rows.take k).length = k ∧ ∀ r' ∈ rows.take k, R r' r := by
  rw [← List.take_append_drop k rows] at h
  rw [← List.take_append_drop k rows, List.mem_append] at hr
  refine hr.imp id fun hdrop => ⟨?_, fun r' hr' => (List.pairwise_append.1 h).2.2 r' hr' r hdrop⟩
  have hlength := List.length_pos_of_mem hdrop
  rw [List.length_drop] at hlength
  rw [List.length_take]
  omega

/-- Rows whose images tell them apart are the same rows if their images are. -/
theorem map_perm_map_iff_of_injOn {f : α → κ} {S : α → Prop}
    (hf : ∀ a, S a → ∀ b, S b → f a = f b → a = b) {as bs : List α} (has : ∀ a ∈ as, S a)
    (hbs : ∀ b ∈ bs, S b) : (as.map f).Perm (bs.map f) ↔ as.Perm bs := by
  refine ⟨fun h => ?_, fun h => h.map f⟩
  have hinjective : Function.Injective fun a : { a // S a } => f a.1 :=
    fun a b hab => Subtype.ext (hf a.1 a.2 b.1 b.2 hab)
  rw [← List.attachWith_map_subtype_val has, ← List.attachWith_map_subtype_val hbs, List.map_map,
    List.map_map] at h
  have hval := ((List.map_perm_map_iff hinjective).1 h).map Subtype.val
  rwa [List.attachWith_map_subtype_val, List.attachWith_map_subtype_val] at hval

/-! ### LIMIT 1 BY -/

variable [DecidableEq κ]

/-- `LIMIT 1 BY group`: the first row of each group. -/
def firstOfEach (group : α → κ) : List α → List α
  | [] => []
  | a :: rows => a :: (firstOfEach group rows).filter fun b => decide (group b ≠ group a)

variable (group : α → κ)

theorem firstOfEach_sublist (rows : List α) : (firstOfEach group rows).Sublist rows := by
  induction rows with
  | nil => exact .slnil
  | cons a rows ih => exact (List.filter_sublist.trans ih).cons_cons a

theorem nodup_firstOfEach (rows : List α) : ((firstOfEach group rows).map group).Nodup := by
  induction rows with
  | nil => exact .nil
  | cons a rows ih =>
      rw [firstOfEach, List.map_cons, List.nodup_cons]
      refine ⟨fun hmem => ?_, ih.sublist (List.filter_sublist.map group)⟩
      obtain ⟨b, hb, hgroup⟩ := List.mem_map.1 hmem
      exact of_decide_eq_true (List.mem_filter.1 hb).2 hgroup

/-- Every row comes after the row that is kept of its group. -/
theorem exists_firstOfEach {R : α → α → Prop} (hrefl : ∀ a, R a a) {rows : List α}
    (hrows : rows.Pairwise R) {b : α} (hb : b ∈ rows) :
    ∃ a ∈ firstOfEach group rows, group a = group b ∧ R a b := by
  induction rows with
  | nil => cases hb
  | cons a rows ih =>
      obtain ⟨ha, hrest⟩ := List.pairwise_cons.1 hrows
      rcases List.mem_cons.1 hb with rfl | hb
      · exact ⟨b, List.mem_cons_self, rfl, hrefl b⟩
      · by_cases hgroup : group b = group a
        · exact ⟨a, List.mem_cons_self, hgroup.symm, ha b hb⟩
        · obtain ⟨c, hc, hcb, hR⟩ := ih hrest hb
          refine ⟨c, List.mem_cons_of_mem a (List.mem_filter.2 ⟨hc, ?_⟩), hcb, hR⟩
          exact decide_eq_true (hcb ▸ hgroup)

/-! ### GROUP BY -/

/-- `GROUP BY group`: the rows of each group. -/
def groupsBy (rows : List α) : List (List α) :=
  (rows.map group).dedup.map fun k => rows.filter fun r => decide (group r = k)

variable {group}

theorem mem_groupsBy {rows part : List α} :
    part ∈ groupsBy group rows ↔
      ∃ r ∈ rows, part = rows.filter fun r' => decide (group r' = group r) := by
  rw [groupsBy, List.mem_map]
  constructor
  · rintro ⟨k, hk, rfl⟩
    obtain ⟨r, hr, rfl⟩ := List.mem_map.1 (List.mem_dedup.1 hk)
    exact ⟨r, hr, rfl⟩
  · rintro ⟨r, hr, rfl⟩
    exact ⟨group r, List.mem_dedup.2 (List.mem_map_of_mem hr), rfl⟩

/-! ### Aggregates -/

section Aggregates

variable {β : Type*} {key : α → Int}

/-- `List.argmax`, for integer keys: the first row of the greatest key. -/
def argMax (key : α → Int) (rows : List α) : Option α :=
  @List.argmax α Int Int.instLinearOrder.toPartialOrder.toPreorder Int.decLt key rows

theorem argMax_mem {rows : List α} {m : α} (h : argMax key rows = some m) : m ∈ rows :=
  List.argmax_mem h

theorem argMax_eq_none {rows : List α} : argMax key rows = none ↔ rows = [] := List.argmax_eq_none

theorem le_of_argMax {rows : List α} {m r : α} (h : argMax key rows = some m) (hr : r ∈ rows) :
    key r ≤ key m := List.le_of_mem_argmax hr h

/-- The row of the greatest key, if no two rows have the same. -/
theorem argMax_eq_some_iff_of_nodup {rows : List α} (hkeys : (rows.map key).Nodup) {m : α} :
    argMax key rows = some m ↔ m ∈ rows ∧ ∀ r ∈ rows, key r ≤ key m := by
  constructor
  · exact fun h => ⟨argMax_mem h, fun r hr => le_of_argMax h hr⟩
  · rintro ⟨hm, hle⟩
    cases hmax : argMax key rows with
    | none => rw [argMax_eq_none.1 hmax] at hm; cases hm
    | some a =>
        have ha := argMax_mem hmax
        have hkey := Int.le_antisymm (hle a ha) (le_of_argMax hmax hm)
        rw [List.inj_on_of_nodup_map hkeys ha hm hkey]

/-- The greatest of the rows with a value. -/
def IsGreatest (key : α → Int) (has : α → Bool) (rows : List α) (m : α) : Prop :=
  m ∈ rows ∧ has m = true ∧ ∀ r ∈ rows, has r = true → key r ≤ key m

/-- `argMaxIf(f, key, cond)`: the value of the row of the greatest key, of those whose value meets
the condition; the default of the type if there is none. -/
def argMaxIf (key : α → Int) (f : α → β) (cond : β → Bool) (default : β) (rows : List α) : β :=
  ((argMax key (rows.filter fun r => cond (f r))).map f).getD default

theorem argMax_filter_eq_some_iff {has : α → Bool} {rows : List α} (hkeys : (rows.map key).Nodup)
    {m : α} : argMax key (rows.filter has) = some m ↔ IsGreatest key has rows m := by
  rw [argMax_eq_some_iff_of_nodup (hkeys.sublist (List.filter_sublist.map key)), List.mem_filter,
    IsGreatest, and_assoc]
  refine and_congr_right fun _ => and_congr_right fun _ => ?_
  exact ⟨fun h r hr hhas => h r (List.mem_filter.2 ⟨hr, hhas⟩),
    fun h r hr => h r (List.mem_filter.1 hr).1 (List.mem_filter.1 hr).2⟩

/-- The value is that of a row, or no row has one. -/
theorem argMaxIf_cases (key : α → Int) (f : α → β) (cond : β → Bool) (default : β) (rows : List α) :
    (∃ r ∈ rows, argMaxIf key f cond default rows = f r) ∨
      (argMaxIf key f cond default rows = default ∧ ∀ r ∈ rows, cond (f r) = false) := by
  unfold argMaxIf
  cases hmax : argMax key (rows.filter fun r => cond (f r)) with
  | none =>
      have hnone := List.filter_eq_nil_iff.1 (argMax_eq_none.1 hmax)
      exact .inr ⟨rfl, fun r hr => Bool.eq_false_iff.2 (hnone r hr)⟩
  | some m => exact .inl ⟨m, List.mem_of_mem_filter (argMax_mem hmax), rfl⟩

/-- Rows that all have one value. -/
theorem argMaxIf_of_forall_eq {f : α → β} {cond : β → Bool} {default v : β} {rows : List α}
    (h : ∀ r ∈ rows, f r = v) (hrows : rows ≠ []) (hdefault : cond v = false → default = v) :
    argMaxIf key f cond default rows = v := by
  rcases argMaxIf_cases key f cond default rows with ⟨r, hr, heq⟩ | ⟨heq, hnone⟩
  · rw [heq, h r hr]
  · obtain ⟨r, hr⟩ := List.exists_mem_of_ne_nil rows hrows
    rw [heq, hdefault (h r hr ▸ hnone r hr)]

/-- Some of the rows give the value that all of them give. -/
theorem argMaxIf_eq_iff {f : α → β} {cond : β → Bool} {default : β} {part rows : List α}
    (hkeys : (rows.map key).Nodup) (hpart : part.Sublist rows) (hdefault : cond default = false) :
    argMaxIf key f cond default part = argMaxIf key f cond default rows ↔
      ∀ m, IsGreatest key (fun r => cond (f r)) rows m →
        ∃ m', IsGreatest key (fun r => cond (f r)) part m' ∧ f m' = f m := by
  have hpartKeys : (part.map key).Nodup := hkeys.sublist (hpart.map key)
  unfold argMaxIf
  cases hall : argMax key (rows.filter fun r => cond (f r)) with
  | none =>
      have hnone : rows.filter (fun r => cond (f r)) = [] := argMax_eq_none.1 hall
      have hpartNone : part.filter (fun r => cond (f r)) = [] :=
        List.sublist_nil.1 (hnone ▸ hpart.filter _)
      rw [hpartNone]
      refine iff_of_true rfl fun m hm => ?_
      rw [← argMax_filter_eq_some_iff hkeys, hall] at hm
      cases hm
  | some m =>
      have hm := (argMax_filter_eq_some_iff hkeys).1 hall
      constructor
      · intro h m₂ hm₂
        have heq : m₂ = m := Option.some.inj
          (((argMax_filter_eq_some_iff hkeys).2 hm₂).symm.trans hall)
        subst heq
        cases hsome : argMax key (part.filter fun r => cond (f r)) with
        | none =>
            -- the default has no value
            rw [hsome] at h
            have hvalue : default = f m₂ := h
            have hcond : cond (f m₂) = true := hm₂.2.1
            rw [hvalue, hcond] at hdefault
            cases hdefault
        | some m' =>
            rw [hsome] at h
            exact ⟨m', (argMax_filter_eq_some_iff hpartKeys).1 hsome, h⟩
      · intro h
        obtain ⟨m', hm', hvalue⟩ := h m hm
        rw [(argMax_filter_eq_some_iff hpartKeys).2 hm']
        exact hvalue

end Aggregates

end Feloxi.Queries
