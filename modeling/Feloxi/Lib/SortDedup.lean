import Mathlib.Data.List.Sort

/-!
# Feloxi.Lib.SortDedup

A vector that is sorted and then rid of equal neighbours: the members in strict order. A member is
among the first `n` exactly if fewer than `n` members come before it.
-/

namespace Feloxi.SortDedup

variable {α : Type*} [LinearOrder α]

/-- Of equal neighbours, one stays. -/
def dedup : List α → List α
  | [] => []
  | [a] => [a]
  | a :: b :: rest => if a = b then dedup (b :: rest) else a :: dedup (b :: rest)

def sortDedup (l : List α) : List α := dedup (l.insertionSort (· ≤ ·))

theorem mem_dedup {l : List α} {a : α} : a ∈ dedup l ↔ a ∈ l := by
  fun_induction dedup l with
  | case1 => rfl
  | case2 b => rfl
  | case3 b rest ih => simp [ih]
  | case4 b c rest hne ih =>
      rw [List.mem_cons, ih]
      exact List.mem_cons.symm

theorem pairwise_dedup {l : List α} (h : l.Pairwise (· ≤ ·)) : (dedup l).Pairwise (· < ·) := by
  fun_induction dedup l with
  | case1 => exact .nil
  | case2 b => exact List.pairwise_singleton _ _
  | case3 b rest ih => exact ih h.of_cons
  | case4 b c rest hne ih =>
      refine List.pairwise_cons.2 ⟨fun a ha => ?_, ih h.of_cons⟩
      have hbc : b < c := lt_of_le_of_ne (List.rel_of_pairwise_cons h List.mem_cons_self) hne
      rcases List.mem_cons.1 (mem_dedup.1 ha) with rfl | ha
      · exact hbc
      · exact hbc.trans_le (List.rel_of_pairwise_cons h.of_cons ha)

@[simp] theorem mem_sortDedup {l : List α} {a : α} : a ∈ sortDedup l ↔ a ∈ l := by
  rw [sortDedup, mem_dedup, List.mem_insertionSort]

theorem pairwise_sortDedup (l : List α) : (sortDedup l).Pairwise (· < ·) :=
  pairwise_dedup (List.pairwise_insertionSort (· ≤ ·) l)

theorem nodup_sortDedup (l : List α) : (sortDedup l).Nodup :=
  (pairwise_sortDedup l).imp ne_of_lt

theorem length_dedup_le (l : List α) : (dedup l).length ≤ l.length := by
  fun_induction dedup l with
  | case1 => exact Nat.le_refl _
  | case2 b => exact Nat.le_refl _
  | case3 b rest ih => exact ih.trans (Nat.le_succ _)
  | case4 b c rest hne ih => exact Nat.succ_le_succ ih

theorem length_sortDedup_le (l : List α) : (sortDedup l).length ≤ l.length :=
  (length_dedup_le _).trans_eq (List.length_insertionSort _ l)

/-- How many members come before `a`. -/
def rank (a : α) (l : List α) : Nat := (l.filter (· < a)).length

/-- In strict order, the first `n` are those with fewer than `n` before them. -/
theorem mem_take_iff {l : List α} (h : l.Pairwise (· < ·)) {n : Nat} {a : α} :
    a ∈ l.take n ↔ a ∈ l ∧ rank a l < n := by
  induction l generalizing n with
  | nil => simp
  | cons b l ih =>
      obtain ⟨hfirst, hrest⟩ := List.pairwise_cons.1 h
      cases n with
      | zero => simp
      | succ n =>
          rw [List.take_succ_cons, List.mem_cons, ih hrest, List.mem_cons]
          by_cases hab : a = b
          · subst hab
            have hnone : rank a (a :: l) = 0 := by
              simpa [rank] using fun c hc => (hfirst c hc).le
            simp [hnone]
          · have hsucc : a ∈ l → rank a (b :: l) = rank a l + 1 := by
              intro ha
              simp [rank, hfirst a ha]
            constructor
            · rintro (heq | ⟨ha, hlt⟩)
              · exact absurd heq hab
              · exact ⟨.inr ha, by rw [hsucc ha]; omega⟩
            · rintro ⟨heq | ha, hlt⟩
              · exact absurd heq hab
              · rw [hsucc ha] at hlt
                exact .inr ⟨ha, by omega⟩

end Feloxi.SortDedup
