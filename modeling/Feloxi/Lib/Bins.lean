import Mathlib.Algebra.BigOperators.Group.List.Basic
import Mathlib.Data.Rat.Floor

/-!
# Feloxi.Lib.Bins

Items added up in a row of bins, each item in the bin of its index. What a bin measures is what its
items weigh, and all bins measure what the items inside the row weigh. The bins of a number line cut
into pieces of one width.
-/

namespace Feloxi.Bins

variable {α β γ M : Type*} [AddCommMonoid M]

/-! ### Filling -/

/-- An item outside of the row is passed over. -/
def put (index : α → Int) (add : β → α → β) (bins : List β) (x : α) : List β :=
  if index x < 0 ∨ (bins.length : Int) ≤ index x then bins
  else bins.modify (index x).toNat fun b => add b x

def fill (index : α → Int) (add : β → α → β) (bins : List β) (items : List α) : List β :=
  items.foldl (put index add) bins

variable {index : α → Int} {add : β → α → β}

@[simp] theorem length_put (bins : List β) (x : α) :
    (put index add bins x).length = bins.length := by
  rw [put]
  split
  · rfl
  · exact List.length_modify _ _ _

@[simp] theorem length_fill (bins : List β) (items : List α) :
    (fill index add bins items).length = bins.length := by
  induction items generalizing bins with
  | nil => rfl
  | cons x items ih => exact (ih _).trans (length_put bins x)

/-- What no item changes. -/
theorem map_fill {f : β → γ} (hf : ∀ b x, f (add b x) = f b) (bins : List β) (items : List α) :
    (fill index add bins items).map f = bins.map f := by
  induction items generalizing bins with
  | nil => rfl
  | cons x items ih =>
      refine (ih _).trans ?_
      rw [put]
      split
      · rfl
      · refine List.ext_getElem (by simp) fun i hi hi' => ?_
        rw [List.getElem_map, List.getElem_map, List.getElem_modify]
        split
        · exact hf _ _
        · rfl

section Measures

variable {measure : β → M} {weight : α → M}

theorem map_put (hadd : ∀ b x, measure (add b x) = measure b + weight x) (bins : List β) (x : α) :
    (put index add bins x).map measure =
      (bins.map measure).mapIdx fun i m => m + if index x = i then weight x else 0 := by
  rw [put]
  split
  · rename_i hout
    refine List.ext_getElem (by simp) fun i hi hi' => ?_
    have hne : index x ≠ i := by
      rw [List.length_map] at hi
      omega
    simp [hne]
  · rename_i hin
    refine List.ext_getElem (by simp) fun i hi hi' => ?_
    have hiff : (index x).toNat = i ↔ index x = i := by omega
    simp only [List.getElem_map, List.getElem_mapIdx, List.getElem_modify, hiff]
    split
    · exact hadd _ _
    · exact (add_zero _).symm

/-- What each bin measures. -/
theorem map_fill_measure (hadd : ∀ b x, measure (add b x) = measure b + weight x) (bins : List β)
    (items : List α) :
    (fill index add bins items).map measure =
      (bins.map measure).mapIdx fun i m =>
        m + ((items.filter fun x => index x = i).map weight).sum := by
  induction items generalizing bins with
  | nil => exact List.ext_getElem (by simp) fun i hi hi' => by simp [fill]
  | cons x items ih =>
      have hstep : fill index add bins (x :: items) =
          fill index add (put index add bins x) items := rfl
      rw [hstep, ih, map_put hadd, List.mapIdx_mapIdx]
      congr 1
      funext i m
      by_cases heq : index x = i
      · simp [heq, add_assoc]
      · simp [heq]

theorem sum_modify {f : β → β} {w : M} (hf : ∀ b, measure (f b) = measure b + w) {bins : List β}
    {i : Nat} (hi : i < bins.length) :
    ((bins.modify i f).map measure).sum = (bins.map measure).sum + w := by
  induction bins generalizing i with
  | nil => cases hi
  | cons b bins ih =>
      cases i with
      | zero => simp [hf, add_right_comm]
      | succ i =>
          rw [List.modify_succ_cons, List.map_cons, List.sum_cons, ih (Nat.lt_of_succ_lt_succ hi),
            List.map_cons, List.sum_cons, add_assoc]

/-- What the bins measure together. -/
theorem sum_fill (hadd : ∀ b x, measure (add b x) = measure b + weight x) (bins : List β)
    (items : List α) :
    ((fill index add bins items).map measure).sum = (bins.map measure).sum +
      ((items.filter fun x => 0 ≤ index x ∧ index x < bins.length).map weight).sum := by
  induction items generalizing bins with
  | nil => simp [fill]
  | cons x items ih =>
      have hstep : fill index add bins (x :: items) =
          fill index add (put index add bins x) items := rfl
      have hput : ((put index add bins x).map measure).sum = (bins.map measure).sum +
          if 0 ≤ index x ∧ index x < bins.length then weight x else 0 := by
        rw [put]
        split
        · rw [if_neg (by omega), add_zero]
        · rw [if_pos (by omega), sum_modify (fun b => hadd b x) (by omega)]
      rw [hstep, ih, hput, length_put, add_assoc]
      by_cases hin : 0 ≤ index x ∧ index x < bins.length
      · simp [hin]
      · simp [hin]

/-- A sum in two parts. -/
theorem sum_filter_split {p q r : α → Bool} {items : List α}
    (hor : ∀ x ∈ items, p x = true ↔ q x = true ∨ r x = true)
    (hdisjoint : ∀ x ∈ items, q x = true → r x = false) :
    ((items.filter p).map weight).sum =
      ((items.filter q).map weight).sum + ((items.filter r).map weight).sum := by
  induction items with
  | nil => simp
  | cons x items ih =>
      have hx := hor x List.mem_cons_self
      have hx' := hdisjoint x List.mem_cons_self
      have ih := ih (fun y hy => hor y (List.mem_cons_of_mem x hy))
        fun y hy => hdisjoint y (List.mem_cons_of_mem x hy)
      cases hq : q x with
      | true =>
          rw [List.filter_cons_of_pos (hx.2 (.inl hq)), List.filter_cons_of_pos hq,
            List.filter_cons_of_neg (by simp [hx' hq]), List.map_cons, List.map_cons, List.sum_cons,
            List.sum_cons, ih, add_assoc]
      | false =>
          have hpr : p x = r x := by
            rw [Bool.eq_iff_iff, hx, hq]
            simp
          cases hr : r x with
          | true =>
              rw [List.filter_cons_of_pos (hpr.trans hr), List.filter_cons_of_neg (by simp [hq]),
                List.filter_cons_of_pos hr, List.map_cons, List.map_cons, List.sum_cons,
                List.sum_cons, ih, add_left_comm]
          | false =>
              rw [List.filter_cons_of_neg (by simp [hpr, hr]),
                List.filter_cons_of_neg (by simp [hq]), List.filter_cons_of_neg (by simp [hr]), ih]

end Measures

/-! ### Pieces of one width -/

variable {a w i : Int}

theorem le_floor_div_iff (hw : 0 < w) : i ≤ ⌊(a : ℚ) / w⌋ ↔ i * w ≤ a := by
  rw [Int.le_floor, le_div_iff₀ (Int.cast_pos.2 hw)]
  norm_cast

theorem floor_div_lt_iff (hw : 0 < w) : ⌊(a : ℚ) / w⌋ < i ↔ a < i * w := by
  rw [← not_le, le_floor_div_iff hw, not_le]

theorem floor_div_eq_iff (hw : 0 < w) : ⌊(a : ℚ) / w⌋ = i ↔ i * w ≤ a ∧ a < i * w + w := by
  have hnext : i * w + w = (i + 1) * w := by rw [add_mul, one_mul]
  rw [hnext, ← le_floor_div_iff hw, ← floor_div_lt_iff hw]
  omega

theorem ceil_div_le_iff (hw : 0 < w) : ⌈(a : ℚ) / w⌉ ≤ i ↔ a ≤ i * w := by
  rw [Int.ceil_le, div_le_iff₀ (Int.cast_pos.2 hw)]
  norm_cast

theorem ceil_div_eq_iff (hw : 0 < w) : ⌈(a : ℚ) / w⌉ = i ↔ i * w - w < a ∧ a ≤ i * w := by
  have hnext : i * w - w = (i - 1) * w := by rw [sub_mul, one_mul]
  rw [hnext, ← not_le, ← ceil_div_le_iff hw, ← ceil_div_le_iff hw]
  omega

theorem ediv_eq_iff (hw : 0 < w) : a / w = i ↔ i * w ≤ a ∧ a < i * w + w := by
  constructor
  · rintro rfl
    have hlt := Int.lt_ediv_add_one_mul_self a hw
    rw [add_mul, one_mul] at hlt
    exact ⟨Int.ediv_mul_le a hw.ne', hlt⟩
  · intro h
    refine le_antisymm (Int.lt_add_one_iff.1 ?_) (Int.le_ediv_of_mul_le hw h.1)
    refine Int.ediv_lt_of_lt_mul hw ?_
    rw [add_mul, one_mul]
    exact h.2

end Feloxi.Bins
