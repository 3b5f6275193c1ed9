import Feloxi.Lib.F64
import Mathlib.Algebra.Order.Ring.Rat
import Mathlib.Algebra.Field.Rat
import Mathlib.Order.MinMax

/-!
# Feloxi.Lib.Finite

Doubles that are finite: on them the arithmetic is that of the rationals, as long as
nothing is divided by zero.
-/

namespace Feloxi.F64

@[simp] theorem fin_lt (p q : ℚ) : lt (.fin p) (.fin q) = decide (p < q) := rfl

@[simp] theorem fin_le (p q : ℚ) : le (.fin p) (.fin q) = decide (p ≤ q) := rfl

@[simp] theorem fin_sub (p q : ℚ) : sub (.fin p) (.fin q) = .fin (p - q) :=
  congrArg fin (sub_eq_add_neg p q).symm

@[simp] theorem fin_mul (p q : ℚ) : mul (.fin p) (.fin q) = .fin (p * q) := rfl

theorem fin_div {q : ℚ} (h : q ≠ 0) (p : ℚ) : div (.fin p) (.fin q) = .fin (p / q) := by
  rw [div, if_neg h]

@[simp] theorem fin_max (p q : ℚ) : max (.fin p) (.fin q) = .fin (Max.max p q) := by
  have hmax : max (.fin p) (.fin q) = if decide (p < q) then .fin q else .fin p := rfl
  rcases lt_or_ge p q with h | h
  · rw [hmax, if_pos (decide_eq_true h), max_eq_right_of_lt h]
  · rw [hmax, if_neg (by simpa using h), max_eq_left h]

@[simp] theorem fin_min (p q : ℚ) : min (.fin p) (.fin q) = .fin (Min.min p q) := by
  have hmin : min (.fin p) (.fin q) = if decide (q < p) then .fin q else .fin p := rfl
  rcases lt_or_ge q p with h | h
  · rw [hmin, if_pos (decide_eq_true h), min_eq_right_of_lt h]
  · rw [hmin, if_neg (by simpa using h), min_eq_left h]

end Feloxi.F64
