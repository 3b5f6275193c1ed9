import Mathlib.Algebra.BigOperators.Group.List.Basic
import Mathlib.Algebra.BigOperators.Ring.Finset
import Mathlib.Algebra.BigOperators.Ring.List
import Mathlib.Algebra.Order.BigOperators.Group.List
import Mathlib.Algebra.Order.Field.Basic
import Mathlib.Tactic.FieldSimp
import Mathlib.Tactic.Ring

/-!
# Feloxi.Lib.Moments

Mean and population variance of a list over an ordered field, and what they are when the
list is known by its sum, its sum of squares and the length it is filled up to with
zeros.
-/

namespace Feloxi.Moments

variable {K : Type*} [Field K]

def mean (c : List K) : K := c.sum / c.length

def sumsq (c : List K) : K := (c.map (· ^ 2)).sum

/-- The population variance. -/
def variance (c : List K) : K := (c.map fun x => (x - mean c) ^ 2).sum / c.length

/-- The list filled up with zeros. -/
def padded (n : Nat) (c : List K) : List K := c ++ List.replicate (n - c.length) 0

theorem length_padded {n : Nat} {c : List K} (h : c.length ≤ n) : (padded n c).length = n := by
  rw [padded, List.length_append, List.length_replicate]
  omega

@[simp] theorem sum_padded (n : Nat) (c : List K) : (padded n c).sum = c.sum := by
  simp [padded]

@[simp] theorem sumsq_padded (n : Nat) (c : List K) : sumsq (padded n c) = sumsq c := by
  simp [padded, sumsq]

theorem sumsq_natCast (c : List Nat) :
    sumsq (c.map (↑) : List K) = ((c.map fun x => x * x).sum : Nat) := by
  rw [sumsq, Nat.cast_list_sum, List.map_map, List.map_map]
  refine congrArg List.sum (List.map_congr_left fun x _ => ?_)
  simp only [Function.comp_apply, Nat.cast_mul, sq]

theorem mean_padded {n : Nat} {c : List K} (h : c.length ≤ n) :
    mean (padded n c) = c.sum / n := by
  rw [mean, sum_padded, length_padded h]

theorem sum_sq_sub (a : K) (c : List K) :
    (c.map fun x => (x - a) ^ 2).sum = sumsq c - 2 * a * c.sum + c.length * a ^ 2 := by
  induction c with
  | nil => simp [sumsq]
  | cons x c ih =>
      simp only [sumsq, List.map_cons, List.sum_cons, List.length_cons, Nat.cast_succ] at ih ⊢
      rw [ih]
      ring

variable [LinearOrder K] [IsStrictOrderedRing K]

theorem variance_eq {c : List K} (h : c ≠ []) : variance c = sumsq c / c.length - mean c ^ 2 := by
  have hlength : (c.length : K) ≠ 0 :=
    Nat.cast_ne_zero.2 fun hzero => h (List.length_eq_zero_iff.1 hzero)
  rw [variance, sum_sq_sub, mean]
  field_simp
  ring

theorem variance_nonneg (c : List K) : 0 ≤ variance c := by
  refine div_nonneg (List.sum_nonneg fun y hy => ?_) (Nat.cast_nonneg _)
  obtain ⟨x, _, rfl⟩ := List.mem_map.1 hy
  exact sq_nonneg _

/-- The variance of a filled list, by its moments. -/
theorem variance_padded {n : Nat} {c : List K} (hn : 0 < n) (h : c.length ≤ n) :
    variance (padded n c) = sumsq c / n - (c.sum / n) ^ 2 := by
  have hne : padded n c ≠ [] := by
    intro hnil
    have hlength := length_padded h
    rw [hnil, List.length_nil] at hlength
    omega
  rw [variance_eq hne, sumsq_padded, mean_padded h, length_padded h]

end Feloxi.Moments
