import Feloxi.Lib.Finite
import Mathlib.Data.Rat.Cast.Order
import Mathlib.Data.Real.Basic

/-!
# Feloxi.Lib.Reals

The real number a finite double stands for. What is computed on doubles without rounding
stands for what is computed on the reals.
-/

namespace Feloxi.F64

/-- The double is finite, and its value is `r`. -/
def Denotes (x : F64) (r : ℝ) : Prop := ∃ q : ℚ, x = .fin q ∧ (q : ℝ) = r

variable {x y : F64} {r s : ℝ}

theorem denotes_zero : Denotes .zero 0 := ⟨0, rfl, Rat.cast_zero⟩

theorem denotes_one : Denotes (.fin 1) 1 := ⟨1, rfl, Rat.cast_one⟩

theorem denotes_ofNat (n : Nat) : Denotes (ofNat n) n := ⟨n, rfl, Rat.cast_natCast n⟩

theorem Denotes.lt_iff (hx : Denotes x r) (hy : Denotes y s) : lt x y = true ↔ r < s := by
  obtain ⟨p, rfl, rfl⟩ := hx
  obtain ⟨q, rfl, rfl⟩ := hy
  rw [fin_lt, decide_eq_true_iff, Rat.cast_lt]

theorem Denotes.sub (hx : Denotes x r) (hy : Denotes y s) : Denotes (x.sub y) (r - s) := by
  obtain ⟨p, rfl, rfl⟩ := hx
  obtain ⟨q, rfl, rfl⟩ := hy
  exact ⟨p - q, fin_sub p q, Rat.cast_sub p q⟩

theorem Denotes.mul (hx : Denotes x r) (hy : Denotes y s) : Denotes (x.mul y) (r * s) := by
  obtain ⟨p, rfl, rfl⟩ := hx
  obtain ⟨q, rfl, rfl⟩ := hy
  exact ⟨p * q, fin_mul p q, Rat.cast_mul p q⟩

theorem Denotes.div (hx : Denotes x r) (hy : Denotes y s) (hs : s ≠ 0) :
    Denotes (x.div y) (r / s) := by
  obtain ⟨p, rfl, rfl⟩ := hx
  obtain ⟨q, rfl, rfl⟩ := hy
  exact ⟨p / q, fin_div (Rat.cast_ne_zero.1 hs) p, Rat.cast_div p q⟩

theorem Denotes.max (hx : Denotes x r) (hy : Denotes y s) :
    Denotes (x.max y) (Max.max r s) := by
  obtain ⟨p, rfl, rfl⟩ := hx
  obtain ⟨q, rfl, rfl⟩ := hy
  exact ⟨Max.max p q, fin_max p q, Rat.cast_max p q⟩

end Feloxi.F64
