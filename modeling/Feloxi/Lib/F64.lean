import Mathlib.Data.Rat.Defs
import Mathlib.Data.Rat.Floor
import Mathlib.Algebra.Order.Ring.Unbundled.Rat

/-!
# Feloxi.Lib.F64

Double-precision numbers read as **extended exact rationals**: a finite value is
a rational, and the two infinities and `nan` are values of their own. Arithmetic
on finite values is exact; rounding is not modelled. What the model does keep is
the part that decides branches: every comparison with `nan` is false, `max` and
`min` drop a `nan`, and a cast to an integer type truncates and saturates.
-/

namespace Feloxi

/-- A double as an extended exact rational. -/
inductive F64 where
  | nan
  | inf (neg : Bool)
  | fin (q : ℚ)
deriving Repr, DecidableEq

namespace F64

instance : Inhabited F64 := ⟨.fin 0⟩

/-- The double nearest to a natural number, taken as exact. -/
def ofNat (n : Nat) : F64 := .fin n

/-- The default of every `f64` field. -/
def zero : F64 := .fin 0

/-- `a < b`, false as soon as one side is `nan`. -/
def lt : F64 → F64 → Bool
  | .fin p, .fin q => decide (p < q)
  | .fin _, .inf neg => !neg
  | .inf neg, .fin _ => neg
  | .inf neg, .inf neg' => neg && !neg'
  | .nan, _ => false
  | _, .nan => false

/-- `a > b`. -/
def gt (a b : F64) : Bool := lt b a

/-- `a <= b`, false as soon as one side is `nan`. -/
def le : F64 → F64 → Bool
  | .fin p, .fin q => decide (p ≤ q)
  | .fin _, .inf neg => !neg
  | .inf neg, .fin _ => neg
  | .inf neg, .inf neg' => neg || !neg'
  | .nan, _ => false
  | _, .nan => false

/-- `a >= b`. -/
def ge (a b : F64) : Bool := le b a

/-- `is_finite`. -/
def isFinite : F64 → Bool
  | .fin _ => true
  | _ => false

def neg : F64 → F64
  | .nan => .nan
  | .inf n => .inf (!n)
  | .fin q => .fin (-q)

def abs : F64 → F64
  | .nan => .nan
  | .inf _ => .inf false
  | .fin q => .fin |q|

def add : F64 → F64 → F64
  | .fin p, .fin q => .fin (p + q)
  | .nan, _ => .nan
  | _, .nan => .nan
  | .inf n, .inf m => if n = m then .inf n else .nan
  | .inf n, .fin _ => .inf n
  | .fin _, .inf m => .inf m

def sub (a b : F64) : F64 := add a b.neg

def mul : F64 → F64 → F64
  | .fin p, .fin q => .fin (p * q)
  | .nan, _ => .nan
  | _, .nan => .nan
  | .inf n, .inf m => .inf (n != m)
  | .inf n, .fin q => if q = 0 then .nan else .inf (n != decide (q < 0))
  | .fin p, .inf m => if p = 0 then .nan else .inf (decide (p < 0) != m)

/-- Division; a finite value over zero is an infinity, zero over zero is `nan`.
(The sign of zero is not modelled: the divisor counts as `+0`.) -/
def div : F64 → F64 → F64
  | .fin p, .fin q =>
    if q = 0 then (if p = 0 then .nan else .inf (decide (p < 0))) else .fin (p / q)
  | .nan, _ => .nan
  | _, .nan => .nan
  | .inf _, .inf _ => .nan
  | .inf n, .fin q => .inf (n != decide (q < 0))
  | .fin _, .inf _ => .fin 0

/-- `f64::max`: the larger side, and the other one when a side is `nan`. -/
def max : F64 → F64 → F64
  | .nan, b => b
  | a, .nan => a
  | a, b => if lt a b then b else a

/-- `f64::min`. -/
def min : F64 → F64 → F64
  | .nan, b => b
  | a, .nan => a
  | a, b => if lt b a then b else a

/-- `f64::clamp`: a `nan` stays a `nan`. -/
def clamp (x lo hi : F64) : F64 :=
  if lt x lo then lo else if gt x hi then hi else x

/-- `f64::floor`. -/
def floor : F64 → F64
  | .fin q => .fin ⌊q⌋
  | x => x

/-- `as u32`: truncation toward zero, saturating, `nan` to zero. -/
def toU32 : F64 → Nat
  | .nan => 0
  | .inf neg => if neg then 0 else 2 ^ 32 - 1
  | .fin q => Nat.min (⌊q⌋.toNat) (2 ^ 32 - 1)

/-- Truncation toward zero. -/
def trunc (q : ℚ) : Int := if q < 0 then -⌊-q⌋ else ⌊q⌋

/-- `as i64`: truncation toward zero, saturating, `nan` to zero. -/
def toI64 : F64 → Int
  | .nan => 0
  | .inf neg => if neg then -(2 ^ 63) else 2 ^ 63 - 1
  | .fin q => Max.max (-(2 ^ 63)) (Min.min (trunc q) (2 ^ 63 - 1))

theorem lt_asymm {a b : F64} (h : lt a b = true) : lt b a = false := by
  cases a with
  | nan => cases h
  | inf neg => cases b with
    | nan => cases neg <;> cases h
    | inf neg' => cases neg <;> cases neg' <;> first | rfl | cases h
    | fin q => cases neg <;> first | rfl | cases h
  | fin p => cases b with
    | nan => cases h
    | inf neg => cases neg <;> first | rfl | cases h
    | fin q =>
        have hlt : p < q := of_decide_eq_true h
        exact decide_eq_false (not_lt_of_gt hlt)

/-! ### Fixed-point rendering -/

/-- The nearest natural number, ties to even. -/
def roundHalfEven (q : ℚ) : Nat :=
  let n := ⌊q⌋.toNat
  if q - n < 1 / 2 then n
  else if q - n > 1 / 2 then n + 1
  else if n % 2 = 0 then n else n + 1

/-- `{:.d}`: `d` decimals, the exact value rounded to nearest. -/
def fmtFixed (d : Nat) : F64 → String
  | .nan => "NaN"
  | .inf neg => if neg then "-inf" else "inf"
  | .fin q =>
    let n := roundHalfEven (|q| * 10 ^ d)
    let sign := if q < 0 then "-" else ""
    let digits := toString (n % 10 ^ d)
    let padded := String.ofList (List.replicate (d - digits.length) '0') ++ digits
    sign ++ toString (n / 10 ^ d) ++ (if d = 0 then "" else "." ++ padded)

/-! ### Comparison with zero

What the fallbacks of the metric reads rely on: zero exceeds no non-negative
threshold. -/

/-- A threshold that is `nan` or at least zero. -/
def NonNeg (t : F64) : Prop := lt t zero = false

instance (t : F64) : Decidable t.NonNeg := inferInstanceAs (Decidable (_ = _))

@[simp] theorem gt_zero_eq_false {t : F64} (ht : t.NonNeg) : gt zero t = false := ht

@[simp] theorem abs_zero : abs zero = zero := by simp [abs, zero]

@[simp] theorem ofNat_nonNeg (n : Nat) : (ofNat n).NonNeg := by
  simp [NonNeg, ofNat, zero, lt]

end F64

end Feloxi
