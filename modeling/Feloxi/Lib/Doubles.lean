import Feloxi.Lib.F64
import Feloxi.Lib.JsonText

/-!
# Feloxi.Lib.Doubles

Numbers in JavaScript: a numeral is read as the double nearest to it, ties to even, and a
double is printed as the shortest numeral that is read as it (`Number::toString`).
-/

namespace Feloxi.Doubles

open JsonText (Digits Numeral pow10 canonical_ofNat)

def pow2 : Int → ℚ
  | .ofNat n => ((2 ^ n : Nat) : ℚ)
  | .negSucc n => 1 / ((2 ^ (n + 1) : Nat) : ℚ)

/-- The binary exponent of a positive number. -/
def log2 (q : ℚ) : Int :=
  let k : Int := (q.num.natAbs.log2 : Int) - q.den.log2
  if pow2 k ≤ q then k else k - 1

/-- The decimal exponent of a positive number. -/
def log10 (q : ℚ) : Int :=
  let k : Int := (Nat.toDigits 10 q.num.natAbs).length - (Nat.toDigits 10 q.den).length
  if pow10 k ≤ q then k else k - 1

/-- A positive number, rounded to 53 binary digits, or fewer if it is tiny. -/
def roundPos (q : ℚ) : ℚ :=
  let e := max (log2 q - 52) (-1074)
  F64.roundHalfEven (q / pow2 e) * pow2 e

/-- The double nearest to a number. -/
def nearest (q : ℚ) : F64 :=
  if q = 0 then .fin 0
  else
    let x := roundPos |q|
    if pow2 1024 ≤ x then .inf (decide (q < 0)) else .fin (if q < 0 then -x else x)

/-- `s * 10 ^ e`. -/
def decimal (d : Nat × Int) : ℚ := d.1 * pow10 d.2

/-- The two decimals of `k` digits around a positive number, the closer one first. -/
def around (q : ℚ) (k : Nat) : List (Nat × Int) :=
  let e := log10 q + 1 - k
  let low := ⌊q / pow10 e⌋.toNat
  let high : Nat × Int := if low + 1 = 10 ^ k then (1, e + k) else (low + 1, e)
  if F64.roundHalfEven (q / pow10 e) = low then [(low, e), high] else [high, (low, e)]

/-- The shortest decimal that is read as a positive double; 17 digits are enough for all. -/
def shortest (q : ℚ) : Nat × Int :=
  (((List.range 17).flatMap fun k => around q (k + 1)).find? fun d =>
    nearest (decimal d) = .fin q).getD (0, 0)

/-- The last `m` digits of a number. -/
def lastDigits (m n : Nat) : Digits :=
  ⟨List.replicate (m - (Nat.toDigits 10 n).length) '0' ++ Nat.toDigits 10 n, by simp, by
    intro c hc
    rcases List.mem_append.1 hc with hc | hc
    · rw [List.eq_of_mem_replicate hc]
      rfl
    · exact (Digits.ofNat n).digits c hc⟩

/-- How a decimal is laid out: with an exponent from `1e21` on and below `1e-6`. -/
def layout (neg : Bool) (s : Nat) (e : Int) : Numeral :=
  let k := (Nat.toDigits 10 s).length
  let n : Int := e + k
  if 0 ≤ e ∧ n ≤ 21 then ⟨neg, .ofNat (s * 10 ^ e.toNat), canonical_ofNat _, none, none⟩
  else if -6 < n ∧ n ≤ 21 then
    let m := (-e).toNat
    ⟨neg, .ofNat (s / 10 ^ m), canonical_ofNat _, some (lastDigits m (s % 10 ^ m)), none⟩
  else
    let exp := some (decide (n - 1 < 0), Digits.ofNat (n - 1).natAbs)
    ⟨neg, .ofNat (s / 10 ^ (k - 1)), canonical_ofNat _,
      if k = 1 then none else some (lastDigits (k - 1) (s % 10 ^ (k - 1))), exp⟩

/-- `Number::toString`, where that is a numeral. -/
def numeral : F64 → Option Numeral
  | .fin q =>
    if q = 0 then some (.ofInt 0)
    else some (layout (decide (q < 0)) (shortest |q|).1 (shortest |q|).2)
  | _ => none

end Feloxi.Doubles
