import Feloxi.Lib.Separators
import Mathlib.Algebra.Group.Nat.Defs

/-!
# Feloxi.Lib.Text

Strings as Rust has them: trimming, splitting at a character, and the bytes of UTF-8.
-/

namespace Feloxi

/-- What `trim` takes away: the characters of the property `White_Space`. -/
def isWhiteSpace (c : Char) : Bool :=
  let n := c.toNat
  (9 ≤ n && n ≤ 13) || n == 0x20 || n == 0x85 || n == 0xA0 || n == 0x1680 ||
    (0x2000 ≤ n && n ≤ 0x200A) || n == 0x2028 || n == 0x2029 || n == 0x202F || n == 0x205F ||
    n == 0x3000

def trim (s : List Char) : List Char :=
  ((s.dropWhile isWhiteSpace).reverse.dropWhile isWhiteSpace).reverse

/-- `s.parse::<u64>()`: digits, maybe behind a `+`, of a number that fits. -/
def parseU64 (s : List Char) : Option Nat :=
  let digits := match s with
    | '+' :: rest => rest
    | _ => s
  if digits = [] ∨ ¬ digits.all Char.isDigit then none
  else if Nat.ofDigitChars 10 digits 0 < 2 ^ 64 then some (Nat.ofDigitChars 10 digits 0)
  else none

/-- `split_once`. -/
def splitOnce (c : Char) (s : String) : Option (String × String) :=
  (s.toList.dropInfix? [c]).map fun cut => (String.ofList cut.1, String.ofList cut.2)

theorem splitOnce_eq_some {c : Char} {s a b : String} :
    splitOnce c s = some (a, b) ↔ s.toList = a.toList ++ c :: b.toList ∧ c ∉ a.toList := by
  have hcut : splitOnce c s = some (a, b) ↔
      s.toList.dropInfix? [c] = some (a.toList, b.toList) := by
    rw [splitOnce, Option.map_eq_some_iff]
    constructor
    · rintro ⟨⟨head, tail⟩, hcut, heq⟩
      cases heq
      rw [hcut, String.toList_ofList, String.toList_ofList]
    · intro h
      exact ⟨_, h, by rw [String.ofList_toList, String.ofList_toList]⟩
  rw [hcut, Separators.dropInfix?_singleton]

theorem splitOnce_eq_none {c : Char} {s : String} : splitOnce c s = none ↔ c ∉ s.toList := by
  constructor
  · intro h hmem
    obtain ⟨before, behind, hsplit, hbefore⟩ := List.eq_append_cons_of_mem hmem
    have hcut : splitOnce c s = some (String.ofList before, String.ofList behind) := by
      rw [splitOnce_eq_some, String.toList_ofList, String.toList_ofList]
      exact ⟨hsplit, hbefore⟩
    rw [hcut] at h
    cases h
  · intro h
    cases hcut : splitOnce c s with
    | none => rfl
    | some cut =>
        rw [(splitOnce_eq_some.1 hcut).1] at h
        simp at h

/-- `as_bytes`. -/
def asBytes (s : String) : List UInt8 := s.toByteArray.data.toList

/-- `String::from_utf8`. -/
def fromUtf8 (bytes : List UInt8) : Option String := String.fromUTF8? ⟨bytes.toArray⟩

theorem fromUtf8_asBytes (s : String) : fromUtf8 (asBytes s) = some s := by
  rw [fromUtf8, asBytes, Array.toArray_toList, String.fromUTF8?]
  exact dif_pos s.isValidUTF8

theorem asBytes_injective {s t : String} (h : asBytes s = asBytes t) : s = t := by
  have := congrArg fromUtf8 h
  rw [fromUtf8_asBytes, fromUtf8_asBytes] at this
  exact Option.some.inj this

theorem asBytes_eq_flatMap (s : String) : asBytes s = s.toList.flatMap String.utf8EncodeChar := by
  conv => lhs; rw [← String.ofList_toList (s := s)]
  rw [asBytes, String.toByteArray_ofList, List.utf8Encode]
  simp

/-- Only the character NUL has the byte zero. -/
theorem zero_not_mem_asBytes {s : String} (h : '\x00' ∉ s.toList) : 0 ∉ asBytes s := by
  rw [asBytes_eq_flatMap, List.mem_flatMap]
  rintro ⟨c, hc, hzero⟩
  have hlt : c.val.toNat < 1114112 := by
    have := c.valid
    simp only [UInt32.isValidChar, Nat.isValidChar] at this
    omega
  have hnat : c.val.toNat = 0 := by
    rw [String.utf8EncodeChar] at hzero
    generalize c.val.toNat = v at hzero hlt ⊢
    -- every byte of a longer sequence is at least 128
    split_ifs at hzero <;>
      simp only [List.mem_cons, List.not_mem_nil, or_false, ← UInt8.toNat_inj,
        UInt8.toNat_ofNat', UInt8.toNat_zero] at hzero <;> omega
  have hchar : c = '\x00' := Char.ext (UInt32.toNat_inj.1 hnat)
  exact h (hchar ▸ hc)

end Feloxi
