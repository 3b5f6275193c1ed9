import Feloxi.Lib.Separators
import Mathlib.Algebra.GroupWithZero.Nat
import Mathlib.Data.List.TakeWhile

/-!
# Feloxi.Lib.Slices

Slices of a text by byte index, as `str` has them: an index is one of a place between two
characters, or else slicing panics. Searches give the index of what they find.
-/

namespace Feloxi.Slices

open Separators

/-- `len`, the bytes of UTF-8. -/
def size (s : List Char) : Nat := (s.map Char.utf8Size).sum

@[simp] theorem size_nil : size [] = 0 := rfl

theorem size_cons (c : Char) (s : List Char) : size (c :: s) = c.utf8Size + size s := List.sum_cons

@[simp] theorem size_append (s t : List Char) : size (s ++ t) = size s + size t := by
  rw [size, List.map_append, List.sum_append]
  rfl

/-- `split_at`; inside of a character, and behind the end, there is no place to split at. -/
def splitAt : List Char → Nat → Option (List Char × List Char)
  | s, 0 => some ([], s)
  | [], _ + 1 => none
  | c :: s, n + 1 =>
    if c.utf8Size ≤ n + 1 then (splitAt s (n + 1 - c.utf8Size)).map fun cut => (c :: cut.1, cut.2)
    else none

/-- Between two parts of a text is a place to split at. -/
theorem splitAt_append (s t : List Char) : splitAt (s ++ t) (size s) = some (s, t) := by
  induction s with
  | nil => cases t <;> rfl
  | cons c s ih =>
      have hpos : 0 < c.utf8Size := Char.utf8Size_pos c
      obtain ⟨n, hn⟩ : ∃ n, size (c :: s) = n + 1 := ⟨size (c :: s) - 1, by rw [size_cons]; omega⟩
      have hrest : n + 1 - c.utf8Size = size s := by
        rw [← hn, size_cons]
        omega
      rw [hn, List.cons_append, splitAt, if_pos (by rw [← hn, size_cons]; omega), hrest, ih]
      rfl

/-- `find` of a text. -/
def findText (sep s : List Char) : Option Nat := (s.dropInfix? sep).map fun cut => size cut.1

/-- `find` of a character. -/
def findChar (p : Char → Bool) (s : List Char) : Option Nat :=
  if s.any p then some (size (s.takeWhile fun c => !p c)) else none

/-- `rfind` of a character. -/
def rfindChar (c : Char) (s : List Char) : Option Nat := (splitLast c s).map fun cut => size cut.1

/-- What stands in front of the first such character; the whole text, if there is none. -/
theorem getD_findChar (p : Char → Bool) (s : List Char) :
    (findChar p s).getD (size s) = size (s.takeWhile fun c => !p c) := by
  unfold findChar
  split
  · rfl
  · rename_i hnone
    have hall : s.takeWhile (fun c => !p c) = s := by
      rw [List.takeWhile_eq_self_iff]
      intro c hc
      rw [Bool.not_eq_true, List.any_eq_false] at hnone
      simpa using hnone c hc
    rw [hall]
    rfl

theorem findChar_append {p : Char → Bool} {c : Char} {s : List Char} (hc : p c = true)
    (hs : ∀ d ∈ s, p d = false) (t : List Char) : findChar p (s ++ c :: t) = some (size s) := by
  have hpos : ∀ d ∈ s, (!p d) = true := by
    intro d hd
    rw [hs d hd]
    rfl
  rw [findChar, if_pos (by simp [hc]), List.takeWhile_append_of_pos hpos]
  simp [hc]

end Feloxi.Slices
