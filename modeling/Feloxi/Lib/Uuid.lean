import Mathlib.Data.BitVec
import Mathlib.Data.List.Nodup

/-!
# Feloxi.Lib.Uuid

128-bit identifiers and their hyphenated lower-case rendering. The rendering has
one fixed length and is injective, so keys built by joining rendered identifiers
name them unambiguously.
-/

namespace Feloxi

/-- A UUID. -/
abbrev Uuid := BitVec 128

namespace Uuid

/-- The lower-case hexadecimal digit of a nibble. -/
def hexDigit (n : BitVec 4) : Char :=
  if n.toNat < 10 then Char.ofNat (48 + n.toNat) else Char.ofNat (87 + n.toNat)

theorem hexDigit_injective : Function.Injective hexDigit := by
  intro a b h
  have hall : ∀ i j : Fin 16, hexDigit ⟨i⟩ = hexDigit ⟨j⟩ → i = j := by decide
  exact congrArg BitVec.ofFin (hall a.toFin b.toFin h)

/-- Nibble `i` of an identifier, counted from the least significant one. -/
def nibble (u : Uuid) (i : Nat) : BitVec 4 := u.extractLsb' (4 * i) 4

/-- The positions of the 8-4-4-4-12 layout: a nibble, or a hyphen. -/
def layout : List (Option Nat) :=
  [some 31, some 30, some 29, some 28, some 27, some 26, some 25, some 24, none,
   some 23, some 22, some 21, some 20, none, some 19, some 18, some 17, some 16, none,
   some 15, some 14, some 13, some 12, none,
   some 11, some 10, some 9, some 8, some 7, some 6, some 5, some 4, some 3, some 2,
   some 1, some 0]

/-- The character at one position of the layout. -/
def slot (u : Uuid) : Option Nat → Char
  | some i => hexDigit (nibble u i)
  | none => '-'

/-- `Display`: the hyphenated form. -/
def display (u : Uuid) : String := String.ofList (layout.map (slot u))

theorem some_mem_layout {i : Nat} (hi : i < 32) : some i ∈ layout := by
  revert i; decide

theorem eq_of_nibbles {u v : Uuid} (h : ∀ i < 32, nibble u i = nibble v i) : u = v := by
  apply BitVec.eq_of_getLsbD_eq
  intro j hj
  have hn := congrArg (fun n => BitVec.getLsbD n (j % 4)) (h (j / 4) (by omega))
  simp only [nibble, BitVec.getLsbD_extractLsb'] at hn
  have hlt : j % 4 < 4 := Nat.mod_lt _ (by decide)
  have hidx : 4 * (j / 4) + j % 4 = j := Nat.div_add_mod j 4
  simpa [hlt, hidx] using hn

@[simp] theorem display_length (u : Uuid) : (display u).length = 36 := by
  simp [display, layout]

theorem display_injective : Function.Injective display := by
  intro u v h
  have hmap : layout.map (slot u) = layout.map (slot v) := String.ofList_injective h
  rw [List.map_inj_left] at hmap
  exact eq_of_nibbles fun i hi => hexDigit_injective (hmap (some i) (some_mem_layout hi))

/-! ### Parsing -/

def hexValue (c : Char) : Option Nat :=
  if '0' ≤ c ∧ c ≤ '9' then some (c.toNat - 48)
  else if 'a' ≤ c ∧ c ≤ 'f' then some (c.toNat - 87)
  else if 'A' ≤ c ∧ c ≤ 'F' then some (c.toNat - 55)
  else none

/-- The digits at the places of a layout. -/
def readSlots : List (Option Nat) → List Char → Option (List Nat)
  | [], [] => some []
  | none :: slots, c :: s => if c = '-' then readSlots slots s else none
  | some _ :: slots, c :: s => do
    let digit ← hexValue c
    let digits ← readSlots slots s
    some (digit :: digits)
  | _, _ => none

def ofDigits (digits : List Nat) : Uuid :=
  BitVec.ofNat 128 (digits.foldl (fun n digit => n * 16 + digit) 0)

/-- `Uuid::parse_str`: 32 digits, or the hyphenated form, also in braces or as a URN. -/
def parseStr (s : String) : Option Uuid :=
  let hyphenated (chars : List Char) := (readSlots layout chars).map ofDigits
  match s.length with
  | 32 => (readSlots (layout.filter Option.isSome) s.toList).map ofDigits
  | 36 => hyphenated s.toList
  | 38 =>
    if s.toList.head? = some '\x7b' ∧ s.toList.getLast? = some '\x7d' then
      hyphenated s.toList.tail.dropLast
    else none
  | 45 => (s.toList.dropPrefix? "urn:uuid:".toList).bind hyphenated
  | _ => none

theorem hexValue_hexDigit (n : BitVec 4) : hexValue (hexDigit n) = some n.toNat := by
  have hall : ∀ i : Fin 16, hexValue (hexDigit ⟨i⟩) = some i.val := by decide
  exact hall n.toFin

theorem readSlots_slot (u : Uuid) (slots : List (Option Nat)) :
    readSlots slots (slots.map (slot u)) =
      some ((slots.filterMap id).map fun i => (nibble u i).toNat) := by
  induction slots with
  | nil => rfl
  | cons place slots ih =>
      cases place with
      | none => simpa [readSlots, slot] using ih
      | some i => simp [readSlots, slot, hexValue_hexDigit, ih]

/-- The digits below place `k`, behind what comes before them. -/
theorem foldl_digits (n k : Nat) :
    ((List.range k).reverse.map fun i => n / 16 ^ i % 16).foldl (fun n digit => n * 16 + digit)
      (n / 16 ^ k) = n := by
  induction k with
  | zero => simp
  | succ k ih =>
      have hstep : n / 16 ^ (k + 1) * 16 + n / 16 ^ k % 16 = n / 16 ^ k := by
        rw [Nat.pow_succ, ← Nat.div_div_eq_div_mul]
        omega
      rw [List.range_succ, List.reverse_append, List.reverse_singleton, List.singleton_append,
        List.map_cons, List.foldl_cons, hstep, ih]

theorem toNat_nibble (u : Uuid) (i : Nat) : (nibble u i).toNat = u.toNat / 16 ^ i % 16 := by
  rw [nibble, BitVec.extractLsb'_toNat, Nat.shiftRight_eq_div_pow, Nat.pow_mul]

/-- What is displayed is read as it was. -/
theorem parseStr_display (u : Uuid) : parseStr (display u) = some u := by
  have hplaces : layout.filterMap id = (List.range 32).reverse := by decide
  have hzero : u.toNat / 16 ^ 32 = 0 := Nat.div_eq_of_lt u.isLt
  have hdigits := foldl_digits u.toNat 32
  rw [hzero] at hdigits
  have hread := readSlots_slot u layout
  rw [hplaces] at hread
  simp only [toNat_nibble] at hread
  rw [parseStr, display_length]
  simp only [display, String.toList_ofList, hread, Option.map_some, ofDigits, hdigits,
    BitVec.ofNat_toNat, BitVec.setWidth_eq]

/-- What follows a rendered identifier is determined with it. -/
theorem display_append_inj {u v : Uuid} {x y : List Char}
    (h : (display u).toList ++ x = (display v).toList ++ y) : u = v ∧ x = y := by
  have hlen : (display u).toList.length = (display v).toList.length := by
    simp only [String.length_toList, display_length]
  obtain ⟨hdisplay, hrest⟩ := List.append_inj h hlen
  exact ⟨display_injective (String.toList_injective hdisplay), hrest⟩

/-- Two rendered identifiers joined by a hyphen determine both. -/
theorem display_pair_injective {lead : String} {a b a' b' : Uuid}
    (h : lead ++ display a ++ "-" ++ display b = lead ++ display a' ++ "-" ++ display b') :
    a = a' ∧ b = b' := by
  have hl := congrArg String.toList h
  simp only [String.toList_append, List.append_assoc, List.append_cancel_left_eq] at hl
  obtain ⟨ha, hrest⟩ := display_append_inj hl
  exact ⟨ha, display_injective (String.toList_injective (List.append_cancel_left hrest))⟩

end Uuid

end Feloxi
