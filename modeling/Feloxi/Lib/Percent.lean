import Feloxi.Lib.Text

/-!
# Feloxi.Lib.Percent

Percent encoding. A byte of the encoded set, and every byte that is not ASCII, is written as `%`
and two digits; reading takes every such triple for its byte and leaves everything else as it is,
a lone `%` as well.
-/

namespace Feloxi.Percent

/-! ### Reading -/

/-- A byte that is a hexadecimal digit. -/
def hexValue (b : UInt8) : Option Nat :=
  if 48 ≤ b ∧ b ≤ 57 then some (b.toNat - 48)
  else if 65 ≤ b ∧ b ≤ 70 then some (b.toNat - 55)
  else if 97 ≤ b ∧ b ≤ 102 then some (b.toNat - 87)
  else none

/-- `%`. -/
def percent : UInt8 := 37

/-- `percent_decode`. -/
def decode : List UInt8 → List UInt8
  | [] => []
  | [b] => [b]
  | [b, c] => [b, c]
  | b :: hi :: lo :: rest =>
    if b = percent then
      match hexValue hi, hexValue lo with
      | some h, some l => UInt8.ofNat (h * 16 + l) :: decode rest
      | _, _ => b :: decode (hi :: lo :: rest)
    else b :: decode (hi :: lo :: rest)

theorem decode_cons_of_ne {b : UInt8} (h : b ≠ percent) (rest : List UInt8) :
    decode (b :: rest) = b :: decode rest := by
  rcases rest with _ | ⟨hi, _ | ⟨lo, rest⟩⟩
  · rfl
  · rfl
  · rw [decode, if_neg h]

/-! ### Bytes that are no text -/

/-- How many bytes follow one that begins a longer sequence, and the bounds of the first of them. -/
def continuation (b : UInt8) : Option (Nat × UInt8 × UInt8) :=
  if 0xC2 ≤ b ∧ b ≤ 0xDF then some (1, 0x80, 0xBF)
  else if b = 0xE0 then some (2, 0xA0, 0xBF)
  else if b = 0xED then some (2, 0x80, 0x9F)
  else if 0xE1 ≤ b ∧ b ≤ 0xEF then some (2, 0x80, 0xBF)
  else if b = 0xF0 then some (3, 0x90, 0xBF)
  else if 0xF1 ≤ b ∧ b ≤ 0xF3 then some (3, 0x80, 0xBF)
  else if b = 0xF4 then some (3, 0x80, 0x8F)
  else none

/-- How many bytes one replacement character stands for: the longest start of a sequence. -/
def invalidLength : List UInt8 → Nat
  | b :: c :: rest =>
    match continuation b with
    | some (n, low, high) =>
      if low ≤ c ∧ c ≤ high then
        2 + ((rest.take (n - 2)).takeWhile fun d => decide (0x80 ≤ d ∧ d ≤ 0xBF)).length
      else 1
    | none => 1
  | _ => 1

/-- The character that the first bytes encode, and how many they are. -/
def leadingChar (bytes : List UInt8) : Option (Char × Nat) :=
  [1, 2, 3, 4].findSome? fun n =>
    match (fromUtf8 (bytes.take n)).map String.toList with
    | some [c] => some (c, n)
    | _ => none

/-- Character by character, with a replacement for what is none; the fuel is the length. -/
def replaceInvalid : Nat → List UInt8 → List Char
  | 0, _ => []
  | _ + 1, [] => []
  | fuel + 1, bytes@(_ :: _) =>
    match leadingChar bytes with
    | some (c, n) => c :: replaceInvalid fuel (bytes.drop n)
    | none => '\uFFFD' :: replaceInvalid fuel (bytes.drop (invalidLength bytes))

/-- `decode_utf8_lossy`. -/
def utf8Lossy (bytes : List UInt8) : String :=
  (fromUtf8 bytes).getD (String.ofList (replaceInvalid bytes.length bytes))

@[simp] theorem utf8Lossy_asBytes (s : String) : utf8Lossy (asBytes s) = s := by
  simp [utf8Lossy, fromUtf8_asBytes]

example : utf8Lossy [0x61, 0xE2, 0x82, 0x62, 0xFF] = "a\uFFFDb\uFFFD" := by decide +kernel

/-! ### Writing -/

/-- A set of ASCII bytes to encode; the sign itself and the separator of parameters are in it. -/
structure AsciiSet where
  contains : UInt8 → Bool
  hasPercent : contains percent = true
  hasAmpersand : contains 38 = true

/-- A digit of an encoded byte. -/
def hexDigit (n : Nat) : UInt8 := UInt8.ofNat (if n < 10 then 48 + n else 55 + n)

def encodeByte (set : AsciiSet) (b : UInt8) : List UInt8 :=
  if 128 ≤ b ∨ set.contains b then [percent, hexDigit (b.toNat / 16), hexDigit (b.toNat % 16)]
  else [b]

/-- `utf8_percent_encode`. -/
def encode (set : AsciiSet) (s : String) : String :=
  String.ofList (((asBytes s).flatMap (encodeByte set)).map fun b => Char.ofNat b.toNat)

theorem hexValue_hexDigit : ∀ n < 16, hexValue (hexDigit n) = some n := by decide

theorem hexDigit_lt : ∀ n < 16, hexDigit n < 128 ∧ hexDigit n ≠ 38 := by decide

theorem toNat_div_lt (b : UInt8) : b.toNat / 16 < 16 := by
  have := b.toNat_lt
  omega

theorem toNat_mod_lt (b : UInt8) : b.toNat % 16 < 16 := Nat.mod_lt _ (by decide)

/-- An encoded byte is read back, whatever follows. -/
theorem decode_encodeByte (set : AsciiSet) (b : UInt8) (rest : List UInt8) :
    decode (encodeByte set b ++ rest) = b :: decode rest := by
  unfold encodeByte
  split
  · have hb : UInt8.ofNat (b.toNat / 16 * 16 + b.toNat % 16) = b := by
      rw [Nat.mul_comm, Nat.div_add_mod, UInt8.ofNat_toNat]
    rw [List.cons_append, List.cons_append, List.cons_append, List.nil_append, decode, if_pos rfl,
      hexValue_hexDigit _ (toNat_div_lt b), hexValue_hexDigit _ (toNat_mod_lt b)]
    dsimp only
    rw [hb]
  · rename_i hplain
    refine decode_cons_of_ne (fun hpercent => hplain (.inr ?_)) rest
    rw [hpercent]
    exact set.hasPercent

theorem decode_flatMap_encodeByte (set : AsciiSet) (bytes : List UInt8) :
    decode (bytes.flatMap (encodeByte set)) = bytes := by
  induction bytes with
  | nil => rfl
  | cons b bytes ih => rw [List.flatMap_cons, decode_encodeByte, ih]

theorem mem_encodeByte {set : AsciiSet} {b c : UInt8} (h : c ∈ encodeByte set b) :
    c < 128 ∧ c ≠ 38 := by
  unfold encodeByte at h
  split at h
  · simp only [List.mem_cons, List.not_mem_nil, or_false] at h
    rcases h with rfl | rfl | rfl
    · decide
    · exact hexDigit_lt _ (toNat_div_lt b)
    · exact hexDigit_lt _ (toNat_mod_lt b)
  · rename_i hplain
    obtain rfl := List.mem_singleton.1 h
    rw [not_or] at hplain
    refine ⟨UInt8.not_le.1 hplain.1, fun hampersand => hplain.2 ?_⟩
    rw [hampersand]
    exact set.hasAmpersand

theorem toNat_ofNat_of_lt {b : UInt8} (h : b < 128) : (Char.ofNat b.toNat).toNat = b.toNat := by
  have : b.toNat < 128 := h
  have hvalid : b.toNat.isValidChar := .inl (by omega)
  rw [Char.ofNat, dif_pos hvalid]
  rfl

/-- An ASCII character is one byte. -/
theorem utf8EncodeChar_ofNat {b : UInt8} (h : b < 128) :
    String.utf8EncodeChar (Char.ofNat b.toNat) = [b] := by
  have hb : b.toNat < 128 := h
  have hval : (Char.ofNat b.toNat).val.toNat = b.toNat := toNat_ofNat_of_lt h
  simp only [String.utf8EncodeChar, hval]
  rw [if_pos (by omega), UInt8.ofNat_toNat]

theorem asBytes_ofList_ascii {bytes : List UInt8} (h : ∀ b ∈ bytes, b < 128) :
    asBytes (String.ofList (bytes.map fun b => Char.ofNat b.toNat)) = bytes := by
  rw [asBytes_eq_flatMap, String.toList_ofList]
  induction bytes with
  | nil => rfl
  | cons b bytes ih =>
      rw [List.map_cons, List.flatMap_cons, utf8EncodeChar_ofNat (h b List.mem_cons_self),
        ih fun c hc => h c (List.mem_cons_of_mem b hc)]
      rfl

/-- **What is encoded is read back.** -/
theorem utf8Lossy_decode_encode (set : AsciiSet) (s : String) :
    utf8Lossy (decode (asBytes (encode set s))) = s := by
  rw [encode, asBytes_ofList_ascii, decode_flatMap_encodeByte, utf8Lossy_asBytes]
  intro b hb
  obtain ⟨c, -, hc⟩ := List.mem_flatMap.1 hb
  exact (mem_encodeByte hc).1

/-- The separator of parameters is encoded. -/
theorem ampersand_not_mem_encode (set : AsciiSet) (s : String) : '&' ∉ (encode set s).toList := by
  rw [encode, String.toList_ofList, List.mem_map]
  intro ⟨b, hb, hchar⟩
  obtain ⟨c, -, hc⟩ := List.mem_flatMap.1 hb
  obtain ⟨hlt, hne⟩ := mem_encodeByte hc
  have := toNat_ofNat_of_lt hlt
  rw [hchar] at this
  exact hne (UInt8.toNat_inj.1 this.symm)

end Feloxi.Percent
