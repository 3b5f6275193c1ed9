import Feloxi.Lib.Text

/-!
# Feloxi.Lib.Utf8

A text and its bytes, side by side. A program that walks the bytes and compares them with ASCII
characters sees what one that walks the characters sees: the first byte of a wider character is
none of them.
-/

namespace Feloxi.Utf8

def encode (s : List Char) : List UInt8 := s.flatMap String.utf8EncodeChar

/-- An ASCII character as a byte. -/
def byte (c : Char) : UInt8 := UInt8.ofNat c.toNat

/-- `b as char`. -/
def asChar (b : UInt8) : Char := Char.ofNat b.toNat

def IsAscii (c : Char) : Prop := c.toNat < 128

instance (c : Char) : Decidable (IsAscii c) := inferInstanceAs (Decidable (_ < _))

@[simp] theorem encode_nil : encode [] = [] := rfl

theorem encode_cons (c : Char) (s : List Char) :
    encode (c :: s) = String.utf8EncodeChar c ++ encode s := rfl

theorem encode_append (s t : List Char) : encode (s ++ t) = encode s ++ encode t :=
  List.flatMap_append

theorem asBytes_eq_encode (s : String) : asBytes s = encode s.toList := asBytes_eq_flatMap s

theorem fromUtf8_encode (s : List Char) : fromUtf8 (encode s) = some (String.ofList s) := by
  have h := fromUtf8_asBytes (String.ofList s)
  rwa [asBytes_eq_encode, String.toList_ofList] at h

/-- Bytes that are a text are its encoding. -/
theorem encode_of_fromUtf8 {bytes : List UInt8} {t : String} (h : fromUtf8 bytes = some t) :
    encode t.toList = bytes := by
  unfold fromUtf8 String.fromUTF8? at h
  split at h
  · cases h
    rw [← asBytes_eq_encode]
    exact List.toList_toArray
  · cases h

theorem encode_injective {s t : List Char} (h : encode s = encode t) : s = t := by
  have hsome := fromUtf8_encode s
  rw [h, fromUtf8_encode] at hsome
  rw [← String.toList_ofList (l := s), ← Option.some.inj hsome, String.toList_ofList]

@[simp] theorem encode_eq_nil {s : List Char} : encode s = [] ↔ s = [] := by
  refine ⟨fun h => encode_injective (h.trans encode_nil.symm), fun h => by rw [h, encode_nil]⟩

theorem utf8EncodeChar_ascii {c : Char} (h : IsAscii c) : String.utf8EncodeChar c = [byte c] := by
  have hle : c.val.toNat ≤ 127 := Nat.le_of_lt_succ h
  simp only [String.utf8EncodeChar]
  rw [if_pos hle]
  rfl

/-- A wider character begins with a byte above all ASCII characters, which tells its length. -/
theorem utf8EncodeChar_wide {c : Char} (h : ¬ IsAscii c) :
    ∃ b more, String.utf8EncodeChar c = b :: more ∧
      (192 ≤ b.toNat ∧ b.toNat < 224 ∧ more.length = 1 ∨
        224 ≤ b.toNat ∧ b.toNat < 240 ∧ more.length = 2 ∨
          240 ≤ b.toNat ∧ b.toNat < 248 ∧ more.length = 3) := by
  have hwide : 128 ≤ c.val.toNat := Nat.not_lt.1 h
  have hlt : c.val.toNat < 1114112 := by
    have hvalid := c.valid
    simp only [UInt32.isValidChar, Nat.isValidChar] at hvalid
    omega
  simp only [String.utf8EncodeChar]
  generalize c.val.toNat = v at hwide hlt
  split_ifs with hone htwo hthree
  · omega
  · refine ⟨_, _, rfl, .inl ?_⟩
    rw [UInt8.toNat_ofNat']
    exact ⟨by omega, by omega, rfl⟩
  · refine ⟨_, _, rfl, .inr (.inl ?_)⟩
    rw [UInt8.toNat_ofNat']
    exact ⟨by omega, by omega, rfl⟩
  · refine ⟨_, _, rfl, .inr (.inr ?_)⟩
    rw [UInt8.toNat_ofNat']
    exact ⟨by omega, by omega, rfl⟩

theorem toNat_byte {c : Char} (h : IsAscii c) : (byte c).toNat = c.toNat := by
  unfold IsAscii at h
  rw [byte, UInt8.toNat_ofNat', Nat.mod_eq_of_lt (by omega)]

theorem asChar_byte {c : Char} (h : IsAscii c) : asChar (byte c) = c := by
  rw [asChar, toNat_byte h, Char.ofNat_toNat]

theorem toNat_asChar (b : UInt8) : (asChar b).toNat = b.toNat := by
  have hlt := b.toNat_lt
  have hvalid : b.toNat.isValidChar := .inl (by omega)
  rw [asChar, Char.ofNat, dif_pos hvalid]
  rfl

/-- A predicate of ASCII characters. -/
def OnAscii (p : Char → Bool) : Prop := ∀ c, p c = true → IsAscii c

/-- What a program sees of a character at its first byte. -/
structure Leads (c : Char) (b : UInt8) : Prop where
  eq_iff : ∀ x, IsAscii x → (b = byte x ↔ c = x)
  holds : ∀ p, OnAscii p → p (asChar b) = p c

/-- A character is its first byte and, if it is wider, others. -/
theorem exists_leads (c : Char) : ∃ b more, String.utf8EncodeChar c = b :: more ∧ Leads c b ∧
    (IsAscii c → b = byte c ∧ more = []) := by
  by_cases h : IsAscii c
  · refine ⟨byte c, [], utf8EncodeChar_ascii h, ⟨fun x hx => ⟨fun heq => ?_, fun heq => ?_⟩,
      fun p _ => by rw [asChar_byte h]⟩, fun _ => ⟨rfl, rfl⟩⟩
    · rw [← asChar_byte h, heq, asChar_byte hx]
    · rw [heq]
  · obtain ⟨b, more, hencode, hwide⟩ := utf8EncodeChar_wide h
    -- its first byte is above them all
    have hb : 192 ≤ b.toNat := by omega
    refine ⟨b, more, hencode, ⟨fun x hx => ⟨fun heq => ?_, fun heq => ?_⟩, fun p hp => ?_⟩,
      fun hascii => absurd hascii h⟩
    · have hnat := toNat_byte hx
      rw [← heq] at hnat
      unfold IsAscii at hx
      omega
    · rw [heq] at h
      exact absurd hx h
    · -- neither the character nor the byte is ASCII
      have hfirst : p (asChar b) = false := by
        rw [Bool.eq_false_iff]
        intro htrue
        have hascii := hp _ htrue
        rw [IsAscii, toNat_asChar] at hascii
        omega
      have hsecond : p c = false := by
        rw [Bool.eq_false_iff]
        exact fun htrue => h (hp c htrue)
      rw [hfirst, hsecond]

section

variable {p : Char → Bool} (hp : OnAscii p)

include hp in
/-- A run of ASCII characters is one of bytes. -/
theorem takeWhile_encode (s : List Char) :
    (encode s).takeWhile (fun b => p (asChar b)) = encode (s.takeWhile p) ∧
      (encode s).dropWhile (fun b => p (asChar b)) = encode (s.dropWhile p) := by
  induction s with
  | nil => exact ⟨rfl, rfl⟩
  | cons c s ih =>
      obtain ⟨b, more, hencode, hleads, hascii⟩ := exists_leads c
      have hhead := hleads.holds p hp
      by_cases hc : p c = true
      · obtain ⟨-, hmore⟩ := hascii (hp c hc)
        rw [hc] at hhead
        simp [encode_cons, hencode, hmore, hhead, hc, ih]
      · rw [Bool.not_eq_true] at hc
        rw [hc] at hhead
        simp [encode_cons, hencode, hhead, hc]

end

theorem encode_cons_ascii {c : Char} (h : IsAscii c) (s : List Char) :
    encode (c :: s) = byte c :: encode s := by
  rw [encode_cons, utf8EncodeChar_ascii h]
  rfl

theorem length_encode_ascii {s : List Char} (h : ∀ c ∈ s, IsAscii c) :
    (encode s).length = s.length := by
  induction s with
  | nil => rfl
  | cons c s ih =>
      obtain ⟨hc, hs⟩ := List.forall_mem_cons.1 h
      rw [encode_cons_ascii hc, List.length_cons, ih hs, List.length_cons]

theorem length_le_encode (s : List Char) : s.length ≤ (encode s).length := by
  induction s with
  | nil => exact le_rfl
  | cons c s ih =>
      obtain ⟨b, more, hencode, -, -⟩ := exists_leads c
      rw [encode_cons, hencode, List.length_append, List.length_cons, List.length_cons]
      omega

/-- ASCII bytes at the head of a text are its first characters. -/
theorem prefix_of_encode {s t : List Char} {rest : List UInt8} (ht : ∀ c ∈ t, IsAscii c)
    (h : encode s = encode t ++ rest) : ∃ s', s = t ++ s' ∧ rest = encode s' := by
  induction t generalizing s with
  | nil => exact ⟨s, rfl, h.symm⟩
  | cons x t ih =>
      obtain ⟨hx, ht⟩ := List.forall_mem_cons.1 ht
      rw [encode_cons_ascii hx, List.cons_append] at h
      cases s with
      | nil => cases h
      | cons c s =>
          obtain ⟨b, more, hencode, hleads, hascii⟩ := exists_leads c
          rw [encode_cons, hencode, List.cons_append] at h
          obtain ⟨hb, hrest⟩ := List.cons.inj h
          have hc : c = x := (hleads.eq_iff x hx).1 hb
          rw [(hascii (hc ▸ hx)).2, List.nil_append] at hrest
          obtain ⟨s', hs', heq⟩ := ih ht hrest
          exact ⟨s', by rw [hc, hs']; rfl, heq⟩

end Feloxi.Utf8
