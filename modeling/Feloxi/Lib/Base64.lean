import Mathlib.Data.List.Basic

/-!
# Feloxi.Lib.Base64

Base64 engines: what an engine decodes is what it encodes. The engine of RFC 4648, section 5,
without padding, which refuses bits behind the last byte.
-/

namespace Feloxi.Base64

/-- An engine for texts that have one encoding each, in letters, digits, `-` and `_`. -/
structure Engine where
  encode : List UInt8 → String
  decode : String → Option (List UInt8)
  decode_eq_some : ∀ {text bytes}, decode text = some bytes ↔ text = encode bytes
  alphabet : ∀ {bytes c}, c ∈ (encode bytes).toList → c.isAlphanum = true ∨ c = '-' ∨ c = '_'

/-! ### Symbols -/

def symbols : List Char :=
  "ABCDEFGHIJKLMNOPQRSTUVWXYZabcdefghijklmnopqrstuvwxyz0123456789-_".toList

def symbol (n : Nat) : Char := symbols.getD n 'A'

def value (c : Char) : Option Nat := symbols.idxOf? c

theorem value_symbol {n : Nat} (h : n < 64) : value (symbol n) = some n := by
  have hall : ∀ i : Fin 64, value (symbol i) = some i.val := by decide +kernel
  exact hall ⟨n, h⟩

theorem value_eq_some {c : Char} {n : Nat} (h : value c = some n) : n < 64 ∧ symbol n = c := by
  obtain ⟨hn, hc, -⟩ := List.idxOf?_eq_some_iff.1 h
  refine ⟨hn, ?_⟩
  rw [symbol, List.getD_eq_getElem?_getD, List.getElem?_eq_getElem hn, Option.getD_some, hc]

theorem symbol_mem {n : Nat} (h : n < 64) : symbol n ∈ symbols := by
  have hlt : n < symbols.length := h
  rw [symbol, List.getD_eq_getElem?_getD, List.getElem?_eq_getElem hlt]
  exact List.getElem_mem hlt

/-! ### Groups of three bytes -/

def encodeGroups : List UInt8 → List Char
  | a :: b :: c :: rest =>
    symbol (a.toNat / 4) :: symbol (a.toNat % 4 * 16 + b.toNat / 16) ::
      symbol (b.toNat % 16 * 4 + c.toNat / 64) :: symbol (c.toNat % 64) :: encodeGroups rest
  | [a, b] =>
    [symbol (a.toNat / 4), symbol (a.toNat % 4 * 16 + b.toNat / 16), symbol (b.toNat % 16 * 4)]
  | [a] => [symbol (a.toNat / 4), symbol (a.toNat % 4 * 16)]
  | [] => []

def decodeGroups : List Char → Option (List UInt8)
  | c :: d :: e :: f :: rest => do
    let w ← value c
    let x ← value d
    let y ← value e
    let z ← value f
    let bytes ← decodeGroups rest
    some (.ofNat (w * 4 + x / 16) :: .ofNat (x % 16 * 16 + y / 4) :: .ofNat (y % 4 * 64 + z) ::
      bytes)
  | [c, d, e] => do
    let w ← value c
    let x ← value d
    let y ← value e
    if y % 4 = 0 then some [.ofNat (w * 4 + x / 16), .ofNat (x % 16 * 16 + y / 4)] else none
  | [c, d] => do
    let w ← value c
    let x ← value d
    if x % 16 = 0 then some [.ofNat (w * 4 + x / 16)] else none
  | [_] => none
  | [] => some []

theorem ofNat_eq {a : UInt8} {n : Nat} (h : n = a.toNat) : UInt8.ofNat n = a := by
  rw [h, UInt8.ofNat_toNat]

theorem decodeGroups_encodeGroups (bytes : List UInt8) :
    decodeGroups (encodeGroups bytes) = some bytes := by
  have hvalue : ∀ {n : Nat}, n < 64 → value (symbol n) = some n := value_symbol
  induction bytes using encodeGroups.induct with
  | case1 a b c rest ih =>
      have ha := a.toNat_lt
      have hb := b.toNat_lt
      have hc := c.toNat_lt
      simp (disch := omega) only [encodeGroups, decodeGroups, ih, hvalue, Option.bind_eq_bind,
        Option.bind_some]
      rw [ofNat_eq (a := a) (by omega), ofNat_eq (a := b) (by omega), ofNat_eq (a := c) (by omega)]
  | case2 a b =>
      have ha := a.toNat_lt
      have hb := b.toNat_lt
      simp (disch := omega) only [encodeGroups, decodeGroups, hvalue, Option.bind_eq_bind,
        Option.bind_some]
      rw [if_pos (by omega), ofNat_eq (a := a) (by omega), ofNat_eq (a := b) (by omega)]
  | case3 a =>
      have ha := a.toNat_lt
      simp (disch := omega) only [encodeGroups, decodeGroups, hvalue, Option.bind_eq_bind,
        Option.bind_some]
      rw [if_pos (by omega), ofNat_eq (a := a) (by omega)]
  | case4 => rfl

/-- The bits behind the last byte are zero, so that there is no other text. -/
theorem encodeGroups_of_decodeGroups {text : List Char} {bytes : List UInt8}
    (h : decodeGroups text = some bytes) : encodeGroups bytes = text := by
  induction text using decodeGroups.induct generalizing bytes with
  | case1 c d e f rest ih =>
      simp only [decodeGroups, Option.bind_eq_bind, Option.bind_eq_some_iff] at h
      obtain ⟨w, hw, x, hx, y, hy, z, hz, bytes, hbytes, h⟩ := h
      obtain ⟨hw, rfl⟩ := value_eq_some hw
      obtain ⟨hx, rfl⟩ := value_eq_some hx
      obtain ⟨hy, rfl⟩ := value_eq_some hy
      obtain ⟨hz, rfl⟩ := value_eq_some hz
      cases h
      simp only [encodeGroups, ih hbytes, UInt8.toNat_ofNat']
      congr <;> omega
  | case2 c d e =>
      simp only [decodeGroups, Option.bind_eq_bind, Option.bind_eq_some_iff] at h
      obtain ⟨w, hw, x, hx, y, hy, h⟩ := h
      obtain ⟨hw, rfl⟩ := value_eq_some hw
      obtain ⟨hx, rfl⟩ := value_eq_some hx
      obtain ⟨hy, rfl⟩ := value_eq_some hy
      split at h
      · cases h
        simp only [encodeGroups, UInt8.toNat_ofNat']
        congr <;> omega
      · cases h
  | case3 c d =>
      simp only [decodeGroups, Option.bind_eq_bind, Option.bind_eq_some_iff] at h
      obtain ⟨w, hw, x, hx, h⟩ := h
      obtain ⟨hw, rfl⟩ := value_eq_some hw
      obtain ⟨hx, rfl⟩ := value_eq_some hx
      split at h
      · cases h
        simp only [encodeGroups, UInt8.toNat_ofNat']
        congr <;> omega
      · cases h
  | case4 c => cases h
  | case5 => cases h; rfl

theorem mem_encodeGroups {bytes : List UInt8} {c : Char} (h : c ∈ encodeGroups bytes) :
    c ∈ symbols := by
  have hmem : ∀ n, n < 64 → symbol n ∈ symbols := fun n => symbol_mem
  induction bytes using encodeGroups.induct with
  | case1 a b d rest ih =>
      have ha := a.toNat_lt
      have hb := b.toNat_lt
      have hd := d.toNat_lt
      simp only [encodeGroups, List.mem_cons] at h
      rcases h with rfl | rfl | rfl | rfl | h
      · exact hmem _ (by omega)
      · exact hmem _ (by omega)
      · exact hmem _ (by omega)
      · exact hmem _ (by omega)
      · exact ih h
  | case2 a b =>
      have ha := a.toNat_lt
      have hb := b.toNat_lt
      simp only [encodeGroups, List.mem_cons, List.not_mem_nil, or_false] at h
      rcases h with rfl | rfl | rfl <;> exact hmem _ (by omega)
  | case3 a =>
      have ha := a.toNat_lt
      simp only [encodeGroups, List.mem_cons, List.not_mem_nil, or_false] at h
      rcases h with rfl | rfl <;> exact hmem _ (by omega)
  | case4 => cases h

/-- `URL_SAFE_NO_PAD`. -/
def urlSafeNoPad : Engine where
  encode bytes := String.ofList (encodeGroups bytes)
  decode text := decodeGroups text.toList
  decode_eq_some := by
    intro text bytes
    constructor
    · intro h
      rw [encodeGroups_of_decodeGroups h, String.ofList_toList]
    · rintro rfl
      rw [String.toList_ofList, decodeGroups_encodeGroups]
  alphabet := by
    intro bytes c h
    rw [String.toList_ofList] at h
    have hall : symbols.all (fun c => c.isAlphanum || c == '-' || c == '_') = true := by decide
    have := List.all_eq_true.1 hall c (mem_encodeGroups h)
    simpa [or_assoc] using this

end Feloxi.Base64
