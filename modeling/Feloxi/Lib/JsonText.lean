import Mathlib.Algebra.Group.Nat.Defs
import Mathlib.Data.Rat.Defs

/-!
# Feloxi.Lib.JsonText

JSON texts (RFC 8259): trees over any type of numbers, the compact text of a tree whose
numbers are numerals, and the parser. What is printed is read as it was (`parse_print`).

A string is a sequence of scalar values, so that an escape for half a surrogate pair is no
text here.
-/

namespace Feloxi.JsonText

/-! ### Numerals -/

/-- One or more decimal digits. -/
@[ext] structure Digits where
  chars : List Char
  nonempty : chars ≠ []
  digits : ∀ c ∈ chars, c.isDigit = true
  deriving DecidableEq

/-- A number as it is written. -/
@[ext] structure Numeral where
  neg : Bool
  whole : Digits
  canonical : whole.chars.head? = some '0' → whole.chars = ['0']
  frac : Option Digits
  /-- The exponent, and whether it is negative. -/
  exp : Option (Bool × Digits)
  deriving DecidableEq

def pow10 : Int → ℚ
  | .ofNat n => ((10 ^ n : Nat) : ℚ)
  | .negSucc n => 1 / ((10 ^ (n + 1) : Nat) : ℚ)

def signed (neg : Bool) (n : Int) : Int := if neg then -n else n

namespace Digits

def value (d : Digits) : Nat := Nat.ofDigitChars 10 d.chars 0

/-- The decimal digits of a number. -/
def ofNat (n : Nat) : Digits :=
  ⟨Nat.toDigits 10 n, Nat.toDigits_ne_nil, fun _ hc =>
    Nat.isDigit_of_mem_toDigits (by decide) (by decide) hc⟩

@[simp] theorem value_ofNat (n : Nat) : (ofNat n).value = n := Nat.ofDigitChars_ten_toDigits

end Digits

/-- The digits of a number start with a zero only if it is zero. -/
theorem canonical_ofNat (n : Nat) :
    (Digits.ofNat n).chars.head? = some '0' → (Digits.ofNat n).chars = ['0'] := by
  show (Nat.toDigits 10 n).head? = some '0' → Nat.toDigits 10 n = ['0']
  induction n using Nat.strong_induction_on with
  | _ n ih =>
      by_cases hn : n < 10
      · rw [Nat.toDigits_of_lt_base hn]
        simp
      · intro hhead
        have hstep := Nat.toDigits_of_base_le (b := 10) (n := n) (by decide) (by omega)
        rw [hstep, List.head?_append,
          Option.or_of_isSome (List.isSome_head?.2 Nat.toDigits_ne_nil)] at hhead
        have hvalue := Nat.ofDigitChars_ten_toDigits (n := n / 10)
        rw [ih (n / 10) (by omega) hhead] at hvalue
        have hzero : n / 10 = 0 := hvalue.symm
        omega

namespace Numeral

/-- An integer as it is written. -/
def ofInt (n : Int) : Numeral :=
  ⟨decide (n < 0), .ofNat n.natAbs, canonical_ofNat _, none, none⟩

def fracChars (n : Numeral) : List Char := (n.frac.map Digits.chars).getD []

def exponent (n : Numeral) : Int := (n.exp.map fun e => signed e.1 e.2.value).getD 0

/-- The number that is written. -/
def value (n : Numeral) : ℚ :=
  ((signed n.neg (Nat.ofDigitChars 10 (n.whole.chars ++ n.fracChars) 0) : Int) : ℚ) *
    pow10 (n.exponent - n.fracChars.length)

/-- The integer that is written, without a fraction and an exponent. -/
def int? (n : Numeral) : Option Int :=
  match n.frac, n.exp with
  | none, none => some (signed n.neg n.whole.value)
  | _, _ => none

@[simp] theorem int?_ofInt (n : Int) : (ofInt n).int? = some n := by
  have hvalue : (Digits.ofNat n.natAbs).value = n.natAbs := Digits.value_ofNat _
  have hsigned : signed (decide (n < 0)) n.natAbs = n := by
    unfold signed
    split
    · rename_i hneg
      have hlt : n < 0 := of_decide_eq_true hneg
      omega
    · rename_i hneg
      have hle : ¬ n < 0 := fun hlt => hneg (decide_eq_true hlt)
      omega
  simp only [int?, ofInt, hvalue, hsigned]

theorem value_ofInt (n : Int) : (ofInt n).value = n := by
  have hint : signed (decide (n < 0)) (Digits.ofNat n.natAbs).value = n :=
    Option.some.inj (int?_ofInt n)
  have hvalue : (ofInt n).value =
      ((signed (decide (n < 0)) (Digits.ofNat n.natAbs).value : Int) : ℚ) * pow10 0 := by
    simp [value, ofInt, fracChars, exponent, Digits.value]
  rw [hvalue, hint]
  simp [pow10]

end Numeral

/-! ### Trees -/

inductive JsonTree (ν : Type) where
  | null
  | bool (b : Bool)
  | num (n : ν)
  | str (s : String)
  | arr (xs : List (JsonTree ν))
  | obj (entries : List (String × JsonTree ν))

/-- Values by key. -/
abbrev Entries (α : Type) := List (String × α)

namespace JsonTree

variable {ν : Type}

mutual
/-- The levels of arrays and objects. -/
def depth : JsonTree ν → Nat
  | .arr xs => depthItems xs + 1
  | .obj entries => depthEntries entries + 1
  | _ => 0
def depthItems : List (JsonTree ν) → Nat
  | [] => 0
  | x :: xs => max x.depth (depthItems xs)
def depthEntries : Entries (JsonTree ν) → Nat
  | [] => 0
  | (_, x) :: entries => max x.depth (depthEntries entries)
end

end JsonTree

/-! ### Printing -/

/-- `\b`, `\f` and the like. -/
def shortEscapes : List (Char × Char) :=
  [('"', '"'), ('\\', '\\'), ('b', '\x08'), ('f', '\x0c'), ('n', '\n'), ('r', '\r'), ('t', '\t')]

def hexDigit (n : Nat) : Char := Nat.digitChar n

/-- A character in a string; only quotes, backslashes and control characters are escaped. -/
def escape (c : Char) : List Char :=
  match shortEscapes.find? fun e => e.2 = c with
  | some e => ['\\', e.1]
  | none =>
    if c.toNat < 32 then ['\\', 'u', '0', '0', hexDigit (c.toNat / 16), hexDigit (c.toNat % 16)]
    else [c]

def quote (s : String) : List Char := '"' :: (s.toList.flatMap escape ++ ['"'])

def fracText : Option Digits → List Char
  | none => []
  | some d => '.' :: d.chars

def expText : Option (Bool × Digits) → List Char
  | none => []
  | some (neg, d) => 'e' :: (if neg then '-' else '+') :: d.chars

def Numeral.print (n : Numeral) : List Char :=
  (if n.neg then ['-'] else []) ++ (n.whole.chars ++ (fracText n.frac ++ expText n.exp))

namespace JsonTree

mutual
/-- The text of a tree, without white space. -/
def print : JsonTree Numeral → List Char
  | .null => ['n', 'u', 'l', 'l']
  | .bool true => ['t', 'r', 'u', 'e']
  | .bool false => ['f', 'a', 'l', 's', 'e']
  | .num n => n.print
  | .str s => quote s
  | .arr xs => '[' :: (printItems xs ++ [']'])
  | .obj entries => '\x7b' :: (printEntries entries ++ ['\x7d'])
def printItems : List (JsonTree Numeral) → List Char
  | [] => []
  | [x] => x.print
  | x :: y :: xs => x.print ++ ',' :: printItems (y :: xs)
def printEntries : Entries (JsonTree Numeral) → List Char
  | [] => []
  | [(key, x)] => quote key ++ ':' :: x.print
  | (key, x) :: e :: entries => quote key ++ ':' :: (x.print ++ ',' :: printEntries (e :: entries))
end

end JsonTree

/-! ### Parsing -/

def isSpace (c : Char) : Bool := c == ' ' || c == '\n' || c == '\t' || c == '\r'

def skip (s : List Char) : List Char := s.dropWhile isSpace

def takeDigits (s : List Char) : Option (Digits × List Char) :=
  if h : s.takeWhile Char.isDigit = [] then none
  else
    some (⟨s.takeWhile Char.isDigit, h, List.all_eq_true.1 List.all_takeWhile⟩,
      s.dropWhile Char.isDigit)

def takeSign : List Char → Bool × List Char
  | '-' :: s => (true, s)
  | s => (false, s)

def takeFrac : List Char → Option (Option Digits × List Char)
  | '.' :: s => (takeDigits s).map fun p => (some p.1, p.2)
  | s => some (none, s)

def takePower : List Char → Option (Option (Bool × Digits) × List Char)
  | '-' :: s => (takeDigits s).map fun p => (some (true, p.1), p.2)
  | '+' :: s => (takeDigits s).map fun p => (some (false, p.1), p.2)
  | s => (takeDigits s).map fun p => (some (false, p.1), p.2)

def takeExp : List Char → Option (Option (Bool × Digits) × List Char)
  | 'e' :: s => takePower s
  | 'E' :: s => takePower s
  | s => some (none, s)

def number (s : List Char) : Option (Numeral × List Char) :=
  match takeDigits (takeSign s).2 with
  | none => none
  | some (whole, s') =>
    if h : whole.chars.head? = some '0' → whole.chars = ['0'] then
      match takeFrac s' with
      | none => none
      | some (frac, s') =>
        (takeExp s').map fun p => (⟨(takeSign s).1, whole, h, frac, p.1⟩, p.2)
    else none

def hexValue (c : Char) : Option Nat :=
  if c.isDigit then some (c.toNat - 48)
  else if 'a' ≤ c ∧ c ≤ 'f' then some (c.toNat - 87)
  else if 'A' ≤ c ∧ c ≤ 'F' then some (c.toNat - 55)
  else none

def hex4 (a b c d : Char) : Option Nat :=
  match hexValue a, hexValue b, hexValue c, hexValue d with
  | some a, some b, some c, some d => some (((a * 16 + b) * 16 + c) * 16 + d)
  | _, _, _, _ => none

/-- The character of an escape of one letter. -/
def shortEscape (c : Char) : Option Char :=
  if c = '/' then some '/' else (shortEscapes.find? fun e => e.1 = c).map (·.2)

/-- The rest of a string, up to its closing quote. -/
def stringRest : List Char → Option (List Char × List Char)
  | [] => none
  | c :: s =>
    if c = '"' then some ([], s)
    else if c = '\\' then
      match s with
      | 'u' :: h₁ :: h₂ :: h₃ :: h₄ :: s =>
        match hex4 h₁ h₂ h₃ h₄ with
        | none => none
        | some n =>
          if 0xD800 ≤ n ∧ n < 0xDC00 then
            match s with
            | '\\' :: 'u' :: l₁ :: l₂ :: l₃ :: l₄ :: s =>
              match hex4 l₁ l₂ l₃ l₄ with
              | none => none
              | some m =>
                if 0xDC00 ≤ m ∧ m < 0xE000 then
                  (stringRest s).map fun p =>
                    (Char.ofNat (0x10000 + (n - 0xD800) * 0x400 + (m - 0xDC00)) :: p.1, p.2)
                else none
            | _ => none
          else if 0xDC00 ≤ n ∧ n < 0xE000 then none
          else (stringRest s).map fun p => (Char.ofNat n :: p.1, p.2)
      | e :: s =>
        match shortEscape e with
        | none => none
        | some c => (stringRest s).map fun p => (c :: p.1, p.2)
      | [] => none
    else if c.toNat < 32 then none
    else (stringRest s).map fun p => (c :: p.1, p.2)

mutual
/-- A value; the fuel bounds the nesting and the number of items. -/
def value : Nat → List Char → Option (JsonTree Numeral × List Char)
  | 0, _ => none
  | fuel + 1, s =>
    match skip s with
    | '[' :: s =>
      match skip s with
      | ']' :: s => some (.arr [], s)
      | _ => (items fuel s).map fun p => (.arr p.1, p.2)
    | '\x7b' :: s =>
      match skip s with
      | '\x7d' :: s => some (.obj [], s)
      | _ => (entries fuel s).map fun p => (.obj p.1, p.2)
    | '"' :: s => (stringRest s).map fun p => (.str (String.ofList p.1), p.2)
    | 'n' :: 'u' :: 'l' :: 'l' :: s => some (.null, s)
    | 't' :: 'r' :: 'u' :: 'e' :: s => some (.bool true, s)
    | 'f' :: 'a' :: 'l' :: 's' :: 'e' :: s => some (.bool false, s)
    | s => (number s).map fun p => (.num p.1, p.2)
def items : Nat → List Char → Option (List (JsonTree Numeral) × List Char)
  | 0, _ => none
  | fuel + 1, s =>
    match value fuel s with
    | none => none
    | some (x, s) =>
      match skip s with
      | ',' :: s => (items fuel s).map fun p => (x :: p.1, p.2)
      | ']' :: s => some ([x], s)
      | _ => none
def entries : Nat → List Char → Option (Entries (JsonTree Numeral) × List Char)
  | 0, _ => none
  | fuel + 1, s =>
    match skip s with
    | '"' :: s =>
      match stringRest s with
      | none => none
      | some (key, s) =>
        match skip s with
        | ':' :: s =>
          match value fuel s with
          | none => none
          | some (x, s) =>
            match skip s with
            | ',' :: s => (entries fuel s).map fun p => ((String.ofList key, x) :: p.1, p.2)
            | '\x7d' :: s => some ([(String.ofList key, x)], s)
            | _ => none
        | _ => none
    | _ => none
end

/-- The tree of a JSON text. -/
def parse (s : List Char) : Option (JsonTree Numeral) :=
  match value (s.length + 1) s with
  | none => none
  | some (t, rest) => if skip rest = [] then some t else none

/-! ### What is printed is read as it was -/

/-- The text does not go on with a digit. -/
def NoDigit (rest : List Char) : Prop := ∀ c s, rest = c :: s → c.isDigit = false

theorem noDigit_nil : NoDigit [] := nofun

theorem noDigit_cons {c : Char} {s : List Char} (h : c.isDigit = false) : NoDigit (c :: s) := by
  intro c' s' heq
  cases heq
  exact h

/-- The text does not go on with a part of a numeral. -/
def Ends (rest : List Char) : Prop :=
  NoDigit rest ∧ ∀ s, rest ≠ '.' :: s ∧ rest ≠ 'e' :: s ∧ rest ≠ 'E' :: s

theorem ends_nil : Ends [] := ⟨noDigit_nil, fun _ => ⟨nofun, nofun, nofun⟩⟩

theorem ends_cons {c : Char} {s : List Char} (h : c = ',' ∨ c = ']' ∨ c = '\x7d') :
    Ends (c :: s) := by
  rcases h with rfl | rfl | rfl <;> exact ⟨noDigit_cons rfl, fun _ => by simp⟩

theorem takeDigits_append (d : Digits) {rest : List Char} (h : NoDigit rest) :
    takeDigits (d.chars ++ rest) = some (d, rest) := by
  have hrest : rest.takeWhile Char.isDigit = [] ∧ rest.dropWhile Char.isDigit = rest := by
    cases rest with
    | nil => exact ⟨rfl, rfl⟩
    | cons c s => simp [h c s rfl]
  have htake : (d.chars ++ rest).takeWhile Char.isDigit = d.chars := by
    rw [List.takeWhile_append_of_pos d.digits, hrest.1, List.append_nil]
  have hdrop : (d.chars ++ rest).dropWhile Char.isDigit = rest := by
    rw [List.dropWhile_append_of_pos d.digits, hrest.2]
  simp [takeDigits, htake, hdrop, d.nonempty]

/-- A run of digits starts with one. -/
theorem Digits.cons_append (d : Digits) (rest : List Char) :
    ∃ c s, d.chars ++ rest = c :: s ∧ c.isDigit = true := by
  cases hchars : d.chars with
  | nil => exact absurd hchars d.nonempty
  | cons c s => exact ⟨c, s ++ rest, rfl, d.digits c (hchars ▸ List.mem_cons_self)⟩

theorem takePower_print (neg : Bool) (d : Digits) {rest : List Char} (h : NoDigit rest) :
    takePower ((if neg then '-' else '+') :: (d.chars ++ rest)) = some (some (neg, d), rest) := by
  cases neg <;> simp [takePower, takeDigits_append d h]

theorem takeExp_print (exp : Option (Bool × Digits)) {rest : List Char} (h : Ends rest) :
    takeExp (expText exp ++ rest) = some (exp, rest) := by
  cases exp with
  | none =>
      show takeExp rest = some (none, rest)
      unfold takeExp
      split
      · exact absurd rfl (h.2 _).2.1
      · exact absurd rfl (h.2 _).2.2
      · rfl
  | some e => exact takePower_print e.1 e.2 h.1

theorem takeFrac_print (frac : Option Digits) {rest : List Char} (h : NoDigit rest)
    (hdot : ∀ s, rest ≠ '.' :: s) : takeFrac (fracText frac ++ rest) = some (frac, rest) := by
  cases frac with
  | none =>
      show takeFrac rest = some (none, rest)
      unfold takeFrac
      split
      · exact absurd rfl (hdot _)
      · rfl
  | some d =>
      show (takeDigits (d.chars ++ rest)).map _ = _
      rw [takeDigits_append d h]
      rfl

theorem takeSign_print (neg : Bool) (d : Digits) (rest : List Char) :
    takeSign ((if neg then ['-'] else []) ++ (d.chars ++ rest)) = (neg, d.chars ++ rest) := by
  cases neg with
  | true => rfl
  | false =>
      obtain ⟨c, s, hcons, hdigit⟩ := d.cons_append rest
      show takeSign (d.chars ++ rest) = _
      rw [hcons]
      unfold takeSign
      split
      · rename_i heq
        cases heq
        cases hdigit
      · rfl

theorem number_print (n : Numeral) {rest : List Char} (h : Ends rest) :
    number (n.print ++ rest) = some (n, rest) := by
  obtain ⟨neg, whole, canonical, frac, exp⟩ := n
  have hexp : NoDigit (expText exp ++ rest) ∧ ∀ s, expText exp ++ rest ≠ '.' :: s := by
    cases exp with
    | none => exact ⟨h.1, fun s => (h.2 s).1⟩
    | some e => exact ⟨noDigit_cons rfl, fun s => by simp [expText]⟩
  have hfrac : NoDigit (fracText frac ++ (expText exp ++ rest)) := by
    cases frac with
    | none => exact hexp.1
    | some d => exact noDigit_cons rfl
  simp only [number, Numeral.print, List.append_assoc, takeSign_print,
    takeDigits_append whole hfrac, takeFrac_print frac hexp.1 hexp.2, takeExp_print exp h]
  rw [dif_pos canonical]
  rfl

/-- A numeral starts with a sign or a digit. -/
theorem Numeral.print_cons (n : Numeral) (rest : List Char) :
    ∃ c s, n.print ++ rest = c :: s ∧ (c = '-' ∨ c.isDigit = true) := by
  simp only [Numeral.print, List.append_assoc]
  cases n.neg with
  | true => exact ⟨'-', _, rfl, .inl rfl⟩
  | false =>
      obtain ⟨c, s, hcons, hdigit⟩ :=
        n.whole.cons_append (fracText n.frac ++ (expText n.exp ++ rest))
      exact ⟨c, s, hcons, .inr hdigit⟩

/-! Strings -/

theorem hexValue_hexDigit : ∀ n < 16, hexValue (hexDigit n) = some n := by decide

theorem shortEscape_of_find {c : Char} {e : Char × Char}
    (h : shortEscapes.find? (fun e => e.2 = c) = some e) :
    e.1 ≠ 'u' ∧ shortEscape e.1 = some c := by
  have hmem := List.mem_of_find?_eq_some h
  have hc := List.find?_some h
  simp only [decide_eq_true_eq] at hc
  subst hc
  revert e
  decide

theorem hex4_control {c : Char} (h : c.toNat < 32) :
    hex4 '0' '0' (hexDigit (c.toNat / 16)) (hexDigit (c.toNat % 16)) = some c.toNat := by
  have hzero : hexValue '0' = some 0 := rfl
  rw [hex4, hzero, hexValue_hexDigit (c.toNat / 16) (by omega),
    hexValue_hexDigit (c.toNat % 16) (by omega)]
  simp only [Option.some.injEq]
  omega

theorem stringRest_escape (c : Char) (s : List Char) :
    stringRest (escape c ++ s) = (stringRest s).map fun p => (c :: p.1, p.2) := by
  unfold escape
  split
  · rename_i e hfind
    obtain ⟨hu, hshort⟩ := shortEscape_of_find hfind
    show stringRest ('\\' :: e.1 :: s) = _
    rw [stringRest]
    · simp [hshort]
    · intro _ _ _ _ _ he
      exact absurd he hu
  · rename_i hfind
    have hnone := List.find?_eq_none.1 hfind
    split
    · rename_i hcontrol
      have hhex := hex4_control hcontrol
      have hchar : Char.ofNat c.toNat = c := Char.ofNat_toNat c
      simp [stringRest, hhex, hchar, show ¬ 55296 ≤ c.toNat by omega,
        show ¬ 56320 ≤ c.toNat by omega]
    · rename_i hplain
      have hquote : c ≠ '"' := by
        rintro rfl
        simp [shortEscapes] at hnone
      have hslash : c ≠ '\\' := by
        rintro rfl
        simp [shortEscapes] at hnone
      show stringRest (c :: s) = _
      rw [stringRest.eq_def]
      simp [hquote, hslash, hplain]

theorem stringRest_print (cs : List Char) (rest : List Char) :
    stringRest (cs.flatMap escape ++ '"' :: rest) = some (cs, rest) := by
  induction cs with
  | nil =>
      show stringRest ('"' :: rest) = _
      rw [stringRest.eq_def]
      rfl
  | cons c cs ih => simp [stringRest_escape, ih]

theorem stringRest_quote (s : String) (rest : List Char) :
    ∃ text, quote s ++ rest = '"' :: text ∧ stringRest text = some (s.toList, rest) := by
  refine ⟨s.toList.flatMap escape ++ '"' :: rest, ?_, stringRest_print s.toList rest⟩
  simp [quote]

/-! Values -/

@[simp] theorem skip_cons {c : Char} (s : List Char) (h : isSpace c = false) :
    skip (c :: s) = c :: s := by simp [skip, h]

theorem isSpace_eq_false {c : Char} (h : c = '-' ∨ c.isDigit = true) : isSpace c = false := by
  rcases h with rfl | h
  · rfl
  · by_contra hspace
    simp only [Bool.not_eq_false, isSpace, Bool.or_eq_true, beq_iff_eq] at hspace
    rcases hspace with ((rfl | rfl) | rfl) | rfl <;> cases h

/-- Whatever starts like a numeral is read as one. -/
theorem value_number {c : Char} {s : List Char} (fuel : Nat) (h : c = '-' ∨ c.isDigit = true) :
    value (fuel + 1) (c :: s) = (number (c :: s)).map fun p => (.num p.1, p.2) := by
  have hne : ∀ d, d.isDigit = false → d ≠ '-' → c ≠ d := by
    rintro d hd hminus rfl
    rcases h with h | h
    · exact hminus h
    · rw [hd] at h
      cases h
  rw [value, skip_cons s (isSpace_eq_false h)]
  split
  all_goals first | rfl | (rename_i heq; cases heq; exact absurd rfl (hne _ rfl (by decide)))

theorem value_arr {c : Char} {s : List Char} (fuel : Nat) (hspace : isSpace c = false)
    (hne : c ≠ ']') :
    value (fuel + 1) ('[' :: c :: s) = (items fuel (c :: s)).map fun p => (.arr p.1, p.2) := by
  rw [value, skip_cons (c :: s) rfl]
  simp only [skip_cons s hspace]
  split
  · rename_i heq
    cases heq
    exact absurd rfl hne
  · rfl

theorem value_obj {s : List Char} (fuel : Nat) :
    value (fuel + 1) ('\x7b' :: '"' :: s) =
      (entries fuel ('"' :: s)).map fun p => (.obj p.1, p.2) := by
  simp [value, isSpace]

theorem JsonTree.print_cons (t : JsonTree Numeral) :
    ∃ c s, t.print = c :: s ∧ isSpace c = false ∧ c ≠ ']' := by
  cases t with
  | null => exact ⟨_, _, rfl, rfl, by decide⟩
  | bool b => cases b <;> exact ⟨_, _, rfl, rfl, by decide⟩
  | num n =>
      obtain ⟨c, s, hcons, hc⟩ := n.print_cons []
      rw [List.append_nil] at hcons
      refine ⟨c, s, hcons, isSpace_eq_false hc, ?_⟩
      rintro rfl
      simp at hc
  | str s => exact ⟨_, _, rfl, rfl, by decide⟩
  | arr xs => exact ⟨_, _, rfl, rfl, by decide⟩
  | obj entries => exact ⟨_, _, rfl, rfl, by decide⟩

theorem JsonTree.printItems_cons (x : JsonTree Numeral) (xs : List (JsonTree Numeral)) :
    ∃ c s, JsonTree.printItems (x :: xs) = c :: s ∧ isSpace c = false ∧ c ≠ ']' := by
  obtain ⟨c, s, hcons, hspace, hne⟩ := x.print_cons
  cases xs with
  | nil => exact ⟨c, s, hcons, hspace, hne⟩
  | cons y ys =>
      refine ⟨c, s ++ ',' :: JsonTree.printItems (y :: ys), ?_, hspace, hne⟩
      simp [printItems, hcons]

theorem JsonTree.printEntries_cons (e : String × JsonTree Numeral)
    (es : Entries (JsonTree Numeral)) :
    ∃ s, JsonTree.printEntries (e :: es) = '"' :: s := by
  cases es with
  | nil => exact ⟨_, rfl⟩
  | cons e' es => exact ⟨_, rfl⟩

mutual
theorem value_print : ∀ (t : JsonTree Numeral) (rest : List Char) (fuel : Nat), Ends rest →
    t.print.length < fuel → value fuel (t.print ++ rest) = some (t, rest)
  | t, rest, 0, _, hfuel => absurd hfuel (Nat.not_lt_zero _)
  | .null, rest, fuel + 1, _, _ => by simp [JsonTree.print, value, isSpace]
  | .bool true, rest, fuel + 1, _, _ => by simp [JsonTree.print, value, isSpace]
  | .bool false, rest, fuel + 1, _, _ => by simp [JsonTree.print, value, isSpace]
  | .num n, rest, fuel + 1, hends, _ => by
      obtain ⟨c, s, hcons, hc⟩ := n.print_cons rest
      have hnumber := number_print n hends
      rw [hcons] at hnumber
      show value (fuel + 1) (n.print ++ rest) = _
      rw [hcons, value_number fuel hc, hnumber]
      rfl
  | .str s, rest, fuel + 1, _, _ => by
      obtain ⟨text, hquote, hrest⟩ := stringRest_quote s rest
      show value (fuel + 1) (quote s ++ rest) = _
      rw [hquote]
      simp [value, isSpace, hrest]
  | .arr [], rest, fuel + 1, _, _ => by simp [JsonTree.print, JsonTree.printItems, value, isSpace]
  | .arr (x :: xs), rest, fuel + 1, _, hfuel => by
      have hitems := items_print (x :: xs) (List.cons_ne_nil x xs) rest fuel
        (by simp [JsonTree.print] at hfuel; omega)
      obtain ⟨c, s, hcons, hspace, hne⟩ := JsonTree.printItems_cons x xs
      have htext : (JsonTree.arr (x :: xs)).print ++ rest = '[' :: c :: (s ++ ']' :: rest) := by
        simp [JsonTree.print, hcons]
      rw [hcons, List.cons_append] at hitems
      rw [htext, value_arr fuel hspace hne, hitems]
      rfl
  | .obj [], rest, fuel + 1, _, _ => by simp [JsonTree.print, JsonTree.printEntries, value, isSpace]
  | .obj (e :: es), rest, fuel + 1, _, hfuel => by
      have hentries := entries_print (e :: es) (List.cons_ne_nil e es) rest fuel
        (by simp [JsonTree.print] at hfuel; omega)
      obtain ⟨s, hcons⟩ := JsonTree.printEntries_cons e es
      have htext : (JsonTree.obj (e :: es)).print ++ rest =
          '\x7b' :: '"' :: (s ++ '\x7d' :: rest) := by
        simp [JsonTree.print, hcons]
      rw [hcons, List.cons_append] at hentries
      rw [htext, value_obj, hentries]
      rfl
theorem items_print : ∀ (xs : List (JsonTree Numeral)), xs ≠ [] →
    ∀ (rest : List Char) (fuel : Nat),
    (JsonTree.printItems xs).length + 1 < fuel →
    items fuel (JsonTree.printItems xs ++ ']' :: rest) = some (xs, rest)
  | [], hne, _, _, _ => absurd rfl hne
  | _, _, _, 0, hfuel => absurd hfuel (Nat.not_lt_zero _)
  | [x], _, rest, fuel + 1, hfuel => by
      have hx := value_print x (']' :: rest) fuel (ends_cons (by simp))
        (by simp [JsonTree.printItems] at hfuel; omega)
      simp [JsonTree.printItems, items, hx, isSpace]
  | x :: y :: xs, _, rest, fuel + 1, hfuel => by
      have hx := value_print x (',' :: (JsonTree.printItems (y :: xs) ++ ']' :: rest)) fuel
        (ends_cons (by simp)) (by simp [JsonTree.printItems] at hfuel; omega)
      have hxs := items_print (y :: xs) (List.cons_ne_nil y xs) rest fuel
        (by simp [JsonTree.printItems] at hfuel; omega)
      simp [JsonTree.printItems, items, hx, hxs, isSpace]
theorem entries_print : ∀ (es : Entries (JsonTree Numeral)), es ≠ [] →
    ∀ (rest : List Char) (fuel : Nat),
    (JsonTree.printEntries es).length + 1 < fuel →
    entries fuel (JsonTree.printEntries es ++ '\x7d' :: rest) = some (es, rest)
  | [], hne, _, _, _ => absurd rfl hne
  | _, _, _, 0, hfuel => absurd hfuel (Nat.not_lt_zero _)
  | [(key, x)], _, rest, fuel + 1, hfuel => by
      have hx := value_print x ('\x7d' :: rest) fuel (ends_cons (by simp))
        (by simp [JsonTree.printEntries, quote] at hfuel; omega)
      obtain ⟨text, hquote, hkey⟩ := stringRest_quote key (':' :: (x.print ++ '\x7d' :: rest))
      simp [JsonTree.printEntries, hquote, entries, hkey, hx, isSpace]
  | (key, x) :: e :: es, _, rest, fuel + 1, hfuel => by
      have hx := value_print x (',' :: (JsonTree.printEntries (e :: es) ++ '\x7d' :: rest))
        fuel (ends_cons (by simp)) (by simp [JsonTree.printEntries, quote] at hfuel; omega)
      have hes := entries_print (e :: es) (List.cons_ne_nil e es) rest fuel
        (by simp [JsonTree.printEntries, quote] at hfuel ⊢; omega)
      obtain ⟨text, hquote, hkey⟩ := stringRest_quote key
        (':' :: (x.print ++ ',' :: (JsonTree.printEntries (e :: es) ++ '\x7d' :: rest)))
      simp [JsonTree.printEntries, hquote, entries, hkey, hx, hes, isSpace]
end

/-- **What is printed is read as it was.** -/
theorem parse_print (t : JsonTree Numeral) : parse t.print = some t := by
  have hvalue := value_print t [] _ ends_nil (Nat.lt_succ_self t.print.length)
  rw [List.append_nil] at hvalue
  simp [parse, hvalue, skip]

end Feloxi.JsonText
