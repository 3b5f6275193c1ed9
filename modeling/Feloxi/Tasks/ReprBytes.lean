import Feloxi.Lib.Utf8
import Feloxi.Tasks.LiteralValues

/-!
# Feloxi.Tasks.ReprBytes

The parser of Python literals on the bytes of a text, as the source has it. What is left of the
text stands for the position in it; a sequence of several bytes is copied as a whole.

The parser on characters reads the same texts as the same values (`parse_eq_ok_iff`). Only what an
error says may differ, where an escape is cut short by a wide character.
-/

namespace Feloxi.Tasks.ReprBytes

open Pipeline (SerdeJson)
open Utf8 (byte asChar encode)

/-! ### The parser -/

/-- Why a text is refused. -/
inductive BytesError where
  | of (e : ReprError)
  | invalidUtf8

/-- What was read, and the bytes after it. -/
abbrev Read (α : Type) := Except BytesError (α × List UInt8)

def ws (s : List UInt8) : List UInt8 := s.dropWhile fun b => isWs (asChar b)

def utf8Len (first : UInt8) : Nat :=
  if 0xF0 ≤ first ∧ first ≤ 0xF7 then 4
  else if 0xE0 ≤ first ∧ first ≤ 0xEF then 3
  else if 0xC0 ≤ first ∧ first ≤ 0xDF then 2
  else 1

theorem utf8Len_pos (first : UInt8) : 0 < utf8Len first := by
  unfold utf8Len
  split_ifs <;> decide

/-- `hex_char`; the digits are the next `n` bytes. -/
def hexChar (n : Nat) (s : List UInt8) : Except BytesError Char :=
  if s.length < n then .error (.of .shortEscape)
  else
    match fromUtf8 (s.take n) with
    | none => .error (.of .badEscape)
    | some hex =>
      match Tasks.hexChar hex.toList with
      | .error e => .error (.of e)
      | .ok d => .ok d

/-- `string`, after the opening quote. -/
def string (quote : UInt8) : List UInt8 → Read (List Char)
  | [] => .error (.of .unterminatedString)
  | c :: rest =>
    if c = quote then .ok ([], rest)
    else if c ≠ byte '\\' then
      -- a whole sequence
      if (c :: rest).length < utf8Len c then .error .invalidUtf8
      else
        match fromUtf8 ((c :: rest).take (utf8Len c)) with
        | none => .error .invalidUtf8
        | some t =>
          (string quote ((c :: rest).drop (utf8Len c))).map fun p => (t.toList ++ p.1, p.2)
    else
      match rest with
      | [] => .error (.of .unterminatedEscape)
      | e :: rest =>
        match simpleEscape (asChar e) with
        | some d => (string quote rest).map fun p => (d :: p.1, p.2)
        | none =>
          match hexLength (asChar e) with
          | none => .error (.of (.unsupportedEscape (asChar e)))
          | some n =>
            (hexChar n rest).bind fun d =>
              (string quote (rest.drop n)).map fun p => (d :: p.1, p.2)
termination_by s => s.length
decreasing_by
  all_goals
    have := utf8Len_pos c
    simp
    try omega

/-- `number`. -/
def number (s : List UInt8) : Read Json :=
  let run := s.takeWhile fun b => isNumChar (asChar b)
  match Tasks.number ((fromUtf8 run).getD "").toList with
  | .error e => .error (.of e)
  | .ok p => .ok (p.1, s.dropWhile fun b => isNumChar (asChar b))

/-- `keyword`: the bytes after it, if it stands there as a whole word. -/
def keyword (kw : String) (s : List UInt8) : Option (List UInt8) :=
  let rest := s.drop (asBytes kw).length
  if (asBytes kw).isPrefixOf s && !(rest.head?.any fun b => isIdent (asChar b)) then some rest
  else none

/-- A value that stands for itself as a keyword. -/
def keywordValue (s : List UInt8) : Read Json :=
  match keyword "None" s with
  | some rest => .ok (.null, rest)
  | none =>
    match keyword "True" s with
    | some rest => .ok (.bool true, rest)
    | none =>
      match keyword "False" s with
      | some rest => .ok (.bool false, rest)
      | none => .error (.of (if s.isEmpty then .unexpectedEnd else .unsupportedValue))

mutual

/-- `value`. -/
def value (serde : SerdeJson) : Nat → List UInt8 → Read Json
  | 0, _ => .error (.of .outOfFuel)
  | fuel + 1, s =>
    match ws s with
    | [] => keywordValue []
    | c :: rest =>
      if c = byte '[' then (items serde fuel (byte ']') rest).map fun p => (.arr p.1, p.2)
      else if c = byte '(' then (items serde fuel (byte ')') rest).map fun p => (.arr p.1, p.2)
      else if c = byte '{' then (dict serde fuel rest).map fun p => (.ofEntries p.1, p.2)
      else if c = byte '\'' ∨ c = byte '"' then
        (string c rest).map fun p => (.str (String.ofList p.1), p.2)
      else if beginsNumber (asChar c) then number (c :: rest)
      else keywordValue (c :: rest)

/-- `items`: values up to `close`; a trailing comma is allowed. -/
def items (serde : SerdeJson) : Nat → UInt8 → List UInt8 → Read (List Json)
  | 0, _, _ => .error (.of .outOfFuel)
  | fuel + 1, close, s =>
    if (ws s).head? = some close then .ok ([], (ws s).tail)
    else
      (value serde fuel (ws s)).bind fun p =>
        match ws p.2 with
        | [] => .error (.of (.expectedCommaOr (asChar close)))
        | c :: rest =>
          if c = byte ',' then (items serde fuel close rest).map fun q => (p.1 :: q.1, q.2)
          else if c = close then .ok ([p.1], rest)
          else .error (.of (.expectedCommaOr (asChar close)))

/-- `dict`, after the opening brace: the entries in the order in which they are inserted. -/
def dict (serde : SerdeJson) : Nat → List UInt8 → Read (List (String × Json))
  | 0, _ => .error (.of .outOfFuel)
  | fuel + 1, s =>
    if (ws s).head? = some (byte '}') then .ok ([], (ws s).tail)
    else
      (value serde fuel (ws s)).bind fun k =>
        match keyText serde k.1 with
        | none => .error (.of .unsupportedKey)
        | some key =>
          if (ws k.2).head? = some (byte ':') then
            (value serde fuel (ws k.2).tail).bind fun p =>
              match ws p.2 with
              | [] => .error (.of (.expectedCommaOr '}'))
              | c :: rest =>
                if c = byte ',' then (dict serde fuel rest).map fun q => ((key, p.1) :: q.1, q.2)
                else if c = byte '}' then .ok ([(key, p.1)], rest)
                else .error (.of (.expectedCommaOr '}'))
          else .error (.of .expectedColon)

end

/-- `parse`. -/
def parse (serde : SerdeJson) (src : String) : Except BytesError Json :=
  match value serde (2 * (asBytes src).length + 2) (asBytes src) with
  | .error e => .error e
  | .ok (v, s) => if (ws s).isEmpty then .ok v else .error (.of .unexpectedText)

/-! ### Reading bytes is reading characters -/

/-- The bytes are read for the same, and up to the same place, if at all. -/
def Agrees {α : Type} (r : Read α) (r' : Parsed α) : Prop :=
  r.toOption = r'.toOption.map fun p => (p.1, encode p.2)

namespace Agrees

variable {α β : Type} {r : Read α} {r' : Parsed α}

theorem error (e : BytesError) (e' : ReprError) :
    Agrees (.error e : Read α) (.error e' : Parsed α) := rfl

theorem ok (a : α) (rest : List Char) : Agrees (.ok (a, encode rest)) (.ok (a, rest)) := rfl

theorem map (h : Agrees r r') (f : α → β) :
    Agrees (r.map fun p => (f p.1, p.2)) (r'.map fun p => (f p.1, p.2)) := by
  unfold Agrees at h ⊢
  cases r <;> cases r' <;> simp_all [Except.map, Except.toOption]

theorem bind (h : Agrees r r') {k : α × List UInt8 → Read β} {k' : α × List Char → Parsed β}
    (hk : ∀ a rest, r' = .ok (a, rest) → Agrees (k (a, encode rest)) (k' (a, rest))) :
    Agrees (r.bind k) (r'.bind k') := by
  cases r' with
  | error e' =>
      cases r with
      | error e => rfl
      | ok p => cases h
  | ok p' =>
      cases r with
      | error e => cases h
      | ok p =>
          have hp : p = (p'.1, encode p'.2) := Option.some.inj h
          rw [hp]
          exact hk p'.1 p'.2 rfl

end Agrees

/-! ### Characters -/

theorem onAscii_isWs : Utf8.OnAscii isWs := by
  intro c hc
  simp only [isWs, Bool.or_eq_true, beq_iff_eq] at hc
  rcases hc with ((hc | hc) | hc) | hc <;> rw [hc] <;> decide

theorem isAscii_of_isDigit {c : Char} (h : c.isDigit = true) : Utf8.IsAscii c := by
  have hle : c.val.toNat ≤ 57 := (Char.isDigit_iff_toNat.1 h).2
  exact Nat.lt_of_le_of_lt hle (by decide)

theorem onAscii_isNumChar : Utf8.OnAscii isNumChar := by
  intro c hc
  simp only [isNumChar, Bool.or_eq_true, beq_iff_eq] at hc
  rcases hc with (((((hc | hc) | hc) | hc) | hc) | hc) | hc
  · exact isAscii_of_isDigit hc
  all_goals
    rw [hc]
    decide

theorem onAscii_beginsNumber : Utf8.OnAscii beginsNumber :=
  fun c hc => onAscii_isNumChar c (isNumChar_of_begins hc)

theorem onAscii_isIdent : Utf8.OnAscii isIdent := by
  intro c hc
  have halpha : c.isAlpha = (decide ('A'.val ≤ c.val ∧ c.val ≤ 'Z'.val) ||
      (decide ('a'.val ≤ c.val) && decide (c.val ≤ 'z'.val))) := rfl
  simp only [isIdent, Char.isAlphanum, halpha, Bool.or_eq_true, Bool.and_eq_true,
    decide_eq_true_eq, beq_iff_eq, UInt32.le_iff_toNat_le] at hc
  rcases hc with ((hupper | hlower) | hdigit) | hc
  · exact Nat.lt_of_le_of_lt hupper.2 (by decide)
  · exact Nat.lt_of_le_of_lt hlower.2 (by decide)
  · exact isAscii_of_isDigit hdigit
  · rw [hc]
    decide

theorem isAscii_of_hexVal {c : Char} (h : (hexVal c).isSome) : Utf8.IsAscii c := by
  unfold hexVal at h
  split_ifs at h with hdigit hlower hupper
  · exact isAscii_of_isDigit hdigit
  · exact Nat.lt_of_le_of_lt hlower.2 (by decide)
  · exact Nat.lt_of_le_of_lt hupper.2 (by decide)
  · cases h

theorem isAscii_of_hexChar {digits : List Char} {d : Char} (h : Tasks.hexChar digits = .ok d) :
    ∀ c ∈ digits, Utf8.IsAscii c := by
  intro c hc
  rcases hexVal_isSome_of_hexChar h c hc with hplus | hdigit
  · rw [hplus]
    decide
  · exact isAscii_of_hexVal hdigit

/-- A wide character begins no escape. -/
theorem no_escape {c : Char} (h : ¬ Utf8.IsAscii c) :
    simpleEscape c = none ∧ hexLength c = none := by
  constructor
  · unfold simpleEscape
    split <;> first | rfl | exact absurd (by decide) h
  · unfold hexLength
    split_ifs with hx hu hU
    · rw [hx] at h
      exact absurd (by decide) h
    · rw [hu] at h
      exact absurd (by decide) h
    · rw [hU] at h
      exact absurd (by decide) h
    · rfl

/-- The first byte of a sequence tells how long it is. -/
theorem utf8Len_lead {c : Char} {b : UInt8} {more : List UInt8}
    (h : String.utf8EncodeChar c = b :: more) : utf8Len b = more.length + 1 := by
  have hle : ∀ n m : UInt8, n ≤ m ↔ n.toNat ≤ m.toNat := fun n m => UInt8.le_iff_toNat_le
  by_cases hc : Utf8.IsAscii c
  · rw [Utf8.utf8EncodeChar_ascii hc] at h
    obtain ⟨hb, hmore⟩ := List.cons.inj h
    have hnat := Utf8.toNat_byte hc
    rw [hb] at hnat
    unfold Utf8.IsAscii at hc
    rw [← hmore, utf8Len, if_neg, if_neg, if_neg]
    · rfl
    all_goals
      rw [hle]
      show ¬ (_ ≤ b.toNat ∧ _)
      simp
      omega
  · obtain ⟨b', more', hencode, hwide⟩ := Utf8.utf8EncodeChar_wide hc
    rw [h] at hencode
    obtain ⟨hb, hmore⟩ := List.cons.inj hencode
    rw [← hb, ← hmore] at hwide
    simp only [utf8Len, hle]
    rcases hwide with ⟨hlow, hhigh, hlength⟩ | ⟨hlow, hhigh, hlength⟩ | ⟨hlow, hhigh, hlength⟩
    · rw [if_neg, if_neg, if_pos, hlength]
      all_goals
        simp
        omega
    · rw [if_neg, if_pos, hlength]
      all_goals
        simp
        omega
    · rw [if_pos, hlength]
      simp
      omega

theorem ws_encode (s : List Char) : ws (encode s) = encode (Tasks.ws s) :=
  (Utf8.takeWhile_encode onAscii_isWs s).2

/-- What stands at the head of a text. -/
theorem head?_encode {x : Char} (hx : Utf8.IsAscii x) (s : List Char) :
    (encode s).head? = some (byte x) ↔ s.head? = some x := by
  cases s with
  | nil => simp
  | cons c s =>
      obtain ⟨b, more, hencode, hleads, -⟩ := Utf8.exists_leads c
      rw [Utf8.encode_cons, hencode, List.cons_append, List.head?_cons, List.head?_cons,
        Option.some_inj, Option.some_inj]
      exact hleads.eq_iff x hx

theorem tail_encode {x : Char} (hx : Utf8.IsAscii x) {s : List Char} (h : s.head? = some x) :
    (encode s).tail = encode s.tail := by
  obtain ⟨rest, hs⟩ := List.head?_eq_some_iff.1 h
  rw [hs, Utf8.encode_cons_ascii hx]
  rfl

theorem any_head?_encode {p : Char → Bool} (hp : Utf8.OnAscii p) (s : List Char) :
    ((encode s).head?.any fun b => p (asChar b)) = s.head?.any p := by
  cases s with
  | nil => rfl
  | cons c s =>
      obtain ⟨b, more, hencode, hleads, -⟩ := Utf8.exists_leads c
      rw [Utf8.encode_cons, hencode]
      exact hleads.holds p hp

/-! ### Strings -/

/-- Digits in front of a text are read from its bytes. -/
theorem hexChar_digits {n : Nat} {digits : List Char} {d : Char} (hlength : digits.length = n)
    (hd : Tasks.hexChar digits = .ok d) (rest : List Char) :
    hexChar n (encode (digits ++ rest)) = .ok d ∧
      (encode (digits ++ rest)).drop n = encode rest := by
  have hbytes : (encode digits).length = n := by
    rw [Utf8.length_encode_ascii (isAscii_of_hexChar hd), hlength]
  have hlong : ¬ (encode (digits ++ rest)).length < n := by
    rw [Utf8.encode_append, List.length_append, hbytes]
    omega
  constructor
  · rw [hexChar, if_neg hlong, Utf8.encode_append, List.take_left' hbytes, Utf8.fromUtf8_encode]
    dsimp only
    rw [String.toList_ofList, hd]
  · rw [Utf8.encode_append, List.drop_left' hbytes]

/-- Digits are ASCII, so that they are as many characters as bytes. -/
theorem digits_of_hexBytes {n : Nat} {s : List Char} {d : Char} (h : hexChar n (encode s) = .ok d) :
    ∃ digits rest, digits.length = n ∧ Tasks.hexChar digits = .ok d ∧ s = digits ++ rest := by
  unfold hexChar at h
  split at h
  · cases h
  · rename_i hlong
    split at h
    · cases h
    · rename_i hex hhex
      split at h
      · cases h
      · rename_i d' hd
        cases h
        have hascii := isAscii_of_hexChar hd
        have htake := Utf8.encode_of_fromUtf8 hhex
        have hlength : hex.toList.length = n := by
          rw [← Utf8.length_encode_ascii hascii, htake,
            List.length_take_of_le (Nat.not_lt.1 hlong)]
        have hbytes : encode s = encode hex.toList ++ (encode s).drop n := by
          rw [htake, List.take_append_drop]
        obtain ⟨rest, hs, -⟩ := Utf8.prefix_of_encode hascii hbytes
        exact ⟨hex.toList, rest, hlength, hd, hs⟩

/-- The digits of an escape. -/
theorem hexChar_encode (n : Nat) (s : List Char) :
    ((hexChar n (encode s)).toOption.map fun d => (d, (encode s).drop n)) =
      (hexEscape n s).toOption.map fun p => (p.1, encode p.2) := by
  cases hchars : hexEscape n s with
  | ok p =>
      obtain ⟨d, rest⟩ := p
      obtain ⟨digits, hlength, hd, hs⟩ := hexEscape_eq_ok_iff.1 hchars
      obtain ⟨hread, hdrop⟩ := hexChar_digits hlength hd rest
      rw [hs, hread, hdrop]
      rfl
  | error e =>
      cases hbytes : hexChar n (encode s) with
      | error e' => rfl
      | ok d =>
          obtain ⟨digits, rest, hlength, hd, hs⟩ := digits_of_hexBytes hbytes
          rw [hexEscape_eq_ok_iff.2 ⟨digits, hlength, hd, hs⟩] at hchars
          cases hchars

section

variable {quote : Char} (hquote : Utf8.IsAscii quote)

theorem string_quote (quote : UInt8) (rest : List UInt8) :
    string quote (quote :: rest) = .ok ([], rest) := by
  unfold string
  exact if_pos rfl

include hquote in
/-- A character that is neither the quote nor a backslash is copied. -/
theorem string_plain {c : Char} (hc : c ≠ quote) (hplain : c ≠ '\\') (s : List Char) :
    string (byte quote) (encode (c :: s)) =
      (string (byte quote) (encode s)).map fun p => (c :: p.1, p.2) := by
  obtain ⟨b, more, hencode, hleads, -⟩ := Utf8.exists_leads c
  have hlength := utf8Len_lead hencode
  have hb : b ≠ byte quote := fun heq => hc ((hleads.eq_iff quote hquote).1 heq)
  have hb' : b ≠ byte '\\' := fun heq => hplain ((hleads.eq_iff '\\' (by decide)).1 heq)
  have htake : (b :: (more ++ encode s)).take (utf8Len b) = encode [c] := by
    rw [hlength, List.take_succ_cons, List.take_left, Utf8.encode_cons, hencode]
    simp
  have hdrop : (b :: (more ++ encode s)).drop (utf8Len b) = encode s := by
    rw [hlength, List.drop_succ_cons, List.drop_left]
  have hlong : ¬ (b :: (more ++ encode s)).length < utf8Len b := by
    simp [hlength]
  rw [Utf8.encode_cons, hencode, List.cons_append]
  conv => lhs; unfold string
  rw [if_neg hb, if_pos hb', if_neg hlong, htake, hdrop, Utf8.fromUtf8_encode]
  simp

/-- One escape, after its backslash. -/
def escape : List UInt8 → Read Char
  | [] => .error (.of .unterminatedEscape)
  | e :: rest =>
    match simpleEscape (asChar e) with
    | some d => .ok (d, rest)
    | none =>
      match hexLength (asChar e) with
      | none => .error (.of (.unsupportedEscape (asChar e)))
      | some n => (hexChar n rest).map fun d => (d, rest.drop n)

include hquote in
/-- A string goes on after an escape. -/
theorem string_backslash (hq : quote ≠ '\\') (s : List UInt8) :
    string (byte quote) (byte '\\' :: s) =
      (escape s).bind fun p => (string (byte quote) p.2).map fun q => (p.1 :: q.1, q.2) := by
  have hne : byte '\\' ≠ byte quote := by
    intro heq
    rw [← Utf8.asChar_byte hquote, ← heq] at hq
    exact hq rfl
  conv => lhs; unfold string
  rw [if_neg hne, if_neg fun h => h rfl]
  unfold escape
  cases s with
  | nil => rfl
  | cons e rest =>
      dsimp only
      cases simpleEscape (asChar e) with
      | some d => rfl
      | none =>
          dsimp only
          cases hexLength (asChar e) with
          | none => rfl
          | some n =>
              dsimp only
              cases hexChar n rest <;> rfl

theorem escape_encode (s : List Char) : Agrees (escape (encode s)) (escapeChar s) := by
  cases s with
  | nil => exact .error _ _
  | cons e s =>
      by_cases he : Utf8.IsAscii e
      · rw [Utf8.encode_cons_ascii he, escape, Utf8.asChar_byte he]
        cases hsimple : simpleEscape e with
        | some d =>
            rw [escapeChar_simple hsimple]
            exact .ok d s
        | none =>
            dsimp only
            cases hn : hexLength e with
            | none =>
                have hescape : escapeChar (e :: s) = .error (.unsupportedEscape e) := by
                  unfold hexLength at hn
                  simp only [escapeChar, hsimple]
                  split_ifs at hn ⊢
                  rfl
                rw [hescape]
                exact .error _ _
            | some n =>
                rw [escapeChar_of_hexLength hn]
                unfold Agrees
                dsimp only
                rw [← hexChar_encode]
                cases hexChar n (encode s) <;> rfl
      · -- a wide character begins no escape, nor does its first byte
        obtain ⟨b, more, hencode, hleads, -⟩ := Utf8.exists_leads e
        have hb : ¬ Utf8.IsAscii (asChar b) := by
          have hsame := hleads.holds (fun c => decide (Utf8.IsAscii c)) fun c hc =>
            of_decide_eq_true hc
          simpa [he] using hsame
        obtain ⟨hsimple, hlength⟩ := no_escape he
        obtain ⟨hsimple', hlength'⟩ := no_escape hb
        have hescape : escapeChar (e :: s) = .error (.unsupportedEscape e) := by
          unfold hexLength at hlength
          simp only [escapeChar, hsimple]
          split_ifs at hlength ⊢
          rfl
        rw [hescape, Utf8.encode_cons, hencode, List.cons_append, escape, hsimple', hlength']
        exact .error _ _

include hquote in
/-- **Strings** are read from the bytes as from the characters. -/
theorem string_encode (hq : quote ≠ '\\') (s : List Char) :
    Agrees (string (byte quote) (encode s)) (stringBody quote s) := by
  -- on the length, since an escape takes several characters
  induction hlen : s.length using Nat.strong_induction_on generalizing s with
  | _ n ih =>
      cases s with
      | nil =>
          rw [Utf8.encode_nil, string]
          exact .error _ _
      | cons c s =>
          rw [List.length_cons] at hlen
          by_cases hc : c = quote
          · rw [hc, Utf8.encode_cons_ascii hquote, string_quote, stringBody_quote]
            exact .ok [] s
          · by_cases hplain : c = '\\'
            · subst hplain
              rw [Utf8.encode_cons_ascii (by decide), stringBody_backslash hq,
                string_backslash hquote hq]
              refine (escape_encode s).bind fun d rest hread => ?_
              have hshort := (suffix_of_escapeChar hread).2
              exact (ih rest.length (by omega) rest rfl).map (d :: ·)
            · rw [string_plain hquote hc hplain, stringBody_plain hc hplain]
              exact (ih s.length (by omega) s rfl).map (c :: ·)

end

/-! ### Numbers and words -/

/-- A number does not depend on what follows it. -/
theorem number_takeWhile (s : List Char) :
    Tasks.number (s.takeWhile isNumChar) = (Tasks.number s).map fun p => (p.1, []) := by
  have htake : (s.takeWhile isNumChar).takeWhile isNumChar = s.takeWhile isNumChar :=
    List.takeWhile_eq_self_iff.2 fun c hc => List.mem_takeWhile_imp hc
  have hdrop : (s.takeWhile isNumChar).dropWhile isNumChar = [] :=
    List.dropWhile_eq_nil_iff.2 fun c hc => List.mem_takeWhile_imp hc
  unfold Tasks.number
  dsimp only
  rw [htake, hdrop]
  split
  · rfl
  · split
    · rfl
    · split
      · split <;> rfl
      · rfl

theorem number_snd {s rest : List Char} {v : Json} (h : Tasks.number s = .ok (v, rest)) :
    rest = s.dropWhile isNumChar := by
  unfold Tasks.number at h
  dsimp only at h
  split at h
  · cases h
  · split at h
    · cases h
      rfl
    · split at h
      · split at h
        · cases h
          rfl
        · cases h
      · cases h

theorem number_encode (s : List Char) : Agrees (number (encode s)) (Tasks.number s) := by
  obtain ⟨htake, hdrop⟩ := Utf8.takeWhile_encode onAscii_isNumChar s
  unfold number
  dsimp only
  rw [htake, hdrop, Utf8.fromUtf8_encode, Option.getD_some, String.toList_ofList,
    number_takeWhile]
  cases hnumber : Tasks.number s with
  | error e => exact .error _ _
  | ok p =>
      obtain ⟨v, rest⟩ := p
      rw [number_snd hnumber]
      exact .ok v _

theorem keyword_encode {kw : String} (hkw : ∀ c ∈ kw.toList, Utf8.IsAscii c) (s : List Char) :
    keyword kw (encode s) = (Tasks.keyword kw s).map encode := by
  unfold keyword Tasks.keyword
  dsimp only
  rw [Utf8.asBytes_eq_encode]
  -- an ASCII word begins the text exactly if its bytes begin those of the text
  by_cases hprefix : kw.toList <+: s
  · obtain ⟨rest, hs⟩ := hprefix
    have hchars : kw.toList.isPrefixOf s = true := List.isPrefixOf_iff_prefix.2 ⟨rest, hs⟩
    have hbytes : (encode kw.toList).isPrefixOf (encode s) = true :=
      List.isPrefixOf_iff_prefix.2 ⟨encode rest, by rw [← hs, Utf8.encode_append]⟩
    have hdrop : (encode s).drop (encode kw.toList).length = encode rest := by
      rw [← hs, Utf8.encode_append, List.drop_left]
    have hdrop' : s.drop kw.toList.length = rest := by rw [← hs, List.drop_left]
    rw [hchars, hbytes, hdrop, hdrop', any_head?_encode onAscii_isIdent]
    cases rest.head?.any isIdent <;> rfl
  · have hchars : kw.toList.isPrefixOf s = false := by
      rw [Bool.eq_false_iff, ne_eq, List.isPrefixOf_iff_prefix]
      exact hprefix
    have hbytes : (encode kw.toList).isPrefixOf (encode s) = false := by
      rw [Bool.eq_false_iff, ne_eq, List.isPrefixOf_iff_prefix]
      intro ⟨rest, hrest⟩
      obtain ⟨s', hs', -⟩ := Utf8.prefix_of_encode hkw hrest.symm
      exact hprefix ⟨s', hs'.symm⟩
    rw [hchars, hbytes]
    rfl

theorem keywordValue_encode (s : List Char) :
    Agrees (keywordValue (encode s)) (Tasks.keywordValue s) := by
  unfold keywordValue Tasks.keywordValue
  rw [keyword_encode (by simp [Utf8.IsAscii]), keyword_encode (by simp [Utf8.IsAscii]),
    keyword_encode (by simp [Utf8.IsAscii])]
  cases Tasks.keyword "None" s with
  | some rest => exact .ok _ rest
  | none =>
      cases Tasks.keyword "True" s with
      | some rest => exact .ok _ rest
      | none =>
          cases Tasks.keyword "False" s with
          | some rest => exact .ok _ rest
          | none => exact .error _ _

/-! ### Values -/

section

variable (serde : SerdeJson)

theorem items_encode {fuel : Nat} {close : Char} (hclose : Utf8.IsAscii close)
    (hvalue : ∀ s, Agrees (value serde fuel (encode s)) (Tasks.value serde fuel s))
    (hitems : ∀ s, Agrees (items serde fuel (byte close) (encode s))
      (Tasks.items serde fuel close s)) (s : List Char) :
    Agrees (items serde (fuel + 1) (byte close) (encode s))
      (Tasks.items serde (fuel + 1) close s) := by
  have hhead := head?_encode hclose (Tasks.ws s)
  unfold items
  rw [ws_encode]
  by_cases hend : (Tasks.ws s).head? = some close
  · rw [if_pos (hhead.2 hend), items_of_close serde fuel hend, tail_encode hclose hend]
    exact .ok [] _
  · rw [if_neg fun h => hend (hhead.1 h), items_of_value serde fuel hend, ← value_ws]
    refine (hvalue _).bind fun v rest _ => ?_
    unfold itemsTail
    dsimp only
    rw [ws_encode]
    cases Tasks.ws rest with
    | nil => exact .error _ _
    | cons c more =>
        obtain ⟨b, tail, hencode, hleads, hascii⟩ := Utf8.exists_leads c
        rw [Utf8.encode_cons, hencode, List.cons_append]
        dsimp only
        by_cases hcomma : c = ','
        · have hb := (hascii (by rw [hcomma]; decide)).2
          rw [if_pos ((hleads.eq_iff ',' (by decide)).2 hcomma), if_pos hcomma, hb]
          exact (hitems more).map (v :: ·)
        · rw [if_neg fun h => hcomma ((hleads.eq_iff ',' (by decide)).1 h), if_neg hcomma]
          by_cases hc : c = close
          · have hb := (hascii (by rw [hc]; exact hclose)).2
            rw [if_pos ((hleads.eq_iff close hclose).2 hc), if_pos hc, hb]
            exact .ok [v] more
          · rw [if_neg fun h => hc ((hleads.eq_iff close hclose).1 h), if_neg hc]
            exact .error _ _

theorem dict_encode {fuel : Nat}
    (hvalue : ∀ s, Agrees (value serde fuel (encode s)) (Tasks.value serde fuel s))
    (hdict : ∀ s, Agrees (dict serde fuel (encode s)) (Tasks.dict serde fuel s)) (s : List Char) :
    Agrees (dict serde (fuel + 1) (encode s)) (Tasks.dict serde (fuel + 1) s) := by
  have hhead := head?_encode (x := '}') (by decide) (Tasks.ws s)
  unfold dict
  rw [ws_encode]
  by_cases hend : (Tasks.ws s).head? = some '}'
  · rw [if_pos (hhead.2 hend), dict_of_close serde fuel hend, tail_encode (by decide) hend]
    exact .ok [] _
  · rw [if_neg fun h => hend (hhead.1 h), dict_of_key serde fuel hend, ← value_ws]
    refine (hvalue _).bind fun k afterKey _ => ?_
    dsimp only
    cases keyText serde k with
    | none => exact .error _ _
    | some key =>
        unfold entryTail
        dsimp only
        have hcolon := head?_encode (x := ':') (by decide) (Tasks.ws afterKey)
        rw [ws_encode]
        by_cases hsep : (Tasks.ws afterKey).head? = some ':'
        · rw [if_pos (hcolon.2 hsep), if_pos hsep, tail_encode (by decide) hsep]
          refine (hvalue _).bind fun v rest _ => ?_
          unfold dictTail
          dsimp only
          rw [ws_encode]
          cases Tasks.ws rest with
          | nil => exact .error _ _
          | cons c more =>
              obtain ⟨b, tail, hencode, hleads, hascii⟩ := Utf8.exists_leads c
              rw [Utf8.encode_cons, hencode, List.cons_append]
              dsimp only
              by_cases hcomma : c = ','
              · have hb := (hascii (by rw [hcomma]; decide)).2
                rw [if_pos ((hleads.eq_iff ',' (by decide)).2 hcomma), if_pos hcomma, hb]
                exact (hdict more).map ((key, v) :: ·)
              · rw [if_neg fun h => hcomma ((hleads.eq_iff ',' (by decide)).1 h), if_neg hcomma]
                by_cases hc : c = '}'
                · have hb := (hascii (by rw [hc]; decide)).2
                  rw [if_pos ((hleads.eq_iff '}' (by decide)).2 hc), if_pos hc, hb]
                  exact .ok [(key, v)] more
                · rw [if_neg fun h => hc ((hleads.eq_iff '}' (by decide)).1 h), if_neg hc]
                  exact .error _ _
        · rw [if_neg fun h => hsep (hcolon.1 h), if_neg hsep]
          exact .error _ _

/-- A value, by its first character. -/
theorem value_encode {fuel : Nat}
    (hitems : ∀ close, Utf8.IsAscii close → ∀ s, Agrees
      (items serde fuel (byte close) (encode s)) (Tasks.items serde fuel close s))
    (hdict : ∀ s, Agrees (dict serde fuel (encode s)) (Tasks.dict serde fuel s)) (s : List Char) :
    Agrees (value serde (fuel + 1) (encode s)) (Tasks.value serde (fuel + 1) s) := by
  rw [← value_ws]
  unfold value
  rw [ws_encode]
  cases hs : Tasks.ws s with
  | nil =>
      unfold Tasks.value
      exact keywordValue_encode []
  | cons c rest =>
      obtain ⟨b, more, hencode, hleads, hascii⟩ := Utf8.exists_leads c
      -- the parser only asks for ASCII characters, which the first byte tells
      have hiff : ∀ x, Utf8.IsAscii x → (b = byte x ↔ c = x) := hleads.eq_iff
      have htext : b :: (more ++ encode rest) = encode (c :: rest) := by
        rw [Utf8.encode_cons, hencode]
        rfl
      rw [value_cons serde (isWs_of_ws hs), Utf8.encode_cons, hencode, List.cons_append]
      dsimp only
      by_cases hlist : c = '['
      · have hmore := (hascii (by rw [hlist]; decide)).2
        rw [if_pos ((hiff '[' (by decide)).2 hlist), if_pos hlist, hmore]
        exact (hitems ']' (by decide) rest).map Json.arr
      rw [if_neg fun h => hlist ((hiff '[' (by decide)).1 h), if_neg hlist]
      by_cases htuple : c = '('
      · have hmore := (hascii (by rw [htuple]; decide)).2
        rw [if_pos ((hiff '(' (by decide)).2 htuple), if_pos htuple, hmore]
        exact (hitems ')' (by decide) rest).map Json.arr
      rw [if_neg fun h => htuple ((hiff '(' (by decide)).1 h), if_neg htuple]
      by_cases hbrace : c = '{'
      · have hmore := (hascii (by rw [hbrace]; decide)).2
        rw [if_pos ((hiff '{' (by decide)).2 hbrace), if_pos hbrace, hmore]
        exact (hdict rest).map Json.ofEntries
      rw [if_neg fun h => hbrace ((hiff '{' (by decide)).1 h), if_neg hbrace]
      by_cases hsingle : c = '\''
      · obtain ⟨hb, hmore⟩ := hascii (by rw [hsingle]; decide)
        rw [if_pos (.inl ((hiff '\'' (by decide)).2 hsingle)), if_pos hsingle, hmore, hb, hsingle]
        exact (string_encode (by decide) (by decide) rest).map fun t => Json.str (String.ofList t)
      rw [if_neg hsingle]
      by_cases hdouble : c = '"'
      · obtain ⟨hb, hmore⟩ := hascii (by rw [hdouble]; decide)
        rw [if_pos (.inr ((hiff '"' (by decide)).2 hdouble)), if_pos hdouble, hmore, hb, hdouble]
        exact (string_encode (by decide) (by decide) rest).map fun t => Json.str (String.ofList t)
      have hquote : ¬ (b = byte '\'' ∨ b = byte '"') := by
        intro h
        rcases h with h | h
        · exact hsingle ((hiff '\'' (by decide)).1 h)
        · exact hdouble ((hiff '"' (by decide)).1 h)
      rw [if_neg hquote, if_neg hdouble, hleads.holds _ onAscii_beginsNumber, htext]
      by_cases hnum : beginsNumber c = true
      · rw [if_pos hnum, if_pos hnum]
        exact number_encode (c :: rest)
      · rw [if_neg hnum, if_neg hnum]
        exact keywordValue_encode (c :: rest)

/-- **Reading the bytes of a text is reading its characters**, for each of the three calls. -/
theorem agrees (fuel : Nat) :
    (∀ s, Agrees (value serde fuel (encode s)) (Tasks.value serde fuel s)) ∧
      (∀ close, Utf8.IsAscii close → ∀ s, Agrees
        (items serde fuel (byte close) (encode s)) (Tasks.items serde fuel close s)) ∧
      ∀ s, Agrees (dict serde fuel (encode s)) (Tasks.dict serde fuel s) := by
  induction fuel with
  | zero => exact ⟨fun _ => rfl, fun _ _ _ => rfl, fun _ => rfl⟩
  | succ fuel ih =>
      obtain ⟨hvalue, hitems, hdict⟩ := ih
      exact ⟨value_encode serde hitems hdict,
        fun close hclose => items_encode serde hclose hvalue (hitems close hclose),
        dict_encode serde hvalue hdict⟩

/-- **The bytes of a text are read as its characters are.** -/
theorem parse_eq_ok_iff {src : String} {v : Json} :
    parse serde src = .ok v ↔ Tasks.parse serde src.toList = .ok v := by
  -- no text has more characters than bytes, so that the fuel is enough for both
  have hlength : src.toList.length ≤ (asBytes src).length := by
    rw [Utf8.asBytes_eq_encode]
    exact Utf8.length_le_encode src.toList
  have hfuel : 2 * src.toList.length ≤ 2 * (asBytes src).length + 2 := by omega
  rw [Tasks.parse_eq_ok_iff, ← value_eq_ok_iff serde hfuel, parse]
  have hread := (agrees serde (2 * (asBytes src).length + 2)).1 src.toList
  rw [← Utf8.asBytes_eq_encode] at hread
  cases hchars : Tasks.value serde (2 * (asBytes src).length + 2) src.toList with
  | error e =>
      rw [hchars] at hread
      cases hbytes : value serde (2 * (asBytes src).length + 2) (asBytes src) with
      | error e' => simp
      | ok p =>
          rw [hbytes] at hread
          cases hread
  | ok p =>
      obtain ⟨v', rest⟩ := p
      rw [hchars] at hread
      cases hbytes : value serde (2 * (asBytes src).length + 2) (asBytes src) with
      | error e' =>
          rw [hbytes] at hread
          cases hread
      | ok q =>
          rw [hbytes] at hread
          have hq : q = (v', encode rest) := Option.some.inj hread
          rw [hq]
          dsimp only
          rw [ws_encode]
          by_cases hblank : Tasks.ws rest = [] <;> simp [hblank]

end

end Feloxi.Tasks.ReprBytes
