import Feloxi.Pipeline.Events
import Mathlib.Algebra.Order.Field.Power
import Mathlib.Data.List.DropRight

/-!
# Feloxi.Tasks.PyRepr

The parser of the Python literals that Celery records (`crates/api/src/broker_conn/pyrepr.rs`).

The source walks the bytes of a UTF-8 text; here it is the characters, of which the
parser only ever skips whole ones (the parser on bytes is in `Feloxi.Tasks.ReprBytes`). Errors
name what went wrong and leave out where.

The recursion is on fuel, one unit a call. A text needs twice its length and a little,
and the parser never stops for want of it (`parse_ne_outOfFuel`).
-/

namespace Feloxi.Tasks

open Pipeline (SerdeJson)

/-- Why a text is refused. -/
inductive ReprError where
  | unexpectedText
  | unsupportedValue
  | unexpectedEnd
  | expectedCommaOr (close : Char)
  | unsupportedKey
  | expectedColon
  | unterminatedString
  | unterminatedEscape
  | unsupportedEscape (c : Char)
  | shortEscape
  | badEscape
  | invalidCodePoint
  | truncated
  | invalidNumber
  | outOfFuel
  deriving Repr, DecidableEq

/-- What was read, and the text after it. -/
abbrev Parsed (α : Type) := Except ReprError (α × List Char)

def isWs (c : Char) : Bool := c == ' ' || c == '\t' || c == '\n' || c == '\r'

/-- Skip whitespace. -/
def ws (s : List Char) : List Char := s.dropWhile isWs

/-! ### Numbers -/

/-- A character that `number` takes. -/
def isNumChar (c : Char) : Bool :=
  c.isDigit || c == '-' || c == '+' || c == '.' || c == 'e' || c == 'E' || c == '_'

/-- The sign of a number, and the text without it. -/
def splitSign : List Char → Bool × List Char
  | '-' :: digits => (true, digits)
  | '+' :: digits => (false, digits)
  | digits => (false, digits)

/-- A run of one or more digits. -/
def digits? (s : List Char) : Option Nat :=
  if s.isEmpty || !s.all Char.isDigit then none else some (Nat.ofDigitChars 10 s 0)

/-- `text.parse::<i64>()`. -/
def parseI64 (text : List Char) : Option Int :=
  let (neg, digits) := splitSign text
  (digits? digits).bind fun n =>
    let v : Int := if neg then -n else n
    if -(2 ^ 63) ≤ v ∧ v < 2 ^ 63 then some v else none

/-- The exponent of a float, if what follows the mantissa is one. -/
def parseExponent : List Char → Option Int
  | [] => some 0
  | c :: rest =>
    if c = 'e' ∨ c = 'E' then
      let (neg, digits) := splitSign rest
      (digits? digits).map fun n => if neg then -n else n
    else none

/-- `text.parse::<f64>()`, exact. -/
def parseF64 (text : List Char) : Option ℚ :=
  let (neg, s) := splitSign text
  let whole := s.takeWhile Char.isDigit
  let rest := s.dropWhile Char.isDigit
  let (fraction, rest) := match rest with
    | '.' :: rest => (rest.takeWhile Char.isDigit, rest.dropWhile Char.isDigit)
    | rest => ([], rest)
  if (whole ++ fraction).isEmpty then none
  else (parseExponent rest).map fun (e : Int) =>
    let q : ℚ := (Nat.ofDigitChars 10 (whole ++ fraction) 0 : ℚ) * (10 : ℚ) ^ (e - fraction.length)
    if neg then -q else q

/-- From here on a number is read as an infinity. -/
@[irreducible] def f64Limit : Nat := 2 ^ 1024 - 2 ^ 970

/-- `number`: an integer, or else a finite float. -/
def number (s : List Char) : Parsed Json :=
  let text := (s.takeWhile isNumChar).filter (· != '_')
  let rest := s.dropWhile isNumChar
  if ['.', '.', '.'].isSuffixOf text then .error .truncated
  else
    match parseI64 text with
    | some n => .ok (.int n, rest)
    | none =>
      match parseF64 text with
      | some q => if |q| < f64Limit then .ok (.float (.fin q), rest) else .error .invalidNumber
      | none => .error .invalidNumber

/-! ### Strings -/

/-- A hexadecimal digit. -/
def hexVal (c : Char) : Option Nat :=
  if c.isDigit then some (c.toNat - 48)
  else if 'a' ≤ c ∧ c ≤ 'f' then some (c.toNat - 87)
  else if 'A' ≤ c ∧ c ≤ 'F' then some (c.toNat - 55)
  else none

/-- `u32::from_str_radix(_, 16)`: a plus sign is allowed. -/
def hexNat (hex : List Char) : Option Nat :=
  let hex := match hex with
    | '+' :: rest => rest
    | hex => hex
  if hex.isEmpty then none
  else hex.foldl (fun acc c => acc.bind fun n => (hexVal c).map fun d => 16 * n + d) (some 0)

/-- `hex_char` of the digits of an escape. -/
def hexChar (hex : List Char) : Except ReprError Char :=
  match hexNat hex with
  | none => .error .badEscape
  | some code => if code.isValidChar then .ok (Char.ofNat code) else .error .invalidCodePoint

/-- The escapes of one letter. -/
def simpleEscape : Char → Option Char
  | '\\' => some '\\'
  | '\'' => some '\''
  | '"' => some '"'
  | 'n' => some '\n'
  | 't' => some '\t'
  | 'r' => some '\r'
  | '0' => some (Char.ofNat 0)
  | 'a' => some (Char.ofNat 7)
  | 'b' => some (Char.ofNat 8)
  | 'f' => some (Char.ofNat 12)
  | 'v' => some (Char.ofNat 11)
  | _ => none

/-- A character in front of what is read after it. -/
def consChar (c : Char) (r : Parsed (List Char)) : Parsed (List Char) :=
  r.map fun p => (c :: p.1, p.2)

/-- `string`, after the opening quote. -/
def stringBody (quote : Char) : List Char → Parsed (List Char)
  | [] => .error .unterminatedString
  | c :: rest =>
    if c = quote then .ok ([], rest)
    else if c ≠ '\\' then consChar c (stringBody quote rest)
    else
      match rest with
      | [] => .error .unterminatedEscape
      | e :: rest =>
        match simpleEscape e with
        | some d => consChar d (stringBody quote rest)
        | none =>
          if e = 'x' then
            match rest with
            | h1 :: h2 :: rest => (hexChar [h1, h2]).bind fun d => consChar d (stringBody quote rest)
            | _ => .error .shortEscape
          else if e = 'u' then
            match rest with
            | h1 :: h2 :: h3 :: h4 :: rest =>
              (hexChar [h1, h2, h3, h4]).bind fun d => consChar d (stringBody quote rest)
            | _ => .error .shortEscape
          else if e = 'U' then
            match rest with
            | h1 :: h2 :: h3 :: h4 :: h5 :: h6 :: h7 :: h8 :: rest =>
              (hexChar [h1, h2, h3, h4, h5, h6, h7, h8]).bind fun d =>
                consChar d (stringBody quote rest)
            | _ => .error .shortEscape
          else .error (.unsupportedEscape e)

theorem stringBody_quote (quote : Char) (rest : List Char) :
    stringBody quote (quote :: rest) = .ok ([], rest) := by
  unfold stringBody
  exact if_pos rfl

theorem stringBody_plain {quote c : Char} (hquote : c ≠ quote) (hplain : c ≠ '\\')
    (rest : List Char) : stringBody quote (c :: rest) = consChar c (stringBody quote rest) := by
  conv => lhs; unfold stringBody
  rw [if_neg hquote, if_pos hplain]

/-- The digits of an escape, which number `n`. -/
def hexEscape (n : Nat) (s : List Char) : Parsed Char :=
  if s.length < n then .error .shortEscape
  else (hexChar (s.take n)).map fun d => (d, s.drop n)

/-- One escape, after its backslash. -/
def escapeChar : List Char → Parsed Char
  | [] => .error .unterminatedEscape
  | e :: rest =>
    match simpleEscape e with
    | some d => .ok (d, rest)
    | none =>
      if e = 'x' then hexEscape 2 rest
      else if e = 'u' then hexEscape 4 rest
      else if e = 'U' then hexEscape 8 rest
      else .error (.unsupportedEscape e)

theorem hexChar_bind_eq (hex rest : List Char) (k : List Char → Parsed (List Char)) :
    ((hexChar hex).bind fun d => consChar d (k rest)) =
      ((hexChar hex).map fun d => (d, rest)).bind fun p => consChar p.1 (k p.2) := by
  cases hexChar hex with
  | error e => rfl
  | ok d => rfl

/-- A string goes on after an escape. -/
theorem stringBody_backslash {quote : Char} (hquote : quote ≠ '\\') (rest : List Char) :
    stringBody quote ('\\' :: rest) =
      (escapeChar rest).bind fun p => consChar p.1 (stringBody quote p.2) := by
  conv => lhs; unfold stringBody
  rw [if_neg (Ne.symm hquote), if_neg (fun h => h rfl)]
  unfold escapeChar
  cases rest with
  | nil => rfl
  | cons e rest =>
      dsimp only
      cases simpleEscape e with
      | some d => rfl
      | none =>
          dsimp only
          by_cases hx : e = 'x'
          · rw [if_pos hx, if_pos hx]
            rcases rest with _ | ⟨h1, _ | ⟨h2, rest⟩⟩
            · rfl
            · rfl
            · exact hexChar_bind_eq [h1, h2] rest _
          · rw [if_neg hx, if_neg hx]
            by_cases hu : e = 'u'
            · rw [if_pos hu, if_pos hu]
              rcases rest with _ | ⟨h1, _ | ⟨h2, _ | ⟨h3, _ | ⟨h4, rest⟩⟩⟩⟩
              · rfl
              · rfl
              · rfl
              · rfl
              · exact hexChar_bind_eq [h1, h2, h3, h4] rest _
            · rw [if_neg hu, if_neg hu]
              by_cases hU : e = 'U'
              · rw [if_pos hU, if_pos hU]
                rcases rest with _ | ⟨h1, _ | ⟨h2, _ | ⟨h3, _ | ⟨h4, _ | ⟨h5, _ | ⟨h6, _ |
                  ⟨h7, _ | ⟨h8, rest⟩⟩⟩⟩⟩⟩⟩⟩
                · rfl
                · rfl
                · rfl
                · rfl
                · rfl
                · rfl
                · rfl
                · rfl
                · exact hexChar_bind_eq [h1, h2, h3, h4, h5, h6, h7, h8] rest _
              · rw [if_neg hU, if_neg hU]
                rfl

theorem hexVal_isSome_of_foldl (s : List Char) (acc : Option Nat)
    (h : (s.foldl (fun acc c => acc.bind fun n => (hexVal c).map fun d => 16 * n + d) acc).isSome) :
    acc.isSome ∧ ∀ c ∈ s, (hexVal c).isSome := by
  induction s generalizing acc with
  | nil => exact ⟨h, nofun⟩
  | cons c s ih =>
      obtain ⟨hstep, hs⟩ := ih _ h
      cases acc with
      | none => cases hstep
      | some n =>
          have hc : (hexVal c).isSome := by simpa using hstep
          exact ⟨rfl, List.forall_mem_cons.2 ⟨hc, hs⟩⟩

/-- A code is hexadecimal digits, behind a plus sign at most. -/
theorem digits_of_hexChar {hex : List Char} {d : Char} (h : hexChar hex = .ok d) :
    (∃ more, hex = '+' :: more ∧ ∀ c ∈ more, (hexVal c).isSome) ∨
      ∀ c ∈ hex, (hexVal c).isSome := by
  have hnat : ∃ n, hexNat hex = some n := by
    unfold hexChar at h
    split at h
    · cases h
    · rename_i n hn
      exact ⟨n, hn⟩
  obtain ⟨n, hn⟩ := hnat
  have hdigits : ∀ {s : List Char},
      (if s.isEmpty then none
        else s.foldl (fun acc c => acc.bind fun n => (hexVal c).map fun d => 16 * n + d) (some 0)) =
          some n → ∀ c ∈ s, (hexVal c).isSome := by
    intro s hs
    split at hs
    · cases hs
    · exact (hexVal_isSome_of_foldl s _ (Option.isSome_iff_exists.2 ⟨n, hs⟩)).2
  unfold hexNat at hn
  split at hn
  · exact .inl ⟨_, rfl, hdigits hn⟩
  · exact .inr (hdigits hn)

theorem hexVal_isSome_of_hexChar {hex : List Char} {d : Char} (h : hexChar hex = .ok d) :
    ∀ c ∈ hex, c = '+' ∨ (hexVal c).isSome := by
  intro c hc
  rcases digits_of_hexChar h with ⟨more, heq, hmore⟩ | hdigits
  · rw [heq] at hc
    rcases List.mem_cons.1 hc with hplus | hc
    · exact .inl hplus
    · exact .inr (hmore c hc)
  · exact .inr (hdigits c hc)

/-- The digits of an escape are the next `n` characters. -/
theorem hexEscape_eq_ok_iff {n : Nat} {s rest : List Char} {d : Char} :
    hexEscape n s = .ok (d, rest) ↔
      ∃ digits, digits.length = n ∧ hexChar digits = .ok d ∧ s = digits ++ rest := by
  constructor
  · intro h
    unfold hexEscape at h
    split at h
    · cases h
    · rename_i hlong
      cases hchar : hexChar (s.take n) with
      | error err =>
          rw [hchar] at h
          cases h
      | ok d' =>
          rw [hchar] at h
          cases h
          exact ⟨s.take n, List.length_take_of_le (Nat.not_lt.1 hlong), hchar,
            (List.take_append_drop n s).symm⟩
  · intro ⟨digits, hlength, hd, hs⟩
    have hlong : ¬ s.length < n := by
      rw [hs, List.length_append]
      omega
    rw [hexEscape, if_neg hlong, hs, List.take_left' hlength, List.drop_left' hlength, hd]
    rfl

/-- The number of digits of an escape. -/
def hexLength (e : Char) : Option Nat :=
  if e = 'x' then some 2 else if e = 'u' then some 4 else if e = 'U' then some 8 else none

theorem two_le_hexLength {e : Char} {n : Nat} (h : hexLength e = some n) : 2 ≤ n := by
  unfold hexLength at h
  split_ifs at h <;> cases h <;> decide

theorem escapeChar_simple {e d : Char} (h : simpleEscape e = some d) (rest : List Char) :
    escapeChar (e :: rest) = .ok (d, rest) := by
  simp only [escapeChar, h]

theorem escapeChar_of_hexLength {e : Char} {n : Nat} (h : hexLength e = some n)
    (rest : List Char) : escapeChar (e :: rest) = hexEscape n rest := by
  unfold hexLength at h
  split_ifs at h with hx hu hU
  · cases h
    subst hx
    rfl
  · cases h
    subst hu
    rfl
  · cases h
    subst hU
    rfl

theorem escapeChar_hex {e d : Char} {n : Nat} {digits : List Char} (h : hexLength e = some n)
    (hlength : digits.length = n) (hd : hexChar digits = .ok d) (rest : List Char) :
    escapeChar (e :: (digits ++ rest)) = .ok (d, rest) := by
  rw [escapeChar_of_hexLength h]
  exact hexEscape_eq_ok_iff.2 ⟨digits, hlength, hd, rfl⟩

/-- What an escape is: one letter, or a letter and its digits. -/
theorem escapeChar_cases {e d : Char} {s rest : List Char}
    (h : escapeChar (e :: s) = .ok (d, rest)) :
    (simpleEscape e = some d ∧ s = rest) ∨
      ∃ n digits, simpleEscape e = none ∧ hexLength e = some n ∧ digits.length = n ∧
        hexChar digits = .ok d ∧ s = digits ++ rest := by
  cases hsimple : simpleEscape e with
  | some d' =>
      rw [escapeChar_simple hsimple] at h
      cases h
      exact .inl ⟨rfl, rfl⟩
  | none =>
      have hread : ∃ n, hexLength e = some n := by
        simp only [escapeChar, hsimple] at h
        unfold hexLength
        split_ifs at h ⊢ <;> simp
      obtain ⟨n, hn⟩ := hread
      rw [escapeChar_of_hexLength hn] at h
      obtain ⟨digits, hlength, hd, hs⟩ := hexEscape_eq_ok_iff.1 h
      exact .inr ⟨n, digits, rfl, hn, hlength, hd, hs⟩

/-- The digits of an escape are neither quotes nor backslashes. -/
theorem plain_of_hexChar {digits : List Char} {d : Char} (h : hexChar digits = .ok d) {c : Char}
    (hc : c ∈ digits) : c ≠ '\'' ∧ c ≠ '"' ∧ c ≠ '\\' := by
  have hne : ∀ x, x ≠ '+' → hexVal x = none → c ≠ x := by
    intro x hplus hnone heq
    have hdigit := hexVal_isSome_of_hexChar h c hc
    rw [heq, hnone] at hdigit
    rcases hdigit with hdigit | hdigit
    · exact hplus hdigit
    · cases hdigit
  exact ⟨hne '\'' (by decide) rfl, hne '"' (by decide) rfl, hne '\\' (by decide) rfl⟩

/-- What an escape takes: a letter, and digits that do not depend on what follows them. A
space takes two of them at least. -/
theorem escapeChar_ok {s rest : List Char} {d : Char} (h : escapeChar s = .ok (d, rest)) :
    ∃ e digits, s = e :: (digits ++ rest) ∧ (∀ c ∈ digits, c ≠ '\'' ∧ c ≠ '\\') ∧
      (d = ' ' → 2 ≤ digits.length) ∧
        ∀ more, escapeChar (e :: (digits ++ more)) = .ok (d, more) := by
  cases s with
  | nil => cases h
  | cons e s =>
      rcases escapeChar_cases h with ⟨hsimple, hs⟩ | ⟨n, digits, -, hn, hlength, hd, hs⟩
      · refine ⟨e, [], by rw [hs]; rfl, fun _ hc => absurd hc List.not_mem_nil, fun hspace => ?_,
          escapeChar_simple hsimple⟩
        -- no letter stands for a space
        rw [hspace] at hsimple
        unfold simpleEscape at hsimple
        split at hsimple <;> cases hsimple
      · refine ⟨e, digits, by rw [hs], fun c hc => ?_, fun _ => ?_, escapeChar_hex hn hlength hd⟩
        · obtain ⟨hsingle, -, hbackslash⟩ := plain_of_hexChar hd hc
          exact ⟨hsingle, hbackslash⟩
        · rw [hlength]
          exact two_le_hexLength hn

theorem suffix_of_escapeChar {s rest : List Char} {d : Char} (h : escapeChar s = .ok (d, rest)) :
    rest <:+ s ∧ rest.length < s.length := by
  obtain ⟨e, digits, rfl, -, -, -⟩ := escapeChar_ok h
  rw [← List.cons_append]
  refine ⟨List.suffix_append (e :: digits) rest, ?_⟩
  rw [List.length_append, List.length_cons]
  omega

/-! ### Values -/

/-- A character that continues an identifier. -/
def isIdent (c : Char) : Bool := c.isAlphanum || c == '_'

/-- `keyword`: the text after it, if it stands there as a whole word. -/
def keyword (kw : String) (s : List Char) : Option (List Char) :=
  let rest := s.drop kw.toList.length
  if kw.toList.isPrefixOf s && !(rest.head?.any isIdent) then some rest else none

/-- A value that stands for itself as a keyword. -/
def keywordValue (s : List Char) : Parsed Json :=
  match keyword "None" s with
  | some rest => .ok (.null, rest)
  | none =>
    match keyword "True" s with
    | some rest => .ok (.bool true, rest)
    | none =>
      match keyword "False" s with
      | some rest => .ok (.bool false, rest)
      | none => .error (if s.isEmpty then .unexpectedEnd else .unsupportedValue)

/-- A dict key as text. -/
def keyText (serde : SerdeJson) : Json → Option String
  | .str s => some s
  | .int n => some (serde.toString (.int n))
  | .float x => some (serde.toString (.float x))
  | _ => none

mutual

/-- `value`. -/
def value (serde : SerdeJson) : Nat → List Char → Parsed Json
  | 0, _ => .error .outOfFuel
  | fuel + 1, s =>
    match ws s with
    | '[' :: rest => (items serde fuel ']' rest).map fun p => (.arr p.1, p.2)
    | '(' :: rest => (items serde fuel ')' rest).map fun p => (.arr p.1, p.2)
    | '{' :: rest => (dict serde fuel rest).map fun p => (.ofEntries p.1, p.2)
    | '\'' :: rest => (stringBody '\'' rest).map fun p => (.str (String.ofList p.1), p.2)
    | '"' :: rest => (stringBody '"' rest).map fun p => (.str (String.ofList p.1), p.2)
    | [] => keywordValue []
    | c :: rest =>
      if c == '-' || c == '+' || c.isDigit || c == '.' then number (c :: rest)
      else keywordValue (c :: rest)

/-- `items`: values up to `close`; a trailing comma is allowed. -/
def items (serde : SerdeJson) : Nat → Char → List Char → Parsed (List Json)
  | 0, _, _ => .error .outOfFuel
  | fuel + 1, close, s =>
    if (ws s).head? = some close then .ok ([], (ws s).tail)
    else
      match value serde fuel (ws s) with
      | .error e => .error e
      | .ok (v, s) =>
        match ws s with
        | [] => .error (.expectedCommaOr close)
        | c :: rest =>
          if c = ',' then (items serde fuel close rest).map fun p => (v :: p.1, p.2)
          else if c = close then .ok ([v], rest)
          else .error (.expectedCommaOr close)

/-- `dict`, after the opening brace: the entries in the order in which they are
inserted. -/
def dict (serde : SerdeJson) : Nat → List Char → Parsed (List (String × Json))
  | 0, _ => .error .outOfFuel
  | fuel + 1, s =>
    if (ws s).head? = some '}' then .ok ([], (ws s).tail)
    else
      match value serde fuel (ws s) with
      | .error e => .error e
      | .ok (k, s) =>
        match keyText serde k with
        | none => .error .unsupportedKey
        | some key =>
          if (ws s).head? = some ':' then
            match value serde fuel (ws s).tail with
            | .error e => .error e
            | .ok (v, s) =>
              match ws s with
              | [] => .error (.expectedCommaOr '}')
              | c :: rest =>
                if c = ',' then (dict serde fuel rest).map fun p => ((key, v) :: p.1, p.2)
                else if c = '}' then .ok ([(key, v)], rest)
                else .error (.expectedCommaOr '}')
          else .error .expectedColon

end

/-- `parse`. -/
def parse (serde : SerdeJson) (src : List Char) : Except ReprError Json :=
  match value serde (2 * src.length + 2) src with
  | .error e => .error e
  | .ok (v, s) => if (ws s).isEmpty then .ok v else .error .unexpectedText

/-! ### One element at a time -/

/-- `items` after a value. -/
def itemsTail (serde : SerdeJson) (fuel : Nat) (close : Char) (s : List Char) :
    Parsed (List Json) :=
  match ws s with
  | [] => .error (.expectedCommaOr close)
  | c :: rest =>
    if c = ',' then items serde fuel close rest
    else if c = close then .ok ([], rest)
    else .error (.expectedCommaOr close)

/-- `dict` after an entry. -/
def dictTail (serde : SerdeJson) (fuel : Nat) (s : List Char) : Parsed (List (String × Json)) :=
  match ws s with
  | [] => .error (.expectedCommaOr '}')
  | c :: rest =>
    if c = ',' then dict serde fuel rest
    else if c = '}' then .ok ([], rest)
    else .error (.expectedCommaOr '}')

/-- `dict` after a key. -/
def entryTail (serde : SerdeJson) (fuel : Nat) (key : String) (s : List Char) :
    Parsed (List (String × Json)) :=
  if (ws s).head? = some ':' then
    (value serde fuel (ws s).tail).bind fun p =>
      (dictTail serde fuel p.2).map fun q => ((key, p.1) :: q.1, q.2)
  else .error .expectedColon

theorem ws_ws (s : List Char) : ws (ws s) = ws s := List.dropWhile_idempotent _ _

theorem value_ws (serde : SerdeJson) (fuel : Nat) (s : List Char) :
    value serde fuel (ws s) = value serde fuel s := by
  cases fuel with
  | zero => rfl
  | succ fuel =>
      unfold value
      rw [ws_ws]

theorem items_of_close (serde : SerdeJson) (fuel : Nat) {close : Char} {s : List Char}
    (h : (ws s).head? = some close) :
    items serde (fuel + 1) close s = .ok ([], (ws s).tail) := by
  unfold items
  exact if_pos h

theorem items_of_value (serde : SerdeJson) (fuel : Nat) {close : Char} {s : List Char}
    (h : (ws s).head? ≠ some close) :
    items serde (fuel + 1) close s = (value serde fuel s).bind fun p =>
      (itemsTail serde fuel close p.2).map fun q => (p.1 :: q.1, q.2) := by
  conv => lhs; unfold items
  rw [if_neg h, value_ws]
  cases value serde fuel s with
  | error e => rfl
  | ok p =>
      show _ = (itemsTail serde fuel close p.2).map _
      unfold itemsTail
      dsimp only
      cases ws p.2 with
      | nil => rfl
      | cons c rest =>
          dsimp only
          split
          · rfl
          · split <;> rfl

theorem dict_of_close (serde : SerdeJson) (fuel : Nat) {s : List Char}
    (h : (ws s).head? = some '}') : dict serde (fuel + 1) s = .ok ([], (ws s).tail) := by
  unfold dict
  exact if_pos h

theorem dict_of_key (serde : SerdeJson) (fuel : Nat) {s : List Char}
    (h : (ws s).head? ≠ some '}') :
    dict serde (fuel + 1) s = (value serde fuel s).bind fun p =>
      match keyText serde p.1 with
      | none => .error .unsupportedKey
      | some key => entryTail serde fuel key p.2 := by
  conv => lhs; unfold dict
  rw [if_neg h, value_ws]
  cases value serde fuel s with
  | error e => rfl
  | ok p =>
      show _ = (match keyText serde p.1 with
        | none => .error .unsupportedKey
        | some key => entryTail serde fuel key p.2 : Parsed (List (String × Json)))
      dsimp only
      cases keyText serde p.1 with
      | none => rfl
      | some key =>
          dsimp only
          unfold entryTail
          split
          · cases value serde fuel (ws p.2).tail with
            | error e => rfl
            | ok q =>
                show _ = (dictTail serde fuel q.2).map _
                unfold dictTail
                dsimp only
                cases ws q.2 with
                | nil => rfl
                | cons c rest =>
                    dsimp only
                    split
                    · rfl
                    · split <;> rfl
          · rfl

/-! ### Fuel -/

/-- A call that succeeds takes some text, and one that fails does not fail for want of
fuel. -/
def Progress {α : Type} (s : List Char) : Parsed α → Prop
  | .ok (_, rest) => rest.length < s.length
  | .error e => e ≠ .outOfFuel

theorem Progress.map {α β : Type} {s : List Char} {r : Parsed α} (h : Progress s r)
    (f : α → β) : Progress s (r.map fun p => (f p.1, p.2)) := by
  cases r with
  | error e => exact h
  | ok p => exact h

/-- Progress on a shorter text. -/
theorem Progress.mono {α : Type} {s s' : List Char} {r : Parsed α} (h : Progress s' r)
    (hle : s'.length ≤ s.length) : Progress s r := by
  cases r with
  | error e => exact h
  | ok p => exact Nat.lt_of_lt_of_le h hle

theorem Progress.bind {α β : Type} {s : List Char} {r : Parsed α} {k : α × List Char → Parsed β}
    (h : Progress s r) (hk : ∀ p, p.2.length < s.length → Progress s (k p)) :
    Progress s (r.bind k) := by
  cases r with
  | error e => exact h
  | ok p => exact hk p h

theorem length_ws_le (s : List Char) : (ws s).length ≤ s.length :=
  (List.dropWhile_sublist _).length_le

theorem length_tail_ws_lt {s : List Char} {c : Char} (h : (ws s).head? = some c) :
    (ws s).tail.length < s.length := by
  have hws := length_ws_le s
  cases hs : ws s with
  | nil => rw [hs] at h; cases h
  | cons d rest =>
      rw [hs, List.length_cons] at hws
      show rest.length < s.length
      omega

theorem hexEscape_ne_outOfFuel (n : Nat) (s : List Char) : hexEscape n s ≠ .error .outOfFuel := by
  unfold hexEscape
  split
  · exact fun h => by cases h
  · cases hhex : hexChar (s.take n) with
    | ok d => exact fun h => by cases h
    | error e =>
        rintro ⟨⟩
        unfold hexChar at hhex
        split at hhex
        · cases hhex
        · split at hhex <;> cases hhex

theorem escapeChar_ne_outOfFuel (s : List Char) : escapeChar s ≠ .error .outOfFuel := by
  unfold escapeChar
  split
  · exact fun h => by cases h
  · split
    · exact fun h => by cases h
    · split
      · exact hexEscape_ne_outOfFuel 2 _
      · split
        · exact hexEscape_ne_outOfFuel 4 _
        · split
          · exact hexEscape_ne_outOfFuel 8 _
          · exact fun h => by cases h

theorem progress_stringBody {quote : Char} (hquote : quote ≠ '\\') (s : List Char) :
    Progress s (stringBody quote s) := by
  induction hlen : s.length using Nat.strong_induction_on generalizing s with
  | _ n ih =>
      -- what comes after the first character or escape is shorter
      have hrest : ∀ (c : Char) (rest : List Char), rest.length < n →
          Progress s (consChar c (stringBody quote rest)) := by
        intro c rest hlt
        exact ((ih rest.length hlt rest rfl).map (c :: ·)).mono (by omega)
      cases s with
      | nil => exact fun h => by cases h
      | cons c rest =>
          rw [List.length_cons] at hlen
          by_cases hclose : c = quote
          · rw [hclose, stringBody_quote]
            exact Nat.lt_succ_self rest.length
          · by_cases hplain : c = '\\'
            · subst hplain
              rw [stringBody_backslash hquote]
              cases hescape : escapeChar rest with
              | error e =>
                  rintro rfl
                  exact escapeChar_ne_outOfFuel rest hescape
              | ok p =>
                  have hlt := (suffix_of_escapeChar hescape).2
                  exact hrest p.1 p.2 (by omega)
            · rw [stringBody_plain hclose hplain]
              exact hrest c rest (by omega)

theorem progress_number {c : Char} {rest : List Char} (hc : isNumChar c = true) :
    Progress (c :: rest) (number (c :: rest)) := by
  have hlen : ((c :: rest).dropWhile isNumChar).length < (c :: rest).length := by
    rw [List.dropWhile_cons_of_pos hc]
    exact Nat.lt_succ_of_le (List.dropWhile_sublist _).length_le
  unfold number
  dsimp only
  split
  · exact fun h => by cases h
  · split
    · exact hlen
    · split
      · split
        · exact hlen
        · exact fun h => by cases h
      · exact fun h => by cases h

theorem length_keyword_lt {kw : String} (hkw : kw.toList ≠ []) {s rest : List Char}
    (h : keyword kw s = some rest) : rest.length < s.length := by
  unfold keyword at h
  dsimp only at h
  split at h
  · rename_i hcond
    rw [Bool.and_eq_true] at hcond
    have hle := (List.isPrefixOf_iff_prefix.1 hcond.1).length_le
    have hpos := List.length_pos_of_ne_nil hkw
    rw [← Option.some.inj h, List.length_drop]
    omega
  · cases h

theorem progress_keywordValue (s : List Char) : Progress s (keywordValue s) := by
  unfold keywordValue
  split
  · rename_i h
    exact length_keyword_lt (by decide) h
  · split
    · rename_i h
      exact length_keyword_lt (by decide) h
    · split
      · rename_i h
        exact length_keyword_lt (by decide) h
      · split <;> exact fun h => by cases h

section

variable (serde : SerdeJson) {fuel : Nat}
  (hvalue : ∀ s, 2 * s.length + 1 ≤ fuel → Progress s (value serde fuel s))
  (hitems : ∀ close s, 2 * s.length + 2 ≤ fuel → Progress s (items serde fuel close s))
  (hdict : ∀ s, 2 * s.length + 2 ≤ fuel → Progress s (dict serde fuel s))

include hitems hdict in
theorem progress_value {s : List Char} (hfuel : 2 * s.length + 1 ≤ fuel + 1) :
    Progress s (value serde (fuel + 1) s) := by
  have hws := length_ws_le s
  have hopen : ∀ {c : Char} {rest : List Char}, ws s = c :: rest →
      rest.length + 1 ≤ s.length := by
    intro c rest hs
    rwa [hs] at hws
  unfold value
  split
  · rename_i rest hs
    have hshort := hopen hs
    exact ((hitems ']' rest (by omega)).map Json.arr).mono (by omega)
  · rename_i rest hs
    have hshort := hopen hs
    exact ((hitems ')' rest (by omega)).map Json.arr).mono (by omega)
  · rename_i rest hs
    have hshort := hopen hs
    exact ((hdict rest (by omega)).map Json.ofEntries).mono (by omega)
  · rename_i rest hs
    have hshort := hopen hs
    exact ((progress_stringBody (by decide) rest).map fun t => Json.str (String.ofList t)).mono
      (by omega)
  · rename_i rest hs
    have hshort := hopen hs
    exact ((progress_stringBody (by decide) rest).map fun t => Json.str (String.ofList t)).mono
      (by omega)
  · exact (progress_keywordValue []).mono (Nat.zero_le _)
  · rename_i c rest _ _ _ _ _ hs
    have hle : (c :: rest).length ≤ s.length := hopen hs
    split
    · rename_i hc
      refine (progress_number ?_).mono hle
      simp only [Bool.or_eq_true] at hc
      simp only [isNumChar, Bool.or_eq_true]
      tauto
    · exact (progress_keywordValue _).mono hle

include hvalue hitems in
theorem progress_items (close : Char) {s : List Char} (hfuel : 2 * s.length + 2 ≤ fuel + 1) :
    Progress s (items serde (fuel + 1) close s) := by
  by_cases hclose : (ws s).head? = some close
  · rw [items_of_close serde fuel hclose]
    exact length_tail_ws_lt hclose
  · rw [items_of_value serde fuel hclose]
    refine (hvalue s (by omega)).bind fun p hp => Progress.map ?_ (p.1 :: ·)
    unfold itemsTail
    split
    · exact fun h => by cases h
    · rename_i c rest hs
      have hws := length_ws_le p.2
      rw [hs, List.length_cons] at hws
      split
      · exact (hitems close rest (by omega)).mono (by omega)
      · split
        · show rest.length < s.length
          omega
        · exact fun h => by cases h

include hvalue hdict in
theorem progress_dict {s : List Char} (hfuel : 2 * s.length + 2 ≤ fuel + 1) :
    Progress s (dict serde (fuel + 1) s) := by
  by_cases hclose : (ws s).head? = some '}'
  · rw [dict_of_close serde fuel hclose]
    exact length_tail_ws_lt hclose
  · rw [dict_of_key serde fuel hclose]
    refine (hvalue s (by omega)).bind fun p hp => ?_
    split
    · exact fun h => by cases h
    · rename_i key _
      unfold entryTail
      split
      · rename_i hcolon
        have htail := length_tail_ws_lt hcolon
        refine ((hvalue (ws p.2).tail (by omega)).mono (by omega)).bind
          fun q hq => Progress.map ?_ ((key, q.1) :: ·)
        unfold dictTail
        split
        · exact fun h => by cases h
        · rename_i c rest hs
          have hws := length_ws_le q.2
          rw [hs, List.length_cons] at hws
          split
          · exact (hdict rest (by omega)).mono (by omega)
          · split
            · show rest.length < s.length
              omega
            · exact fun h => by cases h
      · exact fun h => by cases h

end

/-- **Enough fuel**, for each of the three calls. -/
theorem progress (serde : SerdeJson) (fuel : Nat) :
    (∀ s, 2 * s.length + 1 ≤ fuel → Progress s (value serde fuel s)) ∧
      (∀ close s, 2 * s.length + 2 ≤ fuel → Progress s (items serde fuel close s)) ∧
      ∀ s, 2 * s.length + 2 ≤ fuel → Progress s (dict serde fuel s) := by
  induction fuel with
  | zero => exact ⟨fun s h => by omega, fun _ s h => by omega, fun s h => by omega⟩
  | succ fuel ih =>
      obtain ⟨hvalue, hitems, hdict⟩ := ih
      exact ⟨fun s hfuel => progress_value serde hitems hdict hfuel,
        fun close s hfuel => progress_items serde hvalue hitems close hfuel,
        fun s hfuel => progress_dict serde hvalue hdict hfuel⟩

/-- The parser never runs out of fuel. -/
theorem parse_ne_outOfFuel (serde : SerdeJson) (src : List Char) :
    parse serde src ≠ .error .outOfFuel := by
  have hprogress := (progress serde (2 * src.length + 2)).1 src (by omega)
  unfold parse
  cases hread : value serde (2 * src.length + 2) src with
  | error e =>
      rw [hread] at hprogress
      exact fun h => hprogress (Except.error.inj h)
  | ok p =>
      dsimp only
      split <;> exact fun h => by cases h

end Feloxi.Tasks
