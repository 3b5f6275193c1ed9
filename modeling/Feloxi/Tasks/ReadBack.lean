import Feloxi.Tasks.Quotes
import Mathlib.Data.List.TakeWhile

/-!
# Feloxi.Tasks.ReadBack

What the parser makes of a printed value. Strings with a backslash and integers outside
the range of `i64` come back as something else, or not at all. A text that was cut off is
always refused.
-/

namespace Feloxi.Tasks

open Pipeline (SerdeJson)
open PyValue (intText escape quote tupleEnd text textItems textEntries cutMark Printed)

/-! ### Outcomes -/

/-- A call reads what is expected and leaves the rest, but for want of fuel; where nothing
is expected, it fails or the parser is lost. -/
def Reads {α : Type} (r : Parsed α) (expected : Option α) (rest : List Char) : Prop :=
  match expected with
  | some v => r = .error .outOfFuel ∨ r = .ok (v, rest)
  | none => Lost r

theorem Reads.map {α β : Type} {r : Parsed α} {expected : Option α} {rest : List Char}
    (h : Reads r expected rest) (f : α → β) :
    Reads (r.map fun p => (f p.1, p.2)) (expected.map f) rest := by
  cases expected with
  | none => exact Lost.map h f
  | some v =>
      rcases h with rfl | rfl
      · exact .inl rfl
      · exact .inr rfl

/-- What follows a printed value goes on neither a number nor a word. -/
def Stops (rest : List Char) : Prop :=
  ∀ c more, rest = c :: more → isNumChar c = false ∧ isIdent c = false

theorem stops_cons {c : Char} (hnum : isNumChar c = false) (hident : isIdent c = false)
    (rest : List Char) : Stops (c :: rest) := by
  rintro c' more ⟨⟩
  exact ⟨hnum, hident⟩

/-! ### Integers -/

/-- The range of `i64`. -/
def IsI64 (n : Int) : Prop := -(2 ^ 63) ≤ n ∧ n < 2 ^ 63

instance (n : Int) : Decidable (IsI64 n) := inferInstanceAs (Decidable (_ ∧ _))

/-- What an integer is read back as. -/
def readInt (n : Int) : Option Json :=
  if IsI64 n then some (.int n)
  else if n.natAbs < f64Limit then some (.float (.fin n))
  else none

theorem isDigit_of_mem_digits {n : Nat} {c : Char} (h : c ∈ Nat.toDigits 10 n) :
    c.isDigit = true := Nat.isDigit_of_mem_toDigits (by decide) (by decide) h

theorem isNumChar_of_isDigit {c : Char} (h : c.isDigit = true) : isNumChar c = true := by
  simp [isNumChar, h]

theorem mem_intText {n : Int} {c : Char} (h : c ∈ intText n) : c = '-' ∨ c.isDigit = true := by
  unfold intText at h
  split at h
  · rcases List.mem_cons.1 h with rfl | h
    · exact .inl rfl
    · exact .inr (isDigit_of_mem_digits h)
  · exact .inr (isDigit_of_mem_digits h)

theorem digits?_toDigits (n : Nat) : digits? (Nat.toDigits 10 n) = some n := by
  have hne : (Nat.toDigits 10 n).isEmpty = false := by simp
  have hall : (Nat.toDigits 10 n).all Char.isDigit = true :=
    List.all_eq_true.2 fun c hc => isDigit_of_mem_digits hc
  rw [digits?, hne, hall, Nat.ofDigitChars_ten_toDigits]
  rfl

/-- Digits have no sign. -/
theorem splitSign_toDigits (n : Nat) : splitSign (Nat.toDigits 10 n) =
    (false, Nat.toDigits 10 n) := by
  have hdigit : ∀ c ∈ Nat.toDigits 10 n, c.isDigit = true := fun c hc => isDigit_of_mem_digits hc
  cases hdigits : Nat.toDigits 10 n with
  | nil => rfl
  | cons c rest =>
      have hc := hdigit c (by rw [hdigits]; exact List.mem_cons_self)
      unfold splitSign
      split
      · rename_i heq
        rw [(List.cons.inj heq).1] at hc
        cases hc
      · rename_i heq
        rw [(List.cons.inj heq).1] at hc
        cases hc
      · rfl

theorem splitSign_intText (n : Int) :
    splitSign (intText n) = (decide (n < 0), Nat.toDigits 10 n.natAbs) := by
  unfold intText
  by_cases hneg : n < 0
  · simp [hneg, splitSign]
  · rw [if_neg hneg, splitSign_toDigits, decide_eq_false hneg]

theorem parseI64_intText (n : Int) : parseI64 (intText n) = if IsI64 n then some n else none := by
  have hvalue : (if decide (n < 0) = true then -(n.natAbs : Int) else n.natAbs) = n := by
    by_cases hneg : n < 0
    · rw [if_pos (decide_eq_true hneg)]
      omega
    · rw [if_neg (by simpa using hneg)]
      omega
  simp only [parseI64, splitSign_intText, digits?_toDigits, Option.bind_some, hvalue]
  rfl

theorem parseF64_intText (n : Int) : parseF64 (intText n) = some (n : ℚ) := by
  have hwhole : (Nat.toDigits 10 n.natAbs).takeWhile Char.isDigit = Nat.toDigits 10 n.natAbs :=
    List.takeWhile_eq_self_iff.2 fun c hc => isDigit_of_mem_digits hc
  have hrest : (Nat.toDigits 10 n.natAbs).dropWhile Char.isDigit = [] :=
    List.dropWhile_eq_nil_iff.2 fun c hc => isDigit_of_mem_digits hc
  have hne : (Nat.toDigits 10 n.natAbs).isEmpty = false := by simp
  simp only [parseF64, splitSign_intText, hwhole, hrest, List.append_nil, hne,
    Nat.ofDigitChars_ten_toDigits, parseExponent, Option.map_some, List.length_nil,
    Bool.false_eq_true, if_false, Nat.cast_zero, sub_zero, zpow_zero, mul_one]
  by_cases hneg : n < 0
  · rw [if_pos (decide_eq_true hneg)]
    have hcast : ((n.natAbs : Int) : ℚ) = -(n : ℚ) := by
      rw [Int.ofNat_natAbs_of_nonpos (Int.le_of_lt hneg), Int.cast_neg]
    rw [← Int.cast_natCast, hcast, neg_neg]
  · rw [if_neg (by simpa using hneg), ← Int.cast_natCast,
      Int.natAbs_of_nonneg (Int.not_lt.1 hneg)]

theorem takeWhile_of_stops {rest : List Char} (h : Stops rest) :
    rest.takeWhile isNumChar = [] ∧ rest.dropWhile isNumChar = rest := by
  cases rest with
  | nil => exact ⟨rfl, rfl⟩
  | cons c more =>
      have hc := (h c more rfl).1
      exact ⟨List.takeWhile_cons_of_neg (by simp [hc]), List.dropWhile_cons_of_neg (by simp [hc])⟩

theorem number_intText (n : Int) {rest : List Char} (hrest : Stops rest) :
    Reads (number (intText n ++ rest)) (readInt n) rest := by
  obtain ⟨htake, hdrop⟩ := takeWhile_of_stops hrest
  have hnum : ∀ c ∈ intText n, isNumChar c = true := by
    intro c hc
    rcases mem_intText hc with rfl | hdigit
    · rfl
    · exact isNumChar_of_isDigit hdigit
  have hfilter : (intText n).filter (· != '_') = intText n := by
    rw [List.filter_eq_self]
    intro c hc
    rcases mem_intText hc with rfl | hdigit
    · rfl
    · rw [bne_iff_ne]
      rintro rfl
      cases hdigit
  have hdots : ['.', '.', '.'].isSuffixOf (intText n) = false := by
    rw [Bool.eq_false_iff, ne_eq, List.isSuffixOf_iff_suffix]
    intro hsuffix
    rcases mem_intText (hsuffix.subset List.mem_cons_self) with h | h
    · cases h
    · cases h
  have habs : |(n : ℚ)| < f64Limit ↔ n.natAbs < f64Limit := by
    rw [← Int.cast_abs, Int.abs_eq_natAbs, Int.cast_natCast, Nat.cast_lt]
  have hnumber : number (intText n ++ rest) = if IsI64 n then .ok (.int n, rest)
      else if n.natAbs < f64Limit then .ok (.float (.fin n), rest)
      else .error .invalidNumber := by
    unfold number
    rw [List.takeWhile_append_of_pos hnum, List.dropWhile_append_of_pos hnum, htake, hdrop,
      List.append_nil, hfilter]
    dsimp only
    rw [hdots, if_neg Bool.false_ne_true, parseI64_intText, parseF64_intText]
    by_cases hrange : IsI64 n
    · rw [if_pos hrange, if_pos hrange]
    · rw [if_neg hrange, if_neg hrange]
      simp only [habs]
  rw [hnumber]
  unfold readInt
  by_cases hrange : IsI64 n
  · rw [if_pos hrange, if_pos hrange]
    exact .inr rfl
  · rw [if_neg hrange, if_neg hrange]
    by_cases hlimit : n.natAbs < f64Limit
    · rw [if_pos hlimit, if_pos hlimit]
      exact .inr rfl
    · rw [if_neg hlimit, if_neg hlimit]
      exact lost_error _

/-! ### Strings -/

/-- Every backslash begins an escape that the parser knows, but for that of a single
quote: the quote comes with a backslash of its own. -/
def legible : List Char → Bool
  | [] => true
  | c :: s =>
    if c ≠ '\\' then legible s
    else
      match s with
      | [] => false
      | e :: s => e != '\'' && (escapeChar (e :: s)).isOk && legible s

/-- What a legible string is read back as. -/
def decoded (s : List Char) : List Char :=
  match stringBody '\'' (escape s ++ ['\'']) with
  | .ok (t, _) => t
  | .error _ => s

/-- A weight that every cut and every escape takes something from. -/
def textWeight (s : List Char) : Nat := 5 * s.count ' ' + 2 * s.length

theorem textWeight_append (s t : List Char) :
    textWeight (s ++ t) = textWeight s + textWeight t := by
  simp only [textWeight, List.count_append, List.length_append]
  omega

theorem textWeight_cons (c : Char) (s : List Char) :
    textWeight (c :: s) = textWeight [c] + textWeight s := textWeight_append [c] s

theorem escape_append (s t : List Char) : escape (s ++ t) = escape s ++ escape t :=
  List.flatMap_append

theorem escape_quote (s : List Char) : escape ('\'' :: s) = '\\' :: '\'' :: escape s := rfl

theorem escape_cons {c : Char} (hc : c ≠ '\'') (s : List Char) : escape (c :: s) = c :: escape s := by
  simp [escape, hc]

theorem escape_of_plain {s : List Char} (h : ∀ c ∈ s, c ≠ '\'' ∧ c ≠ '\\') : escape s = s := by
  induction s with
  | nil => rfl
  | cons c s ih =>
      rw [escape_cons (h c List.mem_cons_self).1, ih fun d hd => h d (List.mem_cons_of_mem _ hd)]

theorem legible_backslash (e : Char) (s : List Char) :
    legible ('\\' :: e :: s) = (e != '\'' && (escapeChar (e :: s)).isOk && legible s) := by
  conv => lhs; unfold legible
  rfl

theorem legible_plain {c : Char} (hc : c ≠ '\\') (s : List Char) : legible (c :: s) = legible s := by
  conv => lhs; unfold legible
  exact if_pos hc

theorem legible_append {a : List Char} (ha : ∀ c ∈ a, c ≠ '\'' ∧ c ≠ '\\') (s : List Char) :
    legible (a ++ s) = legible s := by
  induction a with
  | nil => rfl
  | cons c a ih =>
      rw [List.cons_append, legible_plain (ha c List.mem_cons_self).2]
      exact ih fun d hd => ha d (List.mem_cons_of_mem _ hd)

theorem legible_of_plain {s : List Char} (h : '\\' ∉ s) : legible s = true := by
  induction s with
  | nil => rfl
  | cons c s ih =>
      rw [legible_plain fun heq => h (heq ▸ List.mem_cons_self)]
      exact ih fun hmem => h (List.mem_cons_of_mem _ hmem)

/-- Characters other than quotes at the head of a printed string are its own. -/
theorem eq_append_of_escape {a s more rest : List Char} (ha : ∀ c ∈ a, c ≠ '\'' ∧ c ≠ '\\')
    (h : escape s ++ '\'' :: rest = a ++ more) : ∃ s', s = a ++ s' := by
  induction a generalizing s with
  | nil => exact ⟨s, rfl⟩
  | cons c a ih =>
      obtain ⟨hquote, hbackslash⟩ := ha c List.mem_cons_self
      cases s with
      | nil => exact absurd (List.cons.inj h).1.symm hquote
      | cons d s =>
          by_cases hd : d = '\''
          · subst hd
            exact absurd (List.cons.inj h).1.symm hbackslash
          · rw [escape_cons hd] at h
            obtain ⟨rfl, hrest⟩ := List.cons.inj h
            obtain ⟨s', rfl⟩ := ih (fun e he => ha e (List.mem_cons_of_mem _ he)) hrest
            exact ⟨s', rfl⟩

theorem stringBody_escapedQuote (rest : List Char) :
    stringBody '\'' ('\\' :: '\'' :: rest) = consChar '\'' (stringBody '\'' rest) :=
  stringBody_backslash (by decide) _

/-- The letter and the digits of an escape weigh more than what they stand for. -/
theorem textWeight_escape {d e : Char} {digits : List Char} (h : d = ' ' → 2 ≤ digits.length) :
    textWeight [d] < textWeight ['\\', e] + textWeight digits := by
  simp only [textWeight, List.count_singleton, List.length_cons, List.length_nil]
  by_cases hd : d = ' '
  · have := h hd
    simp only [hd, BEq.rfl, if_true]
    omega
  · simp only [beq_iff_eq, hd, if_false]
    omega

/-- A legible string comes back, and loses weight on the way if it holds a backslash. -/
theorem stringBody_of_legible (s : List Char) (h : legible s = true) :
    ∃ t, (∀ rest, stringBody '\'' (escape s ++ '\'' :: rest) = .ok (t, rest)) ∧
      (t = s ∧ '\\' ∉ s ∨ '\\' ∈ s ∧ textWeight t < textWeight s) := by
  induction hlen : s.length using Nat.strong_induction_on generalizing s with
  | _ n ih =>
      cases s with
      | nil => exact ⟨[], fun rest => stringBody_quote '\'' rest, .inl ⟨rfl, nofun⟩⟩
      | cons c s =>
          rw [List.length_cons] at hlen
          by_cases hc : c = '\\'
          · subst hc
            cases s with
            | nil => cases h
            | cons e s =>
                rw [legible_backslash, Bool.and_eq_true, Bool.and_eq_true, bne_iff_ne] at h
                obtain ⟨⟨hquote, hok⟩, hs⟩ := h
                cases hescape : escapeChar (e :: s) with
                | error err => rw [hescape] at hok; cases hok
                | ok p =>
                    obtain ⟨d, s'⟩ := p
                    obtain ⟨_, digits, heq, hdigits, hspace, hmore⟩ := escapeChar_ok hescape
                    obtain ⟨rfl, rfl⟩ := List.cons.inj heq
                    rw [legible_append hdigits] at hs
                    rw [List.length_cons, List.length_append] at hlen
                    obtain ⟨t, hread, hweight⟩ := ih _ (by omega) s' hs rfl
                    refine ⟨d :: t, fun rest => ?_, .inr ⟨List.mem_cons_self, ?_⟩⟩
                    · rw [escape_cons (by decide), escape_cons hquote, escape_append,
                        escape_of_plain hdigits, List.cons_append, List.cons_append,
                        List.append_assoc, stringBody_backslash (by decide), hmore]
                      exact congrArg (consChar d) (hread rest)
                    · have htaken := textWeight_escape (e := e) hspace
                      have hle : textWeight t ≤ textWeight s' := by
                        rcases hweight with ⟨rfl, -⟩ | ⟨-, hlt⟩
                        · exact Nat.le_refl _
                        · exact Nat.le_of_lt hlt
                      have hsplit : textWeight ('\\' :: e :: (digits ++ s')) =
                          textWeight ['\\', e] + (textWeight digits + textWeight s') := by
                        rw [← textWeight_append, ← textWeight_append]
                        rfl
                      rw [hsplit, textWeight_cons]
                      omega
          · rw [legible_plain hc] at h
            obtain ⟨t, hread, hweight⟩ := ih _ (by omega) s h rfl
            refine ⟨c :: t, fun rest => ?_, ?_⟩
            · by_cases hquote : c = '\''
              · subst hquote
                rw [escape_quote, List.cons_append, List.cons_append,
                  stringBody_escapedQuote, hread]
                rfl
              · rw [escape_cons hquote, List.cons_append, stringBody_plain hquote hc, hread]
                rfl
            · rcases hweight with ⟨rfl, hnot⟩ | ⟨hmem, hlt⟩
              · refine .inl ⟨rfl, fun hmem => ?_⟩
                rcases List.mem_cons.1 hmem with heq | hmem
                · exact hc heq.symm
                · exact hnot hmem
              · rw [textWeight_cons, textWeight_cons c s]
                exact .inr ⟨List.mem_cons_of_mem c hmem, Nat.add_lt_add_left hlt _⟩

/-- The parser fails at a string that is not legible, or loses count of the quotes. -/
theorem lost_of_not_legible (s : List Char) (h : legible s = false) {rest : List Char}
    (hrest : Outside rest) : Lost (stringBody '\'' (escape s ++ '\'' :: rest)) := by
  induction hlen : s.length using Nat.strong_induction_on generalizing s with
  | _ n ih =>
      cases s with
      | nil => cases h
      | cons c s =>
          rw [List.length_cons] at hlen
          by_cases hc : c = '\\'
          · subst hc
            rw [escape_cons (by decide), List.cons_append, stringBody_backslash (by decide)]
            cases hescape : escapeChar (escape s ++ '\'' :: rest) with
            | error e => exact lost_error e
            | ok p =>
                obtain ⟨d, more⟩ := p
                refine Lost.map ?_ (d :: ·)
                obtain ⟨e, digits, heq, hdigits, -, hmore⟩ := escapeChar_ok hescape
                cases s with
                | nil =>
                    -- the closing quote is taken for an escaped one
                    cases hescape
                    exact lost_stringBody_single rest hrest
                | cons e' s =>
                    by_cases hquote : e' = '\''
                    · -- an escaped quote is taken for the closing one
                      subst hquote
                      cases hescape
                      show Lost (stringBody '\'' ('\'' :: (escape s ++ '\'' :: rest)))
                      rw [stringBody_quote]
                      exact lost_ok _ (Inside.append_escape s (.closing hrest))
                    · rw [escape_cons hquote, List.cons_append] at heq
                      obtain ⟨rfl, hrest'⟩ := List.cons.inj heq
                      obtain ⟨s', rfl⟩ := eq_append_of_escape hdigits hrest'
                      rw [legible_backslash, hmore, legible_append hdigits] at h
                      have hs' : legible s' = false := by
                        have hbne : (e' != '\'') = true := bne_iff_ne.2 hquote
                        rw [hbne] at h
                        exact h
                      rw [escape_append, escape_of_plain hdigits, List.append_assoc] at hrest'
                      rw [← List.append_cancel_left hrest']
                      rw [List.length_cons, List.length_append] at hlen
                      exact ih _ (by omega) s' hs' rfl
          · rw [legible_plain hc] at h
            by_cases hquote : c = '\''
            · subst hquote
              rw [escape_quote, List.cons_append, List.cons_append,
                stringBody_escapedQuote]
              exact (ih _ (by omega) s h rfl).map ('\'' :: ·)
            · rw [escape_cons hquote, List.cons_append, stringBody_plain hquote hc]
              exact (ih _ (by omega) s h rfl).map (c :: ·)

theorem stringBody_decoded {s : List Char} (h : legible s = true) (rest : List Char) :
    stringBody '\'' (escape s ++ '\'' :: rest) = .ok (decoded s, rest) := by
  obtain ⟨t, hread, -⟩ := stringBody_of_legible s h
  rw [hread, decoded, hread []]

theorem decoded_weight {s : List Char} (h : legible s = true) :
    decoded s = s ∧ '\\' ∉ s ∨ '\\' ∈ s ∧ textWeight (decoded s) < textWeight s := by
  obtain ⟨t, hread, hweight⟩ := stringBody_of_legible s h
  rw [decoded, hread []]
  exact hweight

/-! ### What is expected -/

def readStr (s : String) : Option String :=
  if legible s.toList then some (String.ofList (decoded s.toList)) else none

mutual

/-- What a printed value is read back as. -/
def readBack : PyValue → Option Json
  | .none => some .null
  | .bool b => some (.bool b)
  | .int n => readInt n
  | .str s => (readStr s).map .str
  | .list xs => (readBackItems xs).map .arr
  | .tuple xs => (readBackItems xs).map .arr
  | .dict entries => (readBackEntries entries).map .ofEntries

def readBackItems : List PyValue → Option (List Json)
  | [] => some []
  | x :: xs => (readBack x).bind fun v => (readBackItems xs).map (v :: ·)

def readBackEntries : List (String × PyValue) → Option (List (String × Json))
  | [] => some []
  | (k, x) :: entries =>
    (readStr k).bind fun key => (readBack x).bind fun v =>
      (readBackEntries entries).map ((key, v) :: ·)

end

/-! ### Printed values are outside the quotes -/

theorem isQuoting_of_isDigit {c : Char} (h : c.isDigit = true) : isQuoting c = false := by
  rw [Bool.eq_false_iff]
  intro hq
  simp only [isQuoting, Bool.or_eq_true, beq_iff_eq] at hq
  rcases hq with (rfl | rfl) | rfl <;> cases h

theorem outside_intText (n : Int) {rest : List Char} (h : Outside rest) :
    Outside (intText n ++ rest) := by
  refine Outside.append (List.all_eq_true.2 fun c hc => ?_) h
  rcases mem_intText hc with rfl | hdigit
  · rfl
  · rw [isQuoting_of_isDigit hdigit, Bool.not_false]

theorem outside_tupleEnd (n : Nat) {rest : List Char} (h : Outside rest) :
    Outside (tupleEnd n ++ rest) := by
  unfold tupleEnd
  split
  · exact .plain rfl (.plain rfl h)
  · exact .plain rfl h

mutual

theorem outside_text {rest : List Char} (h : Outside rest) : ∀ v : PyValue, Outside (text v ++ rest)
  | .none => Outside.append (by decide) h
  | .bool true => Outside.append (by decide) h
  | .bool false => Outside.append (by decide) h
  | .int n => outside_intText n h
  | .str s => Outside.append_quote s h
  | .list xs => by
      rw [text, List.cons_append, List.append_assoc]
      exact .plain rfl (outside_textItems true (.plain rfl h) xs)
  | .tuple xs => by
      rw [text, List.cons_append, List.append_assoc]
      exact .plain rfl (outside_textItems true (outside_tupleEnd xs.length h) xs)
  | .dict entries => by
      rw [text, List.cons_append, List.append_assoc]
      exact .plain rfl (outside_textEntries true (.plain rfl h) entries)

theorem outside_textItems {rest : List Char} (first : Bool) (h : Outside rest) :
    ∀ xs : List PyValue, Outside (textItems first xs ++ rest)
  | [] => h
  | x :: xs => by
      have hx := outside_text (outside_textItems false h xs) x
      rw [textItems, List.append_assoc, List.append_assoc]
      cases first with
      | true => exact hx
      | false => exact .plain rfl (.plain rfl hx)

theorem outside_textEntries {rest : List Char} (first : Bool) (h : Outside rest) :
    ∀ entries : List (String × PyValue), Outside (textEntries first entries ++ rest)
  | [] => h
  | (k, x) :: entries => by
      have hx := outside_text (outside_textEntries false h entries) x
      have hk : Outside (quote k ++ (':' :: ' ' :: (text x ++ (textEntries false entries ++ rest)))) :=
        Outside.append_quote k (.plain rfl (.plain rfl hx))
      rw [textEntries, List.append_assoc, List.append_assoc, List.cons_append, List.cons_append,
        List.append_assoc]
      cases first with
      | true => exact hk
      | false => exact .plain rfl (.plain rfl hk)

end

/-! ### The first character of a value -/

/-- A character that ends a list, a tuple or a dict, or is skipped. -/
def isEnding (c : Char) : Bool := isWs c || c == ']' || c == ')' || c == '}'

theorem isEnding_of_isDigit {c : Char} (h : c.isDigit = true) : isEnding c = false := by
  rw [Bool.eq_false_iff]
  intro he
  simp only [isEnding, isWs, Bool.or_eq_true, beq_iff_eq] at he
  rcases he with (((((rfl | rfl) | rfl) | rfl) | rfl) | rfl) | rfl <;> cases h

theorem intText_head (n : Int) :
    ∃ c more, intText n = c :: more ∧ (c = '-' ∨ c.isDigit = true) := by
  have hne : intText n ≠ [] := by
    unfold intText
    split
    · exact List.cons_ne_nil _ _
    · simp
  obtain ⟨c, more, h⟩ := List.exists_cons_of_ne_nil hne
  exact ⟨c, more, h, mem_intText (h ▸ List.mem_cons_self)⟩

theorem text_head (v : PyValue) : ∃ c more, text v = c :: more ∧ isEnding c = false := by
  cases v with
  | none => exact ⟨'N', ['o', 'n', 'e'], rfl, rfl⟩
  | bool b =>
      cases b with
      | true => exact ⟨'T', ['r', 'u', 'e'], rfl, rfl⟩
      | false => exact ⟨'F', ['a', 'l', 's', 'e'], rfl, rfl⟩
  | int n =>
      obtain ⟨c, more, heq, hc⟩ := intText_head n
      refine ⟨c, more, heq, ?_⟩
      rcases hc with rfl | hc
      · rfl
      · exact isEnding_of_isDigit hc
  | str s => exact ⟨'\'', _, rfl, rfl⟩
  | list xs => exact ⟨'[', _, rfl, rfl⟩
  | tuple xs => exact ⟨'(', _, rfl, rfl⟩
  | dict entries => exact ⟨'{', _, rfl, rfl⟩

theorem ws_cons {c : Char} (h : isWs c = false) (rest : List Char) : ws (c :: rest) = c :: rest :=
  List.dropWhile_cons_of_neg (by rw [h]; decide)

/-- A value does not begin with what closes the brackets around it. -/
theorem head_ne_of_head {s : List Char} {c close : Char} {more : List Char} (hs : s = c :: more)
    (hc : isEnding c = false) (hclose : isEnding close = true) : (ws s).head? ≠ some close := by
  have hws : isWs c = false := by
    simp only [isEnding, Bool.or_eq_false_iff] at hc
    exact hc.1.1.1
  rw [hs, ws_cons hws]
  rintro ⟨⟩
  rw [hclose] at hc
  cases hc

theorem head_ne_text (v : PyValue) (rest : List Char) {close : Char}
    (hclose : isEnding close = true) : (ws (text v ++ rest)).head? ≠ some close := by
  obtain ⟨c, more, heq, hc⟩ := text_head v
  exact head_ne_of_head (by rw [heq, List.cons_append]) hc hclose

/-! ### Reading a printed value -/

section

variable {serde : SerdeJson}

theorem reads_outOfFuel {α : Type} (expected : Option α) (rest : List Char) :
    Reads (.error .outOfFuel) expected rest := by
  cases expected with
  | none => exact lost_error _
  | some v => exact .inl rfl

theorem Reads.bind {α β : Type} {r : Parsed α} {expected : Option α} {s rest : List Char}
    {k : α × List Char → Parsed β} {f : α → Option β} (h : Reads r expected s)
    (hk : ∀ v, expected = some v → Reads (k (v, s)) (f v) rest)
    (hlost : ∀ v more, Inside more → Lost (k (v, more))) :
    Reads (r.bind k) (expected.bind f) rest := by
  cases expected with
  | none => exact Lost.bind h hlost
  | some v =>
      rcases h with rfl | rfl
      · exact reads_outOfFuel (f v) rest
      · exact hk v rfl

theorem value_str (fuel : Nat) (rest : List Char) :
    value serde (fuel + 1) ('\'' :: rest) =
      (stringBody '\'' rest).map fun p => (.str (String.ofList p.1), p.2) := by
  unfold value
  rfl

theorem value_list (fuel : Nat) (rest : List Char) :
    value serde (fuel + 1) ('[' :: rest) =
      (items serde fuel ']' rest).map fun p => (.arr p.1, p.2) := by
  unfold value
  rfl

theorem value_tuple (fuel : Nat) (rest : List Char) :
    value serde (fuel + 1) ('(' :: rest) =
      (items serde fuel ')' rest).map fun p => (.arr p.1, p.2) := by
  unfold value
  rfl

theorem value_dict (fuel : Nat) (rest : List Char) :
    value serde (fuel + 1) ('{' :: rest) =
      (dict serde fuel rest).map fun p => (.ofEntries p.1, p.2) := by
  unfold value
  rfl

theorem value_number (fuel : Nat) {c : Char} (hc : c = '-' ∨ c.isDigit = true)
    (rest : List Char) : value serde (fuel + 1) (c :: rest) = number (c :: rest) := by
  rcases hc with rfl | hc
  · unfold value
    rfl
  · have hws : isWs c = false := by
      have hending := isEnding_of_isDigit hc
      simp only [isEnding, Bool.or_eq_false_iff] at hending
      exact hending.1.1.1
    unfold value
    rw [ws_cons hws]
    split
    · rename_i heq
      rw [(List.cons.inj heq).1] at hc
      cases hc
    · rename_i heq
      rw [(List.cons.inj heq).1] at hc
      cases hc
    · rename_i heq
      rw [(List.cons.inj heq).1] at hc
      cases hc
    · rename_i heq
      rw [(List.cons.inj heq).1] at hc
      cases hc
    · rename_i heq
      rw [(List.cons.inj heq).1] at hc
      cases hc
    · rename_i heq
      cases heq
    · rename_i heq
      obtain ⟨rfl, rfl⟩ := List.cons.inj heq
      rw [hc, Bool.or_true, Bool.true_or, if_pos rfl]

theorem keyword_append {kw : String} {rest : List Char} (h : Stops rest) :
    keyword kw (kw.toList ++ rest) = some rest := by
  have hhead : rest.head?.any isIdent = false := by
    cases rest with
    | nil => rfl
    | cons c more => exact (h c more rfl).2
  unfold keyword
  dsimp only
  rw [List.drop_left, hhead, List.isPrefixOf_iff_prefix.2 (List.prefix_append _ _)]
  rfl

theorem reads_none (fuel : Nat) {rest : List Char} (h : Stops rest) :
    Reads (value serde fuel ("None".toList ++ rest)) (some .null) rest := by
  cases fuel with
  | zero => exact reads_outOfFuel _ rest
  | succ fuel =>
      have hword : value serde (fuel + 1) ("None".toList ++ rest) =
          keywordValue ("None".toList ++ rest) := by
        unfold value
        rfl
      rw [hword, keywordValue, keyword_append h]
      exact .inr rfl

theorem reads_bool (fuel : Nat) (b : Bool) {rest : List Char} (h : Stops rest) :
    Reads (value serde fuel (text (.bool b) ++ rest)) (some (.bool b)) rest := by
  cases fuel with
  | zero => exact reads_outOfFuel _ rest
  | succ fuel =>
      have hword : value serde (fuel + 1) (text (.bool b) ++ rest) =
          keywordValue (text (.bool b) ++ rest) := by
        unfold value
        cases b <;> rfl
      rw [hword, keywordValue]
      cases b with
      | true =>
          have hnone : keyword "None" (text (.bool true) ++ rest) = none := rfl
          have htrue : keyword "True" (text (.bool true) ++ rest) = some rest := keyword_append h
          rw [hnone, htrue]
          exact .inr rfl
      | false =>
          have hnone : keyword "None" (text (.bool false) ++ rest) = none := rfl
          have htrue : keyword "True" (text (.bool false) ++ rest) = none := rfl
          have hfalse : keyword "False" (text (.bool false) ++ rest) = some rest := keyword_append h
          rw [hnone, htrue, hfalse]
          exact .inr rfl

theorem reads_int (fuel : Nat) (n : Int) {rest : List Char} (h : Stops rest) :
    Reads (value serde fuel (intText n ++ rest)) (readInt n) rest := by
  cases fuel with
  | zero => exact reads_outOfFuel _ rest
  | succ fuel =>
      obtain ⟨c, more, heq, hc⟩ := intText_head n
      have hnumber := number_intText n h
      rw [heq, List.cons_append] at hnumber ⊢
      rw [value_number fuel hc]
      exact hnumber

theorem reads_quote (fuel : Nat) (s : String) {rest : List Char} (h : Outside rest) :
    Reads (value serde fuel (quote s ++ rest)) ((readStr s).map .str) rest := by
  cases fuel with
  | zero => exact reads_outOfFuel _ rest
  | succ fuel =>
      rw [quote, List.cons_append, List.append_assoc, List.singleton_append, value_str]
      cases hlegible : legible s.toList with
      | true =>
          rw [stringBody_decoded hlegible, readStr, if_pos hlegible]
          exact .inr rfl
      | false =>
          rw [readStr, if_neg (by rw [hlegible]; decide)]
          exact Lost.map (lost_of_not_legible _ hlegible h) fun t => Json.str (String.ofList t)

theorem items_space (fuel : Nat) (close : Char) (s : List Char) :
    items serde fuel close (' ' :: s) = items serde fuel close s := by
  cases fuel with
  | zero => rfl
  | succ fuel =>
      unfold items
      rfl

theorem dict_space (fuel : Nat) (s : List Char) :
    dict serde fuel (' ' :: s) = dict serde fuel s := by
  cases fuel with
  | zero => rfl
  | succ fuel =>
      unfold dict
      rfl

theorem value_space (fuel : Nat) (s : List Char) :
    value serde fuel (' ' :: s) = value serde fuel s := by
  rw [← value_ws serde fuel (' ' :: s), ← value_ws serde fuel s]
  rfl

theorem reads_items_of_value {fuel : Nat} {close : Char} (hclose : close = ']' ∨ close = ')')
    {s s' rest : List Char} {ex : Option Json} {exs : Option (List Json)}
    (hhead : (ws s).head? ≠ some close) (hv : Reads (value serde fuel s) ex s')
    (htail : Reads (itemsTail serde fuel close s') exs rest) :
    Reads (items serde (fuel + 1) close s) (ex.bind fun v => exs.map (v :: ·)) rest := by
  have hquote : close ≠ '\'' ∧ close ≠ '\\' := by
    rcases hclose with rfl | rfl <;> decide
  rw [items_of_value serde fuel hhead]
  exact hv.bind (fun v _ => htail.map (v :: ·)) fun v more hmore =>
    ((staysLost serde fuel).itemsTail hquote.1 hquote.2 hmore).map (v :: ·)

theorem reads_entryTail {fuel : Nat} {key : String} {s s' rest : List Char} {ex : Option Json}
    {exs : Option (List (String × Json))} (hv : Reads (value serde fuel s) ex s')
    (htail : Reads (dictTail serde fuel s') exs rest) :
    Reads (entryTail serde fuel key (':' :: ' ' :: s))
      (ex.bind fun v => exs.map ((key, v) :: ·)) rest := by
  have hentry : entryTail serde fuel key (':' :: ' ' :: s) =
      (value serde fuel (' ' :: s)).bind fun p =>
        (dictTail serde fuel p.2).map fun q => ((key, p.1) :: q.1, q.2) := rfl
  rw [hentry, value_space]
  exact hv.bind (fun v _ => htail.map ((key, v) :: ·)) fun v more hmore =>
    ((staysLost serde fuel).dictTail hmore).map ((key, v) :: ·)

theorem reads_dict_of_key {fuel : Nat} {k : String} {s rest : List Char}
    {f : String → Option (List (String × Json))} (hs : Outside s)
    (hentry : ∀ key, readStr k = some key → Reads (entryTail serde fuel key s) (f key) rest) :
    Reads (dict serde (fuel + 1) (quote k ++ s)) ((readStr k).bind f) rest := by
  have hhead : (ws (quote k ++ s)).head? ≠ some '}' := head_ne_text (.str k) s rfl
  rw [dict_of_key serde fuel hhead]
  cases hk : readStr k with
  | none =>
      have hv : Reads (value serde fuel (quote k ++ s)) ((readStr k).map .str) s :=
        reads_quote fuel k hs
      rw [hk] at hv
      refine Lost.bind hv fun v more hmore => ?_
      split
      · exact lost_error _
      · exact (staysLost serde fuel).entryTail _ hmore
  | some key =>
      have hv : Reads (value serde fuel (quote k ++ s)) ((readStr k).map .str) s :=
        reads_quote fuel k hs
      rw [hk] at hv
      rcases hv with hv | hv
      · rw [hv]
        exact reads_outOfFuel _ rest
      · rw [hv]
        exact hentry key hk

/-- After an element come the others, and after the last one `s`. -/
theorem reads_itemsTail_of_items {close : Char} (xs : List PyValue) {s rest : List Char}
    {e expected : Option (List Json)} (hend : ∀ fuel, Reads (itemsTail serde fuel close s) e rest)
    (hitems : xs ≠ [] → ∀ fuel,
      Reads (items serde fuel close (textItems true xs ++ s)) expected rest)
    (hnil : xs = [] → expected = e) (fuel : Nat) :
    Reads (itemsTail serde fuel close (textItems false xs ++ s)) expected rest := by
  cases xs with
  | nil =>
      rw [hnil rfl]
      exact hend fuel
  | cons x xs =>
      have htail : itemsTail serde fuel close (textItems false (x :: xs) ++ s) =
          items serde fuel close (' ' :: (textItems true (x :: xs) ++ s)) := rfl
      rw [htail, items_space]
      exact hitems (List.cons_ne_nil x xs) fuel

theorem reads_dictTail_of_dict (entries : List (String × PyValue)) {s rest : List Char}
    {e expected : Option (List (String × Json))}
    (hend : ∀ fuel, Reads (dictTail serde fuel s) e rest)
    (hdict : entries ≠ [] → ∀ fuel,
      Reads (dict serde fuel (textEntries true entries ++ s)) expected rest)
    (hnil : entries = [] → expected = e) (fuel : Nat) :
    Reads (dictTail serde fuel (textEntries false entries ++ s)) expected rest := by
  cases entries with
  | nil =>
      rw [hnil rfl]
      exact hend fuel
  | cons entry entries =>
      obtain ⟨k, x⟩ := entry
      have htail : dictTail serde fuel (textEntries false ((k, x) :: entries) ++ s) =
          dict serde fuel (' ' :: (textEntries true ((k, x) :: entries) ++ s)) := rfl
      rw [htail, dict_space]
      exact hdict (List.cons_ne_nil _ entries) fuel

/-- What follows a value within brackets: it ends the value, and is outside the quotes. -/
structure Follows (s : List Char) : Prop where
  stops : Stops s
  outside : Outside s

theorem follows_cons {c : Char} (hnum : isNumChar c = false) (hident : isIdent c = false)
    (hplain : isQuoting c = false) {s : List Char} (h : Outside s) : Follows (c :: s) :=
  ⟨stops_cons hnum hident s, .plain hplain h⟩

theorem follows_textItems (xs : List PyValue) {s : List Char} (h : Follows s) :
    Follows (textItems false xs ++ s) := by
  refine ⟨?_, outside_textItems false h.outside xs⟩
  cases xs with
  | nil => exact h.stops
  | cons x xs => exact stops_cons rfl rfl _

theorem follows_textEntries (entries : List (String × PyValue)) {s : List Char} (h : Follows s) :
    Follows (textEntries false entries ++ s) := by
  refine ⟨?_, outside_textEntries false h.outside entries⟩
  cases entries with
  | nil => exact h.stops
  | cons entry entries => exact stops_cons rfl rfl _

theorem reads_itemsTail_close (fuel : Nat) {close : Char} (hclose : close = ']' ∨ close = ')')
    (rest : List Char) : Reads (itemsTail serde fuel close (close :: rest)) (some []) rest := by
  rcases hclose with rfl | rfl <;> exact .inr rfl

theorem reads_items_close (fuel : Nat) {close : Char} (hclose : close = ']' ∨ close = ')')
    (rest : List Char) : Reads (items serde fuel close (close :: rest)) (some []) rest := by
  cases fuel with
  | zero => exact reads_outOfFuel _ rest
  | succ fuel =>
      have hhead : (ws (close :: rest)).head? = some close := by
        rcases hclose with rfl | rfl <;> rfl
      rw [items_of_close serde fuel hhead]
      rcases hclose with rfl | rfl <;> exact .inr rfl

theorem reads_dictTail_close (fuel : Nat) (rest : List Char) :
    Reads (dictTail serde fuel ('}' :: rest)) (some []) rest := .inr rfl

theorem reads_dict_close (fuel : Nat) (rest : List Char) :
    Reads (dict serde fuel ('}' :: rest)) (some []) rest := by
  cases fuel with
  | zero => exact reads_outOfFuel _ rest
  | succ fuel =>
      rw [dict_of_close serde fuel rfl]
      exact .inr rfl

/-- The end of a tuple: a tuple of one element has a comma after it. -/
theorem reads_itemsTail_tupleEnd (fuel n : Nat) (rest : List Char) :
    Reads (itemsTail serde fuel ')' (tupleEnd n ++ rest)) (some []) rest := by
  unfold tupleEnd
  split
  · exact reads_items_close fuel (.inr rfl) rest
  · exact reads_itemsTail_close fuel (.inr rfl) rest

theorem follows_tupleEnd (n : Nat) {rest : List Char} (h : Outside rest) :
    Follows (tupleEnd n ++ rest) := by
  refine ⟨?_, outside_tupleEnd n h⟩
  unfold tupleEnd
  split <;> exact stops_cons rfl rfl _

theorem bind_append_nil {α : Type} (e : Option (List α)) :
    (some []).bind (fun vs => e.map (vs ++ ·)) = e := by
  cases e <;> rfl

theorem bind_append_cons {α : Type} (v : Option α) (vs e : Option (List α)) :
    ((v.bind fun v => vs.map (v :: ·)).bind fun vs => e.map (vs ++ ·)) =
      v.bind fun v => (vs.bind fun vs => e.map (vs ++ ·)).map (v :: ·) := by
  cases v <;> cases vs <;> cases e <;> rfl

theorem bind_some_nil {α : Type} (vs : Option (List α)) :
    (vs.bind fun vs => (some []).map (vs ++ ·)) = vs := by
  cases vs with
  | none => rfl
  | some vs => exact congrArg some (List.append_nil vs)

mutual

/-- **A printed value is read back** as expected. -/
theorem reads_value : ∀ (v : PyValue) (fuel : Nat) {rest : List Char}, Follows rest →
    Reads (value serde fuel (text v ++ rest)) (readBack v) rest
  | .none, fuel, _, h => reads_none fuel h.stops
  | .bool b, fuel, _, h => reads_bool fuel b h.stops
  | .int n, fuel, _, h => reads_int fuel n h.stops
  | .str s, fuel, _, h => reads_quote fuel s h.outside
  | .list xs, 0, _, _ => reads_outOfFuel _ _
  | .list xs, fuel + 1, rest, h => by
      have hitems := reads_items (.inl rfl : ']' = ']' ∨ ']' = ')') xs
        (follows_cons rfl rfl rfl h.outside)
        (fun fuel => reads_itemsTail_close fuel (.inl rfl) rest)
        (fun _ fuel => reads_items_close fuel (.inl rfl) rest) fuel
      rw [bind_some_nil] at hitems
      rw [text, List.cons_append, List.append_assoc, List.singleton_append, value_list, readBack]
      exact hitems.map Json.arr
  | .tuple xs, 0, _, _ => reads_outOfFuel _ _
  | .tuple xs, fuel + 1, rest, h => by
      have hitems := reads_items (.inr rfl : ')' = ']' ∨ ')' = ')') xs
        (follows_tupleEnd xs.length h.outside)
        (fun fuel => reads_itemsTail_tupleEnd fuel xs.length rest)
        (fun hnil fuel => by
          rw [hnil]
          exact reads_items_close fuel (.inr rfl) rest) fuel
      rw [bind_some_nil] at hitems
      rw [text, List.cons_append, List.append_assoc, value_tuple, readBack]
      exact hitems.map Json.arr
  | .dict entries, 0, _, _ => reads_outOfFuel _ _
  | .dict entries, fuel + 1, rest, h => by
      have hdict := reads_dict entries (follows_cons rfl rfl rfl h.outside)
        (fun fuel => reads_dictTail_close fuel rest) (fun _ fuel => reads_dict_close fuel rest) fuel
      rw [bind_some_nil] at hdict
      rw [text, List.cons_append, List.append_assoc, List.singleton_append, value_dict, readBack]
      exact hdict.map Json.ofEntries

/-- Elements are read back, and what comes after them. -/
theorem reads_items {close : Char} (hclose : close = ']' ∨ close = ')') :
    ∀ (xs : List PyValue) {s rest : List Char} {e : Option (List Json)}, Follows s →
      (∀ fuel, Reads (itemsTail serde fuel close s) e rest) →
      (xs = [] → ∀ fuel, Reads (items serde fuel close s) e rest) → ∀ fuel,
        Reads (items serde fuel close (textItems true xs ++ s))
          ((readBackItems xs).bind fun vs => e.map (vs ++ ·)) rest
  | [], _, _, e, _, _, hnil, fuel => by
      rw [readBackItems, bind_append_nil]
      exact hnil rfl fuel
  | x :: xs, _, _, _, _, _, _, 0 => reads_outOfFuel _ _
  | x :: xs, s, rest, e, hs, hend, _, fuel + 1 => by
      have hx := reads_value x fuel (follows_textItems xs hs)
      have htail := reads_itemsTail_of_items xs hend
        (fun hne => reads_items hclose xs hs hend fun hnil => absurd hnil hne)
        (fun hnil => by rw [hnil, readBackItems, bind_append_nil]) fuel
      have hhead : (ws (text x ++ (textItems false xs ++ s))).head? ≠ some close :=
        head_ne_text x _ (by rcases hclose with rfl | rfl <;> rfl)
      rw [readBackItems, bind_append_cons, textItems, if_pos rfl, List.nil_append,
        List.append_assoc]
      exact reads_items_of_value hclose hhead hx htail

theorem reads_dict : ∀ (entries : List (String × PyValue)) {s rest : List Char}
    {e : Option (List (String × Json))}, Follows s →
      (∀ fuel, Reads (dictTail serde fuel s) e rest) →
      (entries = [] → ∀ fuel, Reads (dict serde fuel s) e rest) → ∀ fuel,
        Reads (dict serde fuel (textEntries true entries ++ s))
          ((readBackEntries entries).bind fun vs => e.map (vs ++ ·)) rest
  | [], _, _, e, _, _, hnil, fuel => by
      rw [readBackEntries, bind_append_nil]
      exact hnil rfl fuel
  | (k, x) :: entries, _, _, _, _, _, _, 0 => reads_outOfFuel _ _
  | (k, x) :: entries, s, rest, e, hs, hend, _, fuel + 1 => by
      have hfollows := follows_textEntries entries hs
      have hx := reads_value x fuel hfollows
      have htail := reads_dictTail_of_dict entries hend
        (fun hne => reads_dict entries hs hend fun hnil => absurd hnil hne)
        (fun hnil => by rw [hnil, readBackEntries, bind_append_nil]) fuel
      have hcolon : Outside (':' :: ' ' :: (text x ++ (textEntries false entries ++ s))) :=
        .plain rfl (.plain rfl (outside_text hfollows.outside x))
      have hexpected : ((readBackEntries ((k, x) :: entries)).bind fun vs => e.map (vs ++ ·)) =
          (readStr k).bind fun key => (readBack x).bind fun v =>
            ((readBackEntries entries).bind fun vs => e.map (vs ++ ·)).map ((key, v) :: ·) := by
        rw [readBackEntries]
        cases readStr k with
        | none => rfl
        | some key =>
            cases readBack x <;> cases readBackEntries entries <;> cases e <;> rfl
      rw [hexpected, textEntries, if_pos rfl, List.nil_append,
        List.append_assoc, List.cons_append, List.cons_append, List.append_assoc]
      exact reads_dict_of_key hcolon fun key _ => reads_entryTail hx htail

end

end

end Feloxi.Tasks
