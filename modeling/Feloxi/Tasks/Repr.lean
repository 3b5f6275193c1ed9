import Feloxi.Tasks.ReprBytes

/-!
# Feloxi.Tasks.Repr

Python's `repr` of the values that JSON can hold, and that the parser reads it back
(`parse_repr`). Unlike the texts of `saferepr`, nothing is cut and every character of a string
comes back.

What Python prints as it is beyond ASCII depends on its Unicode tables, which are a parameter.
-/

namespace Feloxi.Tasks

open Pipeline (SerdeJson)
open PyValue (intText tupleEnd toJsonItems toJsonEntries)

namespace PyValue

/-! ### Python's `repr` -/

/-- The last `k` hexadecimal digits of a number. -/
def hexDigits : Nat → Nat → List Char
  | 0, _ => []
  | k + 1, n => hexDigits k (n / 16) ++ [Nat.digitChar (n % 16)]

section

variable (isPrintable : Char → Bool)

/-- A character between quotes. -/
def reprChar (quote c : Char) : List Char :=
  if c = quote ∨ c = '\\' then ['\\', c]
  else if c = '\t' then ['\\', 't']
  else if c = '\n' then ['\\', 'n']
  else if c = '\r' then ['\\', 'r']
  else if c.toNat < 32 ∨ c.toNat = 127 then '\\' :: 'x' :: hexDigits 2 c.toNat
  else if c.toNat < 127 ∨ isPrintable c = true then [c]
  else if c.toNat < 256 then '\\' :: 'x' :: hexDigits 2 c.toNat
  else if c.toNat < 65536 then '\\' :: 'u' :: hexDigits 4 c.toNat
  else '\\' :: 'U' :: hexDigits 8 c.toNat

/-- Double quotes are for a string that has a single one and no double one. -/
def needsDouble (s : List Char) : Bool := s.contains '\'' && !s.contains '"'

def reprBody (s : List Char) : List Char :=
  s.flatMap (reprChar isPrintable (quoteOf (needsDouble s)))

def reprStr (s : String) : List Char :=
  quoteOf (needsDouble s.toList) ::
    (reprBody isPrintable s.toList ++ [quoteOf (needsDouble s.toList)])

mutual

/-- `repr`. -/
def repr : PyValue → List Char
  | .none => "None".toList
  | .bool b => if b then "True".toList else "False".toList
  | .int n => intText n
  | .str s => reprStr isPrintable s
  | .list xs => '[' :: (reprItems xs ++ [']'])
  | .tuple xs => '(' :: (reprItems xs ++ tupleEnd xs.length)
  | .dict entries => '{' :: (reprEntries entries ++ ['}'])

/-- The elements, with commas between them. -/
def reprItems : List PyValue → List Char
  | [] => []
  | [x] => repr x
  | x :: y :: xs => repr x ++ ',' :: ' ' :: reprItems (y :: xs)

def reprEntries : List (String × PyValue) → List Char
  | [] => []
  | [(k, x)] => reprStr isPrintable k ++ ':' :: ' ' :: repr x
  | (k, x) :: e :: entries =>
    reprStr isPrintable k ++ ':' :: ' ' :: (repr x ++ ',' :: ' ' :: reprEntries (e :: entries))

end

end

mutual

/-- All integers are in the range of `i64`. -/
def InI64 : PyValue → Prop
  | .int n => IsI64 n
  | .list xs => InI64Items xs
  | .tuple xs => InI64Items xs
  | .dict entries => InI64Entries entries
  | _ => True

def InI64Items : List PyValue → Prop
  | [] => True
  | x :: xs => InI64 x ∧ InI64Items xs

def InI64Entries : List (String × PyValue) → Prop
  | [] => True
  | (_, x) :: entries => InI64 x ∧ InI64Entries entries

end

end PyValue

open PyValue (hexDigits reprChar needsDouble reprBody reprStr reprItems reprEntries InI64
  InI64Items InI64Entries)

/-! ### Digits -/

theorem hexVal_digitChar : ∀ n < 16, hexVal (Nat.digitChar n) = some n := by decide

theorem length_hexDigits (k n : Nat) : (hexDigits k n).length = k := by
  induction k generalizing n with
  | zero => rfl
  | succ k ih => simp [hexDigits, ih]

theorem hexVal_of_mem_hexDigits {k n : Nat} {c : Char} (h : c ∈ hexDigits k n) :
    (hexVal c).isSome := by
  induction k generalizing n with
  | zero => cases h
  | succ k ih =>
      rcases List.mem_append.1 h with h | h
      · exact ih h
      · rw [List.mem_singleton.1 h, hexVal_digitChar _ (Nat.mod_lt n (by decide))]
        rfl

/-- Digits are read for the number they are of. -/
theorem foldl_hexDigits (k n : Nat) (h : n < 16 ^ k) :
    (hexDigits k n).foldl (fun acc c => acc.bind fun n => (hexVal c).map fun d => 16 * n + d)
      (some 0) = some n := by
  induction k generalizing n with
  | zero =>
      have hn : n = 0 := by simpa using h
      rw [hn]
      rfl
  | succ k ih =>
      have hdiv : n / 16 < 16 ^ k := by
        rw [Nat.pow_succ] at h
        omega
      have hn : 16 * (n / 16) + n % 16 = n := Nat.div_add_mod n 16
      simp [hexDigits, ih _ hdiv, hexVal_digitChar _ (Nat.mod_lt n (by decide)), hn]

theorem hexNat_hexDigits {k n : Nat} (hk : 0 < k) (h : n < 16 ^ k) :
    hexNat (hexDigits k n) = some n := by
  have hlength := length_hexDigits k n
  have hfold := foldl_hexDigits k n h
  have hdigit : ∀ c ∈ hexDigits k n, (hexVal c).isSome := fun c hc => hexVal_of_mem_hexDigits hc
  cases hdigits : hexDigits k n with
  | nil =>
      rw [hdigits, List.length_nil] at hlength
      omega
  | cons c more =>
      rw [hdigits] at hfold hdigit
      -- only digits are printed, and no sign
      have hplus : c ≠ '+' := by
        intro heq
        have := hdigit c List.mem_cons_self
        rw [heq] at this
        cases this
      unfold hexNat
      split
      · rename_i heq
        exact absurd (List.cons.inj heq).1 hplus
      · simpa using hfold

theorem hexChar_hexDigits {k : Nat} (hk : 0 < k) {c : Char} (h : c.toNat < 16 ^ k) :
    hexChar (hexDigits k c.toNat) = .ok c := by
  have hvalid : c.toNat.isValidChar := c.valid
  rw [hexChar, hexNat_hexDigits hk h]
  simp [hvalid]

/-! ### Strings -/

theorem stands_hexDigits (quote : Char) {c e : Char} {n : Nat} (h : hexLength e = some n)
    (hpos : 0 < n) (hc : c.toNat < 16 ^ n) :
    Stands quote c ('\\' :: e :: hexDigits n c.toNat) :=
  .hex h (length_hexDigits n _) (hexChar_hexDigits hpos hc)

section

variable (isPrintable : Char → Bool)

theorem stands_reprChar {quote : Char} (hquote : quote = '\'' ∨ quote = '"') (c : Char) :
    Stands quote c (reprChar isPrintable quote c) := by
  unfold reprChar
  split_ifs with hescaped htab hnewline hreturn hcontrol hplain hbyte hunit
  · refine .simple ?_
    rcases hescaped with hc | hc
    · rw [hc]
      rcases hquote with hq | hq <;> rw [hq] <;> rfl
    · rw [hc]
      rfl
  · rw [htab]
    exact .simple rfl
  · rw [hnewline]
    exact .simple rfl
  · rw [hreturn]
    exact .simple rfl
  · exact stands_hexDigits quote rfl (by decide) (by omega)
  · exact .plain (fun h => hescaped (.inl h)) (fun h => hescaped (.inr h))
  · exact stands_hexDigits quote rfl (by decide) (by omega)
  · exact stands_hexDigits quote rfl (by decide) (by omega)
  · -- no code point has more than six digits
    have hvalid : c.toNat.isValidChar := c.valid
    refine stands_hexDigits quote rfl (by decide) ?_
    unfold Nat.isValidChar at hvalid
    omega

theorem spells_flatMap {quote : Char} (hquote : quote = '\'' ∨ quote = '"') (s : List Char) :
    Spells quote s (s.flatMap (reprChar isPrintable quote)) := by
  induction s with
  | nil => exact .nil
  | cons c s ih =>
      rw [List.flatMap_cons]
      exact .cons (stands_reprChar isPrintable hquote c) ih

/-- The string as it is quoted. -/
def reprToken (s : String) : StrToken where
  double := needsDouble s.toList
  body := reprBody isPrintable s.toList
  isClosed := (spells_flatMap isPrintable (quoteOf_cases _) s.toList).closed (quoteOf_cases _)

theorem reprToken_text (s : String) : (reprToken isPrintable s).text = reprStr isPrintable s := rfl

theorem reprToken_value (s : String) : (reprToken isPrintable s).value = some s := by
  have hquote := quoteOf_cases (needsDouble s.toList)
  have hbody := (spells_flatMap isPrintable hquote s.toList).readBody hquote
  show (readBody (quoteOf (needsDouble s.toList)) (reprBody isPrintable s.toList)).map _ = _
  rw [reprBody, hbody]
  simp

end

/-! ### Integers -/

theorem intText_run (n : Int) : ∃ run : NumRun, run.chars = intText n := by
  obtain ⟨c, more, htext, hhead⟩ := intText_head n
  have hc : beginsNumber c = true := by
    rcases hhead with hminus | hdigit
    · rw [hminus]
      rfl
    · simp [beginsNumber, hdigit]
  have hmore : ∀ d ∈ more, isNumChar d = true := by
    intro d hd
    have hmem : d ∈ intText n := by
      rw [htext]
      exact List.mem_cons_of_mem c hd
    rcases mem_intText hmem with hminus | hdigit
    · rw [hminus]
      rfl
    · exact isNumChar_of_isDigit hdigit
  exact ⟨⟨c, more, hc, hmore⟩, htext.symm⟩

/-- An integer in the range comes back. -/
theorem intText_value {run : NumRun} {n : Int} (h : run.chars = intText n) (hn : IsI64 n) :
    run.value = some (.int n) := by
  have hstops : Stops [] := by
    intro c more heq
    cases heq
  have hread := number_intText n hstops
  rw [readInt, if_pos hn, List.append_nil] at hread
  rw [NumRun.value, h]
  rcases hread with hfuel | hok
  · -- a number needs no fuel
    have hprogress : Progress run.chars (number run.chars) :=
      progress_number (isNumChar_of_begins run.begins)
    rw [h, hfuel] at hprogress
    exact absurd rfl hprogress
  · rw [hok]
    rfl

/-! ### Values -/

section

variable (serde : SerdeJson) (isPrintable : Char → Bool)

/-- A text is that of a tree with a value. -/
def Shows (t : List Char) (v : Json) : Prop :=
  ∃ x : Literal, x.text = t ∧ x.value serde = some v

def ShowsItems (t : List Char) (vs : List Json) : Prop :=
  ∃ items : LiteralItems, items.text = t ∧ items.value serde = some vs

def ShowsEntries (t : List Char) (es : List (String × Json)) : Prop :=
  ∃ entries : LiteralEntries, entries.text = t ∧ entries.value serde = some es

def Blank.none : Blank := ⟨[], fun _ h => absurd h List.not_mem_nil⟩

def Blank.space : Blank := ⟨[' '], fun _ h => by rw [List.mem_singleton.1 h]; rfl⟩

theorem shows_str (s : String) : Shows serde (reprStr isPrintable s) (.str s) :=
  ⟨.str (reprToken isPrintable s), reprToken_text isPrintable s, by
    rw [Literal.value, reprToken_value]
    rfl⟩

variable {serde}

theorem shows_int {n : Int} (h : IsI64 n) : Shows serde (intText n) (.int n) := by
  obtain ⟨run, hrun⟩ := intText_run n
  exact ⟨.num run, hrun, intText_value hrun h⟩

/-- An element, the last one. -/
theorem ShowsItems.last {t : List Char} {v : Json} (h : Shows serde t v) (b : Blank) :
    ShowsItems serde (b.chars ++ t) [v] := by
  obtain ⟨x, ht, hv⟩ := h
  exact ⟨.last b x .none, by simp [LiteralItems.text, ht, Blank.none], by
    simp [LiteralItems.value, hv]⟩

/-- An element in front of others. -/
theorem ShowsItems.more {t ts : List Char} {v : Json} {vs : List Json} (h : Shows serde t v)
    (hs : ShowsItems serde ts vs) (b : Blank) :
    ShowsItems serde (b.chars ++ (t ++ ',' :: ts)) (v :: vs) := by
  obtain ⟨x, ht, hv⟩ := h
  obtain ⟨items, hts, hvs⟩ := hs
  exact ⟨.more b x .none items, by simp [LiteralItems.text, ht, hts, Blank.none], by
    simp [LiteralItems.value, hv, hvs]⟩

theorem ShowsEntries.last {k : String} {t : List Char} {v : Json} (h : Shows serde t v)
    (b : Blank) :
    ShowsEntries serde (b.chars ++ (reprStr isPrintable k ++ ':' :: ' ' :: t)) [(k, v)] := by
  obtain ⟨key, hk, hkey⟩ := shows_str serde isPrintable k
  obtain ⟨x, ht, hv⟩ := h
  exact ⟨.last b key .none .space x .none, by
    simp [LiteralEntries.text, hk, ht, Blank.none, Blank.space], by
    simp [LiteralEntries.value, hkey, hv, keyText]⟩

theorem ShowsEntries.more {k : String} {t ts : List Char} {v : Json}
    {es : List (String × Json)} (h : Shows serde t v) (hs : ShowsEntries serde ts es)
    (b : Blank) :
    ShowsEntries serde (b.chars ++ (reprStr isPrintable k ++ ':' :: ' ' :: (t ++ ',' :: ts)))
      ((k, v) :: es) := by
  obtain ⟨key, hk, hkey⟩ := shows_str serde isPrintable k
  obtain ⟨x, ht, hv⟩ := h
  obtain ⟨entries, hts, hes⟩ := hs
  exact ⟨.more b key .none .space x .none entries, by
    simp [LiteralEntries.text, hk, ht, hts, Blank.none, Blank.space], by
    simp [LiteralEntries.value, hkey, hv, hes, keyText]⟩

theorem ShowsItems.list {t : List Char} {vs : List Json} (h : ShowsItems serde t vs) :
    Shows serde ('[' :: (t ++ [']'])) (.arr vs) := by
  obtain ⟨items, ht, hv⟩ := h
  exact ⟨.seq false items, by simp [Literal.text, ht, openOf, closeOf], by
    simp [Literal.value, hv]⟩

theorem ShowsItems.tuple {t : List Char} {vs : List Json} (h : ShowsItems serde t vs) :
    Shows serde ('(' :: (t ++ [')'])) (.arr vs) := by
  obtain ⟨items, ht, hv⟩ := h
  exact ⟨.seq true items, by simp [Literal.text, ht, openOf, closeOf], by
    simp [Literal.value, hv]⟩

theorem ShowsEntries.dict {t : List Char} {es : List (String × Json)}
    (h : ShowsEntries serde t es) : Shows serde ('{' :: (t ++ ['}'])) (.ofEntries es) := by
  obtain ⟨entries, ht, hv⟩ := h
  exact ⟨.dict entries, by simp [Literal.text, ht], by simp [Literal.value, hv]⟩

mutual

/-- **A value's `repr` is the text of a tree of this value.** -/
theorem shows_repr : ∀ v : PyValue, InI64 v → Shows serde (v.repr isPrintable) v.toJson
  | .none, _ => ⟨.word .none, rfl, rfl⟩
  | .bool true, _ => ⟨.word .true, rfl, rfl⟩
  | .bool false, _ => ⟨.word .false, rfl, rfl⟩
  | .int _, h => shows_int h
  | .str s, _ => shows_str serde isPrintable s
  | .list xs, h => (showsItems_repr xs .none h).list
  | .tuple [], _ => (showsItems_repr [] .none trivial).tuple
  | .tuple [x], h => by
      -- the comma of a tuple of one element
      have hx := shows_repr x h.1
      have hnone : ShowsItems serde [] [] := ⟨.done .none, rfl, rfl⟩
      have htuple := (ShowsItems.more hx hnone .none).tuple
      simpa [PyValue.repr, PyValue.toJson, toJsonItems, reprItems, tupleEnd, Blank.none]
        using htuple
  | .tuple (x :: y :: xs), h => by
      have htuple := (showsItems_repr (x :: y :: xs) .none h).tuple
      simpa [PyValue.repr, PyValue.toJson, toJsonItems, tupleEnd, Blank.none] using htuple
  | .dict entries, h => (showsEntries_repr entries .none h).dict

theorem showsItems_repr : ∀ (xs : List PyValue) (b : Blank), InI64Items xs →
    ShowsItems serde (b.chars ++ reprItems isPrintable xs) (toJsonItems xs)
  | [], b, _ => ⟨.done b, (List.append_nil b.chars).symm, rfl⟩
  | [x], b, h => ShowsItems.last (shows_repr x h.1) b
  | x :: y :: xs, b, h =>
      ShowsItems.more (shows_repr x h.1) (showsItems_repr (y :: xs) .space h.2) b

theorem showsEntries_repr : ∀ (entries : List (String × PyValue)) (b : Blank),
    InI64Entries entries →
      ShowsEntries serde (b.chars ++ reprEntries isPrintable entries) (toJsonEntries entries)
  | [], b, _ => ⟨.done b, (List.append_nil b.chars).symm, rfl⟩
  | [(_, x)], b, h => ShowsEntries.last isPrintable (shows_repr x h.1) b
  | (_, x) :: e :: entries, b, h =>
      ShowsEntries.more isPrintable (shows_repr x h.1) (showsEntries_repr (e :: entries) .space h.2)
        b

end

/-- **Python's `repr` is read back**: every value of `None`, booleans, integers in the range of
`i64`, strings, and lists, tuples and dicts of such values, as its JSON form. -/
theorem parse_repr (v : PyValue) (h : InI64 v) :
    ReprBytes.parse serde (String.ofList (v.repr isPrintable)) = .ok v.toJson := by
  have hshows : Shows serde (v.repr isPrintable) v.toJson := shows_repr isPrintable v h
  obtain ⟨x, ht, hv⟩ := hshows
  rw [ReprBytes.parse_eq_ok_iff, String.toList_ofList]
  refine parse_eq_ok_iff serde |>.2 ⟨.none, x, .none, ?_, hv⟩
  simp [ht, Blank.none]

end

/-- A tuple of one list of a string with a quote, a negative integer and nothing. -/
theorem parse_repr_tuple :
    ReprBytes.parse ⟨fun _ => "", fun _ => none⟩
      (String.ofList (PyValue.repr (fun _ => false)
        (.tuple [.list [.str "it's ☃", .int (-7), .none]]))) =
        .ok (.arr [.arr [.str "it's ☃", .int (-7), .null]]) :=
  parse_repr (fun _ => false) (.tuple [.list [.str "it's ☃", .int (-7), .none]])
    ⟨⟨trivial, show IsI64 (-7) by decide, trivial, trivial⟩, trivial⟩

end Feloxi.Tasks
