import Feloxi.Tasks.Literals

/-!
# Feloxi.Tasks.LiteralValues

What the parser makes of a syntax tree. Reading a text is reading its tree and then the values of
the tree (`value_toOption`), so that a text is read exactly if it is that of a tree with a value,
between blanks (`parse_eq_ok_iff`).
-/

namespace Feloxi.Tasks

open Pipeline (SerdeJson)

/-! ### Strings -/

/-- What the parser makes of the text between the quotes. -/
def readBody (quote : Char) (body : List Char) : Option (List Char) :=
  (stringBody quote (body ++ [quote])).toOption.map (·.1)

theorem toOption_map {α β : Type} (r : Except ReprError α) (f : α → β) :
    (r.map f).toOption = r.toOption.map f := by
  cases r <;> rfl

theorem toOption_bind {α β : Type} (r : Except ReprError α) (k : α → Except ReprError β) :
    (r.bind k).toOption = r.toOption.bind fun a => (k a).toOption := by
  cases r <;> rfl

theorem toOption_eq_some {α : Type} {r : Except ReprError α} {a : α} :
    r.toOption = some a ↔ r = .ok a := by
  cases r <;> simp [Except.toOption]

theorem toOption_consChar (c : Char) (r : Parsed (List Char)) :
    (consChar c r).toOption = r.toOption.map fun p => (c :: p.1, p.2) := toOption_map r _

section

variable {quote : Char} (hquote : quote = '\'' ∨ quote = '"')

include hquote in
theorem ne_backslash_of_quote : quote ≠ '\\' := by
  rcases hquote with h | h <;> rw [h] <;> decide

include hquote in
theorem ne_quote_of_hexChar {digits : List Char} {d : Char} (h : hexChar digits = .ok d) :
    ∀ c ∈ digits, c ≠ quote ∧ c ≠ '\\' := by
  intro c hc
  obtain ⟨hsingle, hdouble, hbackslash⟩ := plain_of_hexChar h hc
  refine ⟨?_, hbackslash⟩
  rcases hquote with hq | hq <;> rw [hq] <;> assumption

theorem readBody_nil (quote : Char) : readBody quote [] = some [] := by
  rw [readBody, List.nil_append, stringBody_quote]
  rfl

theorem readBody_plain {c : Char} (hc : c ≠ quote) (hplain : c ≠ '\\') (body : List Char) :
    readBody quote (c :: body) = (readBody quote body).map (c :: ·) := by
  rw [readBody, List.cons_append, stringBody_plain hc hplain, toOption_consChar, readBody,
    Option.map_map, Option.map_map]
  rfl

include hquote in
theorem readBody_simple {e d : Char} (h : simpleEscape e = some d) (body : List Char) :
    readBody quote ('\\' :: e :: body) = (readBody quote body).map (d :: ·) := by
  rw [readBody, List.cons_append, List.cons_append,
    stringBody_backslash (ne_backslash_of_quote hquote), escapeChar_simple h]
  show (consChar d (stringBody quote (body ++ [quote]))).toOption.map _ = _
  rw [toOption_consChar, readBody, Option.map_map, Option.map_map]
  rfl

include hquote in
theorem readBody_hex {e d : Char} {n : Nat} {digits : List Char} (h : hexLength e = some n)
    (hlength : digits.length = n) (hd : hexChar digits = .ok d) (body : List Char) :
    readBody quote ('\\' :: e :: (digits ++ body)) = (readBody quote body).map (d :: ·) := by
  rw [readBody, List.cons_append, List.cons_append, List.append_assoc,
    stringBody_backslash (ne_backslash_of_quote hquote), escapeChar_hex h hlength hd]
  show (consChar d (stringBody quote (body ++ [quote]))).toOption.map _ = _
  rw [toOption_consChar, readBody, Option.map_map, Option.map_map]
  rfl

theorem takeBody_digits {digits : List Char} (h : ∀ c ∈ digits, c ≠ quote ∧ c ≠ '\\')
    (rest : List Char) :
    takeBody quote (digits ++ rest) = (takeBody quote rest).map fun p => (digits ++ p.1, p.2) := by
  induction digits with
  | nil => simp
  | cons c digits ih =>
      obtain ⟨hc, hplain⟩ := h c List.mem_cons_self
      rw [List.cons_append, takeBody_plain hc hplain,
        ih fun d hd => h d (List.mem_cons_of_mem c hd), Option.map_map]
      rfl

/-- Digits in front of a closing quote are all in the body. -/
theorem digits_of_body {digits body rest : List Char} (h : ∀ c ∈ digits, c ≠ quote)
    (heq : body ++ [quote] = digits ++ rest) : ∃ body', body = digits ++ body' := by
  rcases List.append_eq_append_iff.1 heq with ⟨more, hdigits, hrest⟩ | ⟨more, hbody, -⟩
  · cases more with
    | nil => exact ⟨[], by simpa using hdigits.symm⟩
    | cons c more =>
        have hc : c = quote := by simpa using (List.cons.inj hrest).1.symm
        exact absurd hc (h c (by simp [hdigits]))
  · exact ⟨more, hbody⟩

include hquote in
/-- What cannot be read as an escape in the whole text cannot be read in the body. -/
theorem readBody_of_escape_error {e : Char} {body rest : List Char} {err : ReprError}
    (h : escapeChar (e :: (body ++ quote :: rest)) = .error err) :
    readBody quote ('\\' :: e :: body) = none := by
  rw [readBody, List.cons_append, List.cons_append,
    stringBody_backslash (ne_backslash_of_quote hquote)]
  cases hescape : escapeChar (e :: (body ++ [quote])) with
  | error err' => rfl
  | ok p =>
      exfalso
      rcases escapeChar_cases hescape with ⟨hsimple, -⟩ | ⟨n, digits, -, hn, hlength, hd, heq⟩
      · rw [escapeChar_simple hsimple] at h
        cases h
      · obtain ⟨body', hbody⟩ :=
          digits_of_body (fun c hc => (ne_quote_of_hexChar hquote hd c hc).1) heq
        rw [hbody, List.append_assoc, escapeChar_hex hn hlength hd] at h
        cases h

include hquote in
/-- **A string is read up to its closing quote**, and then for what is between. -/
theorem stringBody_toOption (s : List Char) :
    (stringBody quote s).toOption =
      (takeBody quote s).bind fun p => (readBody quote p.1).map fun t => (t, p.2) := by
  have hbackslash := ne_backslash_of_quote hquote
  -- on the length, since an escape takes several characters
  induction hlen : s.length using Nat.strong_induction_on generalizing s with
  | _ n ih =>
      cases s with
      | nil => rfl
      | cons c s =>
          rw [List.length_cons] at hlen
          by_cases hc : c = quote
          · rw [hc, stringBody_quote, takeBody_quote]
            simp [Except.toOption, readBody_nil]
          · by_cases hplain : c = '\\'
            · subst hplain
              cases s with
              | nil =>
                  rw [stringBody_backslash hbackslash]
                  unfold takeBody
                  rw [if_neg hc, if_pos rfl]
                  rfl
              | cons e s =>
                  rw [List.length_cons] at hlen
                  rw [stringBody_backslash hbackslash, takeBody_escape hbackslash, toOption_bind]
                  cases hescape : escapeChar (e :: s) with
                  | error err =>
                      cases hbody : takeBody quote s with
                      | none => rfl
                      | some p =>
                          obtain ⟨hs, -⟩ := takeBody_some hbackslash hbody
                          rw [hs] at hescape
                          have hnone := readBody_of_escape_error hquote hescape
                          simp [Except.toOption, hnone]
                  | ok p =>
                      obtain ⟨d, rest⟩ := p
                      rcases escapeChar_cases hescape with
                        ⟨hsimple, hs⟩ | ⟨n, digits, -, hn, hlength, hd, hs⟩
                      · subst hs
                        have hrest := ih s.length (by omega) s rfl
                        show (consChar d (stringBody quote s)).toOption = _
                        rw [toOption_consChar, hrest]
                        cases takeBody quote s with
                        | none => rfl
                        | some p =>
                            simp [readBody_simple hquote hsimple, Function.comp_def]
                      · subst hs
                        rw [List.length_append] at hlen
                        have hrest := ih rest.length (by omega) rest rfl
                        show (consChar d (stringBody quote rest)).toOption = _
                        rw [toOption_consChar, hrest,
                          takeBody_digits (ne_quote_of_hexChar hquote hd)]
                        cases takeBody quote rest with
                        | none => rfl
                        | some p =>
                            simp [readBody_hex hquote hn hlength hd, Function.comp_def]
            · have hrest := ih s.length (by omega) s rfl
              rw [stringBody_plain hc hplain, toOption_consChar, hrest, takeBody_plain hc hplain]
              cases takeBody quote s with
              | none => rfl
              | some p => simp [readBody_plain hc hplain, Function.comp_def]

end

/-! ### What a body spells -/

/-- What stands for a character between quotes: itself, or an escape of it. -/
inductive Stands (quote c : Char) : List Char → Prop where
  | plain (hc : c ≠ quote) (hplain : c ≠ '\\') : Stands quote c [c]
  | simple {e : Char} (h : simpleEscape e = some c) : Stands quote c ['\\', e]
  | hex {e : Char} {n : Nat} {digits : List Char} (h : hexLength e = some n)
      (hlength : digits.length = n) (hd : hexChar digits = .ok c) :
      Stands quote c ('\\' :: e :: digits)

/-- A text between quotes, one character after the other. -/
inductive Spells (quote : Char) : List Char → List Char → Prop where
  | nil : Spells quote [] []
  | cons {c : Char} {u t body : List Char} (h : Stands quote c t) (hrest : Spells quote u body) :
      Spells quote (c :: u) (t ++ body)

section

variable {quote : Char} (hquote : quote = '\'' ∨ quote = '"')

theorem closed_digits {digits : List Char} (h : ∀ c ∈ digits, c ≠ quote ∧ c ≠ '\\')
    (rest : List Char) : closed quote (digits ++ rest) = closed quote rest := by
  induction digits with
  | nil => rfl
  | cons c digits ih =>
      obtain ⟨hc, hplain⟩ := h c List.mem_cons_self
      rw [List.cons_append, closed_plain hc hplain]
      exact ih fun d hd => h d (List.mem_cons_of_mem c hd)

include hquote in
theorem Stands.closed {c : Char} {t : List Char} (h : Stands quote c t) (rest : List Char) :
    closed quote (t ++ rest) = closed quote rest := by
  have hbackslash := ne_backslash_of_quote hquote
  cases h with
  | plain hc hplain => exact closed_plain hc hplain rest
  | simple _ => exact closed_escape hbackslash _ rest
  | hex _ _ hd =>
      rw [List.cons_append, List.cons_append, closed_escape hbackslash]
      exact closed_digits (ne_quote_of_hexChar hquote hd) rest

include hquote in
theorem Stands.readBody {c : Char} {t : List Char} (h : Stands quote c t) (rest : List Char) :
    readBody quote (t ++ rest) = (readBody quote rest).map (c :: ·) := by
  cases h with
  | plain hc hplain => exact readBody_plain hc hplain rest
  | simple h => exact readBody_simple hquote h rest
  | hex h hlength hd => exact readBody_hex hquote h hlength hd rest

include hquote in
theorem Spells.closed {u body : List Char} (h : Spells quote u body) :
    closed quote body = true := by
  induction h with
  | nil => rfl
  | cons h _ ih => rw [h.closed hquote, ih]

include hquote in
theorem Spells.readBody {u body : List Char} (h : Spells quote u body) :
    readBody quote body = some u := by
  induction h with
  | nil => exact readBody_nil quote
  | cons h _ ih =>
      rw [h.readBody hquote, ih]
      rfl

include hquote in
/-- **A closed body is read as what it spells**, and only then. -/
theorem spells_of_readBody {u body : List Char} (hclosed : closed quote body = true)
    (h : readBody quote body = some u) : Spells quote u body := by
  have hbackslash := ne_backslash_of_quote hquote
  induction hlen : body.length using Nat.strong_induction_on generalizing u body with
  | _ n ih =>
      -- the first character of the text, and what is left of the body behind it
      have hstep : ∀ {c : Char} {t rest : List Char}, body = t ++ rest → Stands quote c t →
          rest.length < n → Spells quote u body := by
        intro c t rest heq hstands hlt
        rw [heq, hstands.closed hquote] at hclosed
        rw [heq, hstands.readBody hquote] at h
        obtain ⟨u', hu', hcons⟩ := Option.map_eq_some_iff.1 h
        rw [heq, ← hcons]
        exact .cons hstands (ih rest.length hlt hclosed hu' rfl)
      cases body with
      | nil =>
          rw [readBody_nil] at h
          cases h
          exact .nil
      | cons c body =>
          obtain ⟨hc, hescape⟩ := closed_cases hclosed
          rw [List.length_cons] at hlen
          by_cases hplain : c = '\\'
          · subst hplain
            cases body with
            | nil => exact absurd rfl (hescape rfl)
            | cons e body =>
                rw [List.length_cons] at hlen
                cases hread : escapeChar (e :: (body ++ [quote])) with
                | error err =>
                    rw [readBody_of_escape_error hquote hread] at h
                    cases h
                | ok p =>
                    obtain ⟨d, rest⟩ := p
                    rcases escapeChar_cases hread with
                      ⟨hsimple, -⟩ | ⟨k, digits, -, hk, hlength, hd, heq⟩
                    · exact hstep (t := ['\\', e]) rfl (.simple hsimple) (by omega)
                    · obtain ⟨body', hbody⟩ :=
                        digits_of_body (fun c hc => (ne_quote_of_hexChar hquote hd c hc).1) heq
                      refine hstep (t := '\\' :: e :: digits) (by rw [hbody]; rfl)
                        (.hex hk hlength hd) ?_
                      rw [hbody, List.length_append] at hlen
                      omega
          · exact hstep (t := [c]) rfl (.plain hc hplain) (by omega)

end

/-! ### Values of trees -/

def Word.value : Word → Json
  | .none => .null
  | .true => .bool Bool.true
  | .false => .bool Bool.false

/-- What `number` makes of a run. -/
def NumRun.value (n : NumRun) : Option Json := (number n.chars).toOption.map (·.1)

def StrToken.value (t : StrToken) : Option String :=
  (readBody (quoteOf t.double) t.body).map String.ofList

mutual

/-- What the parser makes of a literal. -/
def Literal.value (serde : SerdeJson) : Literal → Option Json
  | .word w => some w.value
  | .num n => n.value
  | .str t => t.value.map .str
  | .seq _ items => (items.value serde).map .arr
  | .dict entries => (entries.value serde).map .ofEntries

def LiteralItems.value (serde : SerdeJson) : LiteralItems → Option (List Json)
  | .done _ => some []
  | .last _ x _ => (x.value serde).map fun v => [v]
  | .more _ x _ rest => (x.value serde).bind fun v => (rest.value serde).map (v :: ·)

def LiteralEntries.value (serde : SerdeJson) : LiteralEntries → Option (List (String × Json))
  | .done _ => some []
  | .last _ k _ _ x _ =>
    ((k.value serde).bind (keyText serde)).bind fun key =>
      (x.value serde).map fun v => [(key, v)]
  | .more _ k _ _ x _ rest =>
    ((k.value serde).bind (keyText serde)).bind fun key =>
      (x.value serde).bind fun v => (rest.value serde).map ((key, v) :: ·)

end

/-- A part of a tree read as a value, in front of what follows it. -/
def Valued {τ α : Type} (f : τ → Option α) (r : Option (τ × List Char)) :
    Option (α × List Char) :=
  r.bind fun p => (f p.1).map fun v => (v, p.2)

theorem Valued.map {τ τ' α β : Type} {f : τ → Option α} {f' : τ' → Option β} {g : τ → τ'}
    {h : α → β} (hcomm : ∀ x, f' (g x) = (f x).map h) (r : Option (τ × List Char)) :
    Valued f' (r.map fun p => (g p.1, p.2)) = (Valued f r).map fun p => (h p.1, p.2) := by
  cases r with
  | none => rfl
  | some p =>
      obtain ⟨x, rest⟩ := p
      cases hx : f x <;> simp [Valued, hcomm, hx]

/-! ### Numbers and words -/

/-- A number is read off its run. -/
theorem number_toOption {c : Char} (h : beginsNumber c = true) (rest : List Char) :
    (number (c :: rest)).toOption =
      (readNum h rest).value.map fun v => (v, rest.dropWhile isNumChar) := by
  have hc : isNumChar c = true := isNumChar_of_begins h
  have hrun : ∀ d ∈ c :: rest.takeWhile isNumChar, isNumChar d = true := by
    intro d hd
    rcases List.mem_cons.1 hd with heq | hd
    · rw [heq]
      exact hc
    · exact List.mem_takeWhile_imp hd
  have htake : (c :: rest.takeWhile isNumChar).takeWhile isNumChar =
      c :: rest.takeWhile isNumChar := List.takeWhile_eq_self_iff.2 hrun
  have hdrop : (c :: rest.takeWhile isNumChar).dropWhile isNumChar = [] :=
    List.dropWhile_eq_nil_iff.2 hrun
  have htext : (c :: rest).takeWhile isNumChar = c :: rest.takeWhile isNumChar :=
    List.takeWhile_cons_of_pos hc
  have hrest : (c :: rest).dropWhile isNumChar = rest.dropWhile isNumChar :=
    List.dropWhile_cons_of_pos hc
  unfold NumRun.value NumRun.chars readNum number
  dsimp only
  rw [htext, hrest, htake, hdrop]
  split
  · rfl
  · split
    · rfl
    · split
      · split <;> rfl
      · rfl

theorem keywordValue_toOption (s : List Char) :
    (keywordValue s).toOption = (takeWord s).map fun p => (p.1.value, p.2) := by
  unfold keywordValue takeWord
  cases keyword "None" s with
  | some rest => rfl
  | none =>
      dsimp only
      cases keyword "True" s with
      | some rest => rfl
      | none =>
          dsimp only
          cases keyword "False" s <;> rfl

/-! ### Reading a text is reading its tree -/

section

variable (serde : SerdeJson)

/-- `value` at a character that is no blank. -/
theorem value_cons {c : Char} (hc : isWs c = false) (fuel : Nat) (rest : List Char) :
    value serde (fuel + 1) (c :: rest) =
      if c = '[' then (items serde fuel ']' rest).map fun p => (.arr p.1, p.2)
      else if c = '(' then (items serde fuel ')' rest).map fun p => (.arr p.1, p.2)
      else if c = '{' then (dict serde fuel rest).map fun p => (.ofEntries p.1, p.2)
      else if c = '\'' then
        (stringBody '\'' rest).map fun p => (.str (String.ofList p.1), p.2)
      else if c = '"' then
        (stringBody '"' rest).map fun p => (.str (String.ofList p.1), p.2)
      else if beginsNumber c then number (c :: rest)
      else keywordValue (c :: rest) := by
  conv => lhs; unfold value
  rw [ws_cons hc]
  split
  · rename_i heq
    obtain ⟨hhead, htail⟩ := List.cons.inj heq
    rw [if_pos hhead, htail]
  · rename_i heq
    obtain ⟨rfl, rfl⟩ := List.cons.inj heq
    rfl
  · rename_i heq
    obtain ⟨rfl, rfl⟩ := List.cons.inj heq
    rfl
  · rename_i heq
    obtain ⟨rfl, rfl⟩ := List.cons.inj heq
    rfl
  · rename_i heq
    obtain ⟨rfl, rfl⟩ := List.cons.inj heq
    rfl
  · rename_i heq
    cases heq
  · rename_i hlist htuple hdict hsingle hdouble heq
    obtain ⟨rfl, rfl⟩ := List.cons.inj heq
    rw [if_neg hlist, if_neg htuple, if_neg hdict, if_neg hsingle, if_neg hdouble]
    rfl

theorem isWs_of_ws {s rest : List Char} {c : Char} (h : ws s = c :: rest) : isWs c = false := by
  have hne : s.dropWhile isWs ≠ [] := by
    show ws s ≠ []
    rw [h]
    exact List.cons_ne_nil c rest
  have hhead := List.head_dropWhile_not isWs hne
  have hc : (s.dropWhile isWs).head hne = c := by
    have : (ws s).head? = some c := by rw [h]; rfl
    rw [ws, List.head?_eq_some_head hne] at this
    exact Option.some.inj this
  rwa [hc] at hhead

theorem valued_takeString (double : Bool) (s : List Char) :
    Valued StrToken.value (takeString double s) =
      (takeBody (quoteOf double) s).bind fun p =>
        (readBody (quoteOf double) p.1).map fun t => (String.ofList t, p.2) := by
  unfold takeString
  split
  · rename_i h
    simp [h, Valued]
  · rename_i p h
    simp [h, Valued, StrToken.value, Function.comp_def]

theorem quoteOf_cases (double : Bool) : quoteOf double = '\'' ∨ quoteOf double = '"' := by
  cases double <;> decide

theorem stringBody_valued (double : Bool) (s : List Char) :
    ((stringBody (quoteOf double) s).map fun p => (Json.str (String.ofList p.1), p.2)).toOption =
      Valued (Literal.value serde) ((takeString double s).map fun p => (.str p.1, p.2)) := by
  have hcomm : ∀ t : StrToken, (Literal.str t).value serde = t.value.map .str := fun t => rfl
  rw [Valued.map hcomm, valued_takeString, toOption_map, stringBody_toOption (quoteOf_cases double)]
  cases takeBody (quoteOf double) s with
  | none => rfl
  | some p => simp [Function.comp_def]

/-- A part and what comes behind it. -/
theorem valued_bind {τ τ' α β : Type} {f : τ → Option α} {f' : τ' → Option β}
    {r : Option (τ × List Char)} {k : τ × List Char → Option (τ' × List Char)}
    {k' : α × List Char → Option (β × List Char)}
    (h : ∀ x rest, ((f x).map fun v => (v, rest)).bind k' = Valued f' (k (x, rest))) :
    (Valued f r).bind k' = Valued f' (r.bind k) := by
  cases r with
  | none => rfl
  | some p => exact h p.1 p.2

/-- The value of an element in front of those of the others. -/
theorem bind_toOption_map {α β γ : Type} (v : Option α) (rest : List Char)
    (r : List Char → Parsed β) (f : α → β → γ) :
    ((v.map fun v => (v, rest)).bind fun p : α × List Char =>
      ((r p.2).map fun q => (f p.1 q.1, q.2)).toOption) =
        v.bind fun v => (r rest).toOption.map fun q => (f v q.1, q.2) := by
  cases v with
  | none => rfl
  | some v => exact toOption_map (r rest) _

theorem bind_bind_comm {α β γ : Type} (a : Option α) (b : Option β) (f : α → β → Option γ) :
    (a.bind fun x => b.bind fun y => f x y) = b.bind fun y => a.bind fun x => f x y := by
  cases a <;> cases b <;> rfl

/-- What is done with the text of a key that was read, if it has one. -/
theorem bind_keyText {α : Type} {kv : Option Json} {rest : List Char}
    {F : Json × List Char → Option α} {G : String → Option α}
    (hnone : ∀ v, keyText serde v = none → F (v, rest) = none)
    (hsome : ∀ v key, keyText serde v = some key → F (v, rest) = G key) :
    (kv.map fun v => (v, rest)).bind F = (kv.bind (keyText serde)).bind G := by
  cases kv with
  | none => rfl
  | some v =>
      cases hv : keyText serde v with
      | none => simp [hv, hnone v hv]
      | some key => simp [hv, hsome v key hv]

theorem items_valued {fuel : Nat}
    (hvalue : ∀ s, (value serde fuel s).toOption =
      Valued (Literal.value serde) (literal fuel (ws s)))
    (hitems : ∀ close s, (items serde fuel close s).toOption =
      Valued (LiteralItems.value serde) (literalItems fuel close s))
    (close : Char) (s : List Char) :
    (items serde (fuel + 1) close s).toOption =
      Valued (LiteralItems.value serde) (literalItems (fuel + 1) close s) := by
  by_cases hclose : (ws s).head? = some close
  · rw [items_of_close serde fuel hclose, literalItems, if_pos hclose]
    rfl
  · rw [items_of_value serde fuel hclose, literalItems, if_neg hclose, toOption_bind, hvalue]
    refine valued_bind fun x rest => ?_
    rw [bind_toOption_map _ _ (itemsTail serde fuel close)]
    unfold itemsTail
    dsimp only
    cases ws rest with
    | nil => cases x.value serde <;> rfl
    | cons c more =>
        dsimp only
        by_cases hcomma : c = ','
        · rw [if_pos hcomma, if_pos hcomma, hitems]
          cases literalItems fuel close more with
          | none => cases x.value serde <;> rfl
          | some q =>
              cases hx : x.value serde <;>
                simp [Valued, LiteralItems.value, hx, Function.comp_def]
        · rw [if_neg hcomma, if_neg hcomma]
          by_cases hend : c = close
          · rw [if_pos hend, if_pos hend]
            cases hx : x.value serde <;> simp [Valued, LiteralItems.value, hx, Except.toOption]
          · rw [if_neg hend, if_neg hend]
            cases x.value serde <;> rfl

theorem dict_valued {fuel : Nat}
    (hvalue : ∀ s, (value serde fuel s).toOption =
      Valued (Literal.value serde) (literal fuel (ws s)))
    (hdict : ∀ s, (dict serde fuel s).toOption =
      Valued (LiteralEntries.value serde) (literalEntries fuel s))
    (s : List Char) :
    (dict serde (fuel + 1) s).toOption =
      Valued (LiteralEntries.value serde) (literalEntries (fuel + 1) s) := by
  by_cases hclose : (ws s).head? = some '}'
  · rw [dict_of_close serde fuel hclose, literalEntries, if_pos hclose]
    rfl
  · rw [dict_of_key serde fuel hclose, literalEntries, if_neg hclose, toOption_bind, hvalue]
    refine valued_bind fun k afterKey => ?_
    refine (bind_keyText serde
      (G := fun key => (entryTail serde fuel key afterKey).toOption) ?_ ?_).trans ?_
    · intro v hv
      simp [hv, Except.toOption]
    · intro v key hv
      simp [hv]
    unfold entryTail
    dsimp only
    by_cases hcolon : (ws afterKey).head? = some ':'
    · simp only [if_pos hcolon, toOption_bind, hvalue]
      -- the tree reads the value before the text of the key is asked for
      rw [bind_bind_comm]
      refine valued_bind fun x rest => ?_
      have hentry : ((x.value serde).map fun v => (v, rest)).bind (fun p : Json × List Char =>
          ((k.value serde).bind (keyText serde)).bind fun key =>
            ((dictTail serde fuel p.2).map fun q => ((key, p.1) :: q.1, q.2)).toOption) =
          ((k.value serde).bind (keyText serde)).bind fun key => (x.value serde).bind fun v =>
            (dictTail serde fuel rest).toOption.map fun q => ((key, v) :: q.1, q.2) := by
        rw [bind_bind_comm]
        refine congrArg _ (funext fun key => ?_)
        exact bind_toOption_map _ _ (dictTail serde fuel) fun v q => (key, v) :: q
      rw [hentry]
      unfold dictTail
      dsimp only
      cases ws rest with
      | nil =>
          cases (k.value serde).bind (keyText serde) with
          | none => rfl
          | some key => cases x.value serde <;> rfl
      | cons c more =>
          dsimp only
          by_cases hcomma : c = ','
          · rw [if_pos hcomma, if_pos hcomma, hdict]
            cases literalEntries fuel more with
            | none =>
                cases (k.value serde).bind (keyText serde) with
                | none => rfl
                | some key => cases x.value serde <;> rfl
            | some q =>
                cases hk : (k.value serde).bind (keyText serde) <;> cases hx : x.value serde <;>
                  simp [Valued, LiteralEntries.value, hk, hx, Function.comp_def]
          · rw [if_neg hcomma, if_neg hcomma]
            by_cases hend : c = '}'
            · rw [if_pos hend, if_pos hend]
              cases hk : (k.value serde).bind (keyText serde) <;> cases hx : x.value serde <;>
                simp [Valued, LiteralEntries.value, hk, hx, Except.toOption]
            · rw [if_neg hend, if_neg hend]
              cases (k.value serde).bind (keyText serde) with
              | none => rfl
              | some key => cases x.value serde <;> rfl
    · simp only [if_neg hcolon]
      cases (k.value serde).bind (keyText serde) <;> rfl

/-- **Reading a text is reading its tree**, for each of the three calls. -/
theorem value_toOption (fuel : Nat) :
    (∀ s, (value serde fuel s).toOption = Valued (Literal.value serde) (literal fuel (ws s))) ∧
      (∀ close s, (items serde fuel close s).toOption =
        Valued (LiteralItems.value serde) (literalItems fuel close s)) ∧
      ∀ s, (dict serde fuel s).toOption =
        Valued (LiteralEntries.value serde) (literalEntries fuel s) := by
  induction fuel with
  | zero => exact ⟨fun _ => rfl, fun _ _ => rfl, fun _ => rfl⟩
  | succ fuel ih =>
      obtain ⟨hvalue, hitems, hdict⟩ := ih
      refine ⟨fun s => ?_, items_valued serde hvalue hitems, dict_valued serde hvalue hdict⟩
      have hseq : ∀ paren, ∀ xs : LiteralItems,
          (Literal.seq paren xs).value serde = (xs.value serde).map .arr := fun _ _ => rfl
      have hentries : ∀ es : LiteralEntries,
          (Literal.dict es).value serde = (es.value serde).map .ofEntries := fun _ => rfl
      rw [← value_ws]
      cases hs : ws s with
      | nil =>
          unfold value
          rfl
      | cons c rest =>
          rw [value_cons serde (isWs_of_ws hs), literal]
          split_ifs with hlist htuple hbrace hsingle hdouble hnum
          · rw [toOption_map, hitems]
            exact (Valued.map (hseq false) _).symm
          · rw [toOption_map, hitems]
            exact (Valued.map (hseq true) _).symm
          · rw [toOption_map, hdict]
            exact (Valued.map hentries _).symm
          · exact stringBody_valued serde false rest
          · exact stringBody_valued serde true rest
          · rw [number_toOption hnum]
            rfl
          · rw [keywordValue_toOption]
            cases takeWord (c :: rest) <;> rfl

/-! ### Whole texts -/

theorem ws_eq_nil (b : Blank) : ws b.chars = [] := List.dropWhile_eq_nil_iff.2 b.isBlank

theorem ws_literal (b : Blank) (x : Literal) (rest : List Char) :
    ws (b.chars ++ (x.text ++ rest)) = x.text ++ rest := (readBlank_literal b x rest).2

theorem stops_blank (b : Blank) : Stops b.chars := by
  have hnil : Stops [] := by
    intro c more h
    cases h
  have := stops_blank_append b hnil
  rwa [List.append_nil] at this

/-- A text between blanks is that of one tree only. -/
theorem literal_unique {b₁ b₁' b₂ b₂' : Blank} {x₁ x₂ : Literal}
    (h : b₁.chars ++ (x₁.text ++ b₁'.chars) = b₂.chars ++ (x₂.text ++ b₂'.chars)) : x₁ = x₂ := by
  have htext := congrArg ws h
  rw [ws_literal, ws_literal] at htext
  have hfirst := literal_text x₁ (2 * (x₁.text.length + x₂.text.length)) (stops_blank b₁')
    (by omega)
  have hsecond := literal_text x₂ (2 * (x₁.text.length + x₂.text.length)) (stops_blank b₂')
    (by omega)
  rw [htext, hsecond] at hfirst
  exact (Prod.mk.inj (Option.some.inj hfirst)).1.symm

/-- A value and blanks behind it, read with enough fuel. -/
theorem value_eq_ok_iff {fuel : Nat} {t : List Char} {v : Json} (hfuel : 2 * t.length ≤ fuel) :
    (∃ rest, value serde fuel t = .ok (v, rest) ∧ ws rest = []) ↔
      ∃ b x b', t = Blank.chars b ++ (Literal.text x ++ Blank.chars b') ∧
        x.value serde = some v := by
  have htree := (value_toOption serde fuel).1 t
  constructor
  · intro ⟨rest, hread, hblank⟩
    rw [hread] at htree
    obtain ⟨⟨x, rest'⟩, hx, hv⟩ := Option.bind_eq_some_iff.1 htree.symm
    obtain ⟨v', hv', heq⟩ := Option.map_eq_some_iff.1 hv
    cases heq
    have htext := (text_of_literal fuel).1 _ _ _ hx
    have hrest := blank_append_ws rest'
    rw [hblank, List.append_nil] at hrest
    refine ⟨readBlank t, x, readBlank rest', ?_, hv'⟩
    rw [hrest, ← htext, blank_append_ws]
  · intro ⟨b, x, b', ht, hv⟩
    have hx : literal fuel (ws t) = some (x, b'.chars) := by
      rw [ht, ws_literal]
      refine literal_text x _ (stops_blank b') ?_
      rw [ht, List.length_append, List.length_append] at hfuel
      omega
    refine ⟨b'.chars, ?_, ws_eq_nil b'⟩
    rw [← toOption_eq_some, htree, hx]
    simp [Valued, hv]

/-- **What is read**: a text is read as a value exactly if it is that of a tree with this value,
between blanks. -/
theorem parse_eq_ok_iff {t : List Char} {v : Json} :
    parse serde t = .ok v ↔
      ∃ b x b', t = Blank.chars b ++ (Literal.text x ++ Blank.chars b') ∧
        x.value serde = some v := by
  have hfuel : 2 * t.length ≤ 2 * t.length + 2 := Nat.le_add_right _ 2
  rw [← value_eq_ok_iff serde hfuel, parse]
  cases value serde (2 * t.length + 2) t with
  | error e => simp
  | ok p =>
      obtain ⟨v', rest⟩ := p
      by_cases hblank : ws rest = [] <;> simp [hblank]

end

end Feloxi.Tasks
