import Feloxi.Tasks.ReadBack

/-!
# Feloxi.Tasks.Literals

The texts that the parser can read, as syntax trees: words, runs of number characters, quoted
strings, brackets with or without a comma behind the last element, and the blanks between them.
A tree says nothing about values yet. A number may be no numeral and an escape may be unknown.

Reading a text into a tree and writing a tree as text are inverse to each other (`literal_text`,
`text_of_literal`), so that a text is that of one tree at most.
-/

namespace Feloxi.Tasks

/-! ### Tokens -/

/-- A run of blanks, between two tokens. -/
@[ext]
structure Blank where
  chars : List Char
  isBlank : ∀ c ∈ chars, isWs c = true

/-- The words that stand for a value. -/
inductive Word where
  | none
  | true
  | false

def Word.name : Word → String
  | .none => "None"
  | .true => "True"
  | .false => "False"

/-- What a number begins with. -/
def beginsNumber (c : Char) : Bool := c == '-' || c == '+' || c.isDigit || c == '.'

theorem isNumChar_of_begins {c : Char} (h : beginsNumber c = true) : isNumChar c = true := by
  simp only [beginsNumber, Bool.or_eq_true] at h
  simp only [isNumChar, Bool.or_eq_true]
  tauto

/-- A run of number characters. -/
@[ext]
structure NumRun where
  first : Char
  more : List Char
  begins : beginsNumber first = true
  run : ∀ c ∈ more, isNumChar c = true

def NumRun.chars (n : NumRun) : List Char := n.first :: n.more

def quoteOf (double : Bool) : Char := if double then '"' else '\''

/-- Every quote has a backslash before it, which is not itself behind another. -/
def closed (quote : Char) : List Char → Bool
  | [] => true
  | c :: rest =>
    if c = quote then false
    else if c = '\\' then
      match rest with
      | [] => false
      | _ :: rest => closed quote rest
    else closed quote rest

/-- A string between quotes. -/
@[ext]
structure StrToken where
  double : Bool
  body : List Char
  isClosed : closed (quoteOf double) body = true

def StrToken.text (s : StrToken) : List Char :=
  quoteOf s.double :: (s.body ++ [quoteOf s.double])

/-! ### Trees -/

mutual

/-- A literal as it is written. -/
inductive Literal where
  | word (w : Word)
  | num (n : NumRun)
  | str (s : StrToken)
  | seq (paren : Bool) (items : LiteralItems)
  | dict (entries : LiteralEntries)

/-- The elements in brackets; `more` has a comma behind its element, `last` has none. -/
inductive LiteralItems where
  | done (b : Blank)
  | last (b : Blank) (x : Literal) (b' : Blank)
  | more (b : Blank) (x : Literal) (b' : Blank) (rest : LiteralItems)

inductive LiteralEntries where
  | done (b : Blank)
  | last (b : Blank) (k : Literal) (b₁ b₂ : Blank) (x : Literal) (b' : Blank)
  | more (b : Blank) (k : Literal) (b₁ b₂ : Blank) (x : Literal) (b' : Blank)
      (rest : LiteralEntries)

end

def openOf (paren : Bool) : Char := if paren then '(' else '['

def closeOf (paren : Bool) : Char := if paren then ')' else ']'

mutual

def Literal.text : Literal → List Char
  | .word w => w.name.toList
  | .num n => n.chars
  | .str s => s.text
  | .seq paren items => openOf paren :: (items.text ++ [closeOf paren])
  | .dict entries => '{' :: (entries.text ++ ['}'])

def LiteralItems.text : LiteralItems → List Char
  | .done b => b.chars
  | .last b x b' => b.chars ++ (x.text ++ b'.chars)
  | .more b x b' rest => b.chars ++ (x.text ++ (b'.chars ++ ',' :: rest.text))

def LiteralEntries.text : LiteralEntries → List Char
  | .done b => b.chars
  | .last b k b₁ b₂ x b' =>
    b.chars ++ (k.text ++ (b₁.chars ++ ':' :: (b₂.chars ++ (x.text ++ b'.chars))))
  | .more b k b₁ b₂ x b' rest =>
    b.chars ++ (k.text ++
      (b₁.chars ++ ':' :: (b₂.chars ++ (x.text ++ (b'.chars ++ ',' :: rest.text)))))

end

/-! ### Reading tokens -/

def readBlank (s : List Char) : Blank :=
  ⟨s.takeWhile isWs, fun _ => List.mem_takeWhile_imp⟩

/-- The text up to the closing quote, and what follows the quote. -/
def takeBody (quote : Char) : List Char → Option (List Char × List Char)
  | [] => none
  | c :: rest =>
    if c = quote then some ([], rest)
    else if c = '\\' then
      match rest with
      | [] => none
      | e :: rest => (takeBody quote rest).map fun p => (c :: e :: p.1, p.2)
    else (takeBody quote rest).map fun p => (c :: p.1, p.2)

section

variable {quote : Char}

theorem closed_escape (hquote : quote ≠ '\\') (e : Char) (rest : List Char) :
    closed quote ('\\' :: e :: rest) = closed quote rest := by
  conv => lhs; unfold closed
  rw [if_neg (Ne.symm hquote), if_pos rfl]

theorem closed_plain {c : Char} (hc : c ≠ quote) (hplain : c ≠ '\\') (rest : List Char) :
    closed quote (c :: rest) = closed quote rest := by
  conv => lhs; unfold closed
  rw [if_neg hc, if_neg hplain]

theorem takeBody_quote (rest : List Char) : takeBody quote (quote :: rest) = some ([], rest) := by
  unfold takeBody
  exact if_pos rfl

theorem takeBody_escape (hquote : quote ≠ '\\') (e : Char) (rest : List Char) :
    takeBody quote ('\\' :: e :: rest) =
      (takeBody quote rest).map fun p => ('\\' :: e :: p.1, p.2) := by
  conv => lhs; unfold takeBody
  rw [if_neg (Ne.symm hquote), if_pos rfl]

theorem takeBody_plain {c : Char} (hc : c ≠ quote) (hplain : c ≠ '\\') (rest : List Char) :
    takeBody quote (c :: rest) = (takeBody quote rest).map fun p => (c :: p.1, p.2) := by
  conv => lhs; unfold takeBody
  rw [if_neg hc, if_neg hplain]

/-- A closed body is neither cut short by a quote nor ended by a backslash. -/
theorem closed_cases {c : Char} {rest : List Char} (h : closed quote (c :: rest) = true) :
    c ≠ quote ∧ (c = '\\' → rest ≠ []) := by
  unfold closed at h
  split at h
  · cases h
  · rename_i hc
    refine ⟨hc, fun hbackslash hnil => ?_⟩
    subst hnil
    rw [if_pos hbackslash] at h
    cases h

theorem takeBody_append (hquote : quote ≠ '\\') (body rest : List Char)
    (h : closed quote body = true) :
    takeBody quote (body ++ quote :: rest) = some (body, rest) := by
  induction hlen : body.length using Nat.strong_induction_on generalizing body with
  | _ n ih =>
      cases body with
      | nil => exact takeBody_quote rest
      | cons c body =>
          obtain ⟨hc, hescape⟩ := closed_cases h
          rw [List.length_cons] at hlen
          by_cases hplain : c = '\\'
          · subst hplain
            cases body with
            | nil => exact absurd rfl (hescape rfl)
            | cons e body =>
                rw [closed_escape hquote] at h
                rw [List.length_cons] at hlen
                rw [List.cons_append, List.cons_append, takeBody_escape hquote,
                  ih body.length (by omega) body h rfl]
                rfl
          · rw [closed_plain hc hplain] at h
            rw [List.cons_append, takeBody_plain hc hplain,
              ih body.length (by omega) body h rfl]
            rfl

theorem takeBody_some (hquote : quote ≠ '\\') {s body rest : List Char}
    (h : takeBody quote s = some (body, rest)) :
    s = body ++ quote :: rest ∧ closed quote body = true := by
  induction hlen : s.length using Nat.strong_induction_on generalizing s body with
  | _ n ih =>
      cases s with
      | nil => cases h
      | cons c s =>
          rw [List.length_cons] at hlen
          by_cases hc : c = quote
          · subst hc
            rw [takeBody_quote] at h
            cases h
            exact ⟨rfl, rfl⟩
          · by_cases hplain : c = '\\'
            · subst hplain
              cases s with
              | nil =>
                  unfold takeBody at h
                  rw [if_neg hc, if_pos rfl] at h
                  cases h
              | cons e s =>
                  rw [List.length_cons] at hlen
                  rw [takeBody_escape hquote] at h
                  obtain ⟨p, hp, heq⟩ := Option.map_eq_some_iff.1 h
                  cases heq
                  obtain ⟨rfl, hclosed⟩ := ih s.length (by omega) hp rfl
                  exact ⟨rfl, by rwa [closed_escape hquote]⟩
            · rw [takeBody_plain hc hplain] at h
              obtain ⟨p, hp, heq⟩ := Option.map_eq_some_iff.1 h
              cases heq
              obtain ⟨rfl, hclosed⟩ := ih s.length (by omega) hp rfl
              exact ⟨rfl, by rwa [closed_plain hc hplain]⟩

end

theorem quoteOf_ne_backslash (double : Bool) : quoteOf double ≠ '\\' := by
  cases double <;> decide

/-- A string token, after its opening quote. -/
def takeString (double : Bool) (s : List Char) : Option (StrToken × List Char) :=
  match h : takeBody (quoteOf double) s with
  | none => none
  | some p => some (⟨double, p.1, (takeBody_some (quoteOf_ne_backslash double) h).2⟩, p.2)

theorem takeString_append (t : StrToken) (rest : List Char) :
    takeString t.double (t.body ++ quoteOf t.double :: rest) = some (t, rest) := by
  have hbody := takeBody_append (quoteOf_ne_backslash t.double) t.body rest t.isClosed
  unfold takeString
  split
  · rename_i hnone
    rw [hbody] at hnone
    cases hnone
  · rename_i p hsome
    rw [hbody] at hsome
    cases hsome
    rfl

theorem takeString_some {double : Bool} {s rest : List Char} {t : StrToken}
    (h : takeString double s = some (t, rest)) :
    t.double = double ∧ s = t.body ++ quoteOf double :: rest := by
  unfold takeString at h
  split at h
  · cases h
  · rename_i p hsome
    cases h
    exact ⟨rfl, (takeBody_some (quoteOf_ne_backslash double) hsome).1⟩

/-- A word, as a whole. -/
def takeWord (s : List Char) : Option (Word × List Char) :=
  match keyword "None" s with
  | some rest => some (.none, rest)
  | none =>
    match keyword "True" s with
    | some rest => some (.true, rest)
    | none => (keyword "False" s).map fun rest => (.false, rest)

theorem keyword_some {kw : String} {s rest : List Char} (h : keyword kw s = some rest) :
    s = kw.toList ++ rest := by
  unfold keyword at h
  dsimp only at h
  split at h
  · rename_i hcond
    rw [Bool.and_eq_true, List.isPrefixOf_iff_prefix] at hcond
    obtain ⟨more, rfl⟩ := hcond.1
    rw [← Option.some.inj h, List.drop_left]
  · cases h

theorem takeWord_append (w : Word) {rest : List Char} (h : Stops rest) :
    takeWord (w.name.toList ++ rest) = some (w, rest) := by
  unfold takeWord
  cases w with
  | none =>
      have hnone : keyword "None" (Word.none.name.toList ++ rest) = some rest := keyword_append h
      rw [hnone]
  | true =>
      have hnone : keyword "None" (Word.true.name.toList ++ rest) = none := rfl
      have htrue : keyword "True" (Word.true.name.toList ++ rest) = some rest := keyword_append h
      rw [hnone, htrue]
  | false =>
      have hnone : keyword "None" (Word.false.name.toList ++ rest) = none := rfl
      have htrue : keyword "True" (Word.false.name.toList ++ rest) = none := rfl
      have hfalse : keyword "False" (Word.false.name.toList ++ rest) = some rest :=
        keyword_append h
      rw [hnone, htrue, hfalse]
      rfl

theorem takeWord_some {s rest : List Char} {w : Word} (h : takeWord s = some (w, rest)) :
    s = w.name.toList ++ rest := by
  unfold takeWord at h
  split at h
  · rename_i hnone
    cases h
    exact keyword_some hnone
  · split at h
    · rename_i htrue
      cases h
      exact keyword_some htrue
    · obtain ⟨more, hfalse, heq⟩ := Option.map_eq_some_iff.1 h
      cases heq
      exact keyword_some hfalse

/-! ### Reading trees -/

def readNum {c : Char} (h : beginsNumber c = true) (rest : List Char) : NumRun :=
  ⟨c, rest.takeWhile isNumChar, h, fun _ => List.mem_takeWhile_imp⟩

mutual

/-- The literal at the head of a text, and what follows it. -/
def literal : Nat → List Char → Option (Literal × List Char)
  | 0, _ => none
  | _ + 1, [] => none
  | fuel + 1, c :: rest =>
    if c = '[' then (literalItems fuel ']' rest).map fun p => (.seq false p.1, p.2)
    else if c = '(' then (literalItems fuel ')' rest).map fun p => (.seq true p.1, p.2)
    else if c = '{' then (literalEntries fuel rest).map fun p => (.dict p.1, p.2)
    else if c = '\'' then (takeString false rest).map fun p => (.str p.1, p.2)
    else if c = '"' then (takeString true rest).map fun p => (.str p.1, p.2)
    else if h : beginsNumber c = true then
      some (.num (readNum h rest), rest.dropWhile isNumChar)
    else (takeWord (c :: rest)).map fun p => (.word p.1, p.2)

/-- The elements up to the bracket, and what follows it. -/
def literalItems : Nat → Char → List Char → Option (LiteralItems × List Char)
  | 0, _, _ => none
  | fuel + 1, close, s =>
    if (ws s).head? = some close then some (.done (readBlank s), (ws s).tail)
    else
      (literal fuel (ws s)).bind fun p =>
        match ws p.2 with
        | [] => none
        | c :: rest =>
          if c = ',' then
            (literalItems fuel close rest).map fun q =>
              (.more (readBlank s) p.1 (readBlank p.2) q.1, q.2)
          else if c = close then some (.last (readBlank s) p.1 (readBlank p.2), rest)
          else none

def literalEntries : Nat → List Char → Option (LiteralEntries × List Char)
  | 0, _ => none
  | fuel + 1, s =>
    if (ws s).head? = some '}' then some (.done (readBlank s), (ws s).tail)
    else
      (literal fuel (ws s)).bind fun k =>
        if (ws k.2).head? = some ':' then
          (literal fuel (ws (ws k.2).tail)).bind fun p =>
            match ws p.2 with
            | [] => none
            | c :: rest =>
              if c = ',' then
                (literalEntries fuel rest).map fun q =>
                  (.more (readBlank s) k.1 (readBlank k.2) (readBlank (ws k.2).tail) p.1
                    (readBlank p.2) q.1, q.2)
              else if c = '}' then
                some (.last (readBlank s) k.1 (readBlank k.2) (readBlank (ws k.2).tail) p.1
                  (readBlank p.2), rest)
              else none
        else none

end

/-! ### What is read is the text -/

theorem blank_append_ws (s : List Char) : (readBlank s).chars ++ ws s = s :=
  List.takeWhile_append_dropWhile

/-- Blanks, and the character that ends them. -/
theorem eq_blank_cons {s rest : List Char} {c : Char} (h : ws s = c :: rest) :
    s = (readBlank s).chars ++ c :: rest := by
  rw [← h, blank_append_ws]

theorem eq_blank_of_head? {s : List Char} {c : Char} (h : (ws s).head? = some c) :
    s = (readBlank s).chars ++ c :: (ws s).tail :=
  eq_blank_cons (List.head?_eq_some_iff.1 h |>.elim fun t ht => by rw [ht]; rfl)

theorem readNum_append {c : Char} (h : beginsNumber c = true) (rest : List Char) :
    c :: rest = (readNum h rest).chars ++ rest.dropWhile isNumChar := by
  rw [NumRun.chars, readNum, List.cons_append, List.takeWhile_append_dropWhile]

/-- A literal behind blanks, and what follows it. -/
theorem eq_of_literal {fuel : Nat} {s : List Char} {p : Literal × List Char}
    (hliteral : ∀ s x rest, literal fuel s = some (x, rest) → s = x.text ++ rest)
    (h : literal fuel (ws s) = some p) : s = (readBlank s).chars ++ (p.1.text ++ p.2) := by
  rw [← hliteral (ws s) p.1 p.2 h, blank_append_ws]

section

variable {fuel : Nat}
  (hliteral : ∀ s x rest, literal fuel s = some (x, rest) → s = x.text ++ rest)
  (hitems : ∀ close s items rest, literalItems fuel close s = some (items, rest) →
    s = items.text ++ close :: rest)
  (hentries : ∀ s entries rest, literalEntries fuel s = some (entries, rest) →
    s = entries.text ++ '}' :: rest)

include hitems hentries in
theorem text_of_literal_succ {s rest : List Char} {x : Literal}
    (h : literal (fuel + 1) s = some (x, rest)) : s = x.text ++ rest := by
  cases s with
  | nil => cases h
  | cons c s =>
      unfold literal at h
      split_ifs at h with hlist htuple hdict hsingle hdouble hnum
      · obtain ⟨p, hp, heq⟩ := Option.map_eq_some_iff.1 h
        cases heq
        simp [hlist, hitems _ _ _ _ hp, Literal.text, openOf, closeOf]
      · obtain ⟨p, hp, heq⟩ := Option.map_eq_some_iff.1 h
        cases heq
        simp [htuple, hitems _ _ _ _ hp, Literal.text, openOf, closeOf]
      · obtain ⟨p, hp, heq⟩ := Option.map_eq_some_iff.1 h
        cases heq
        simp [hdict, hentries _ _ _ hp, Literal.text]
      · obtain ⟨p, hp, heq⟩ := Option.map_eq_some_iff.1 h
        cases heq
        obtain ⟨hquote, hs⟩ := takeString_some hp
        simp [hsingle, hs, Literal.text, StrToken.text, hquote, quoteOf]
      · obtain ⟨p, hp, heq⟩ := Option.map_eq_some_iff.1 h
        cases heq
        obtain ⟨hquote, hs⟩ := takeString_some hp
        simp [hdouble, hs, Literal.text, StrToken.text, hquote, quoteOf]
      · cases h
        exact readNum_append hnum s
      · obtain ⟨p, hp, heq⟩ := Option.map_eq_some_iff.1 h
        cases heq
        exact takeWord_some hp

include hliteral hitems in
theorem text_of_items_succ {close : Char} {s rest : List Char} {items : LiteralItems}
    (h : literalItems (fuel + 1) close s = some (items, rest)) :
    s = items.text ++ close :: rest := by
  unfold literalItems at h
  split at h
  · rename_i hclose
    cases h
    exact eq_blank_of_head? hclose
  · obtain ⟨p, hp, h⟩ := Option.bind_eq_some_iff.1 h
    have hs := eq_of_literal hliteral hp
    split at h
    · cases h
    · rename_i c more hws
      have hmore := eq_blank_cons hws
      -- another element behind a comma, or the end
      split_ifs at h with hcomma hclose
      · obtain ⟨q, hq, heq⟩ := Option.map_eq_some_iff.1 h
        cases heq
        generalize readBlank s = b at hs ⊢
        generalize readBlank p.2 = b' at hmore ⊢
        rw [hs, hmore, hitems _ _ _ _ hq, hcomma]
        simp [LiteralItems.text]
      · cases h
        generalize readBlank s = b at hs ⊢
        generalize readBlank p.2 = b' at hmore ⊢
        rw [hs, hmore, hclose]
        simp [LiteralItems.text]

include hliteral hentries in
theorem text_of_entries_succ {s rest : List Char} {entries : LiteralEntries}
    (h : literalEntries (fuel + 1) s = some (entries, rest)) :
    s = entries.text ++ '}' :: rest := by
  unfold literalEntries at h
  split at h
  · rename_i hclose
    cases h
    exact eq_blank_of_head? hclose
  · obtain ⟨k, hk, h⟩ := Option.bind_eq_some_iff.1 h
    have hs := eq_of_literal hliteral hk
    split at h
    · rename_i hcolon
      have hkey := eq_blank_of_head? hcolon
      obtain ⟨p, hp, h⟩ := Option.bind_eq_some_iff.1 h
      have hvalue := eq_of_literal hliteral hp
      split at h
      · cases h
      · rename_i c more hws
        have hmore := eq_blank_cons hws
        -- another entry behind a comma, or the end
        split_ifs at h with hcomma hclose
        · obtain ⟨q, hq, heq⟩ := Option.map_eq_some_iff.1 h
          cases heq
          generalize readBlank s = b at hs ⊢
          generalize readBlank k.2 = b₁ at hkey ⊢
          generalize readBlank (ws k.2).tail = b₂ at hvalue ⊢
          generalize readBlank p.2 = b' at hmore ⊢
          rw [hs, hkey, hvalue, hmore, hentries _ _ _ hq, hcomma]
          simp [LiteralEntries.text]
        · cases h
          generalize readBlank s = b at hs ⊢
          generalize readBlank k.2 = b₁ at hkey ⊢
          generalize readBlank (ws k.2).tail = b₂ at hvalue ⊢
          generalize readBlank p.2 = b' at hmore ⊢
          rw [hs, hkey, hvalue, hmore, hclose]
          simp [LiteralEntries.text]
    · cases h

end

/-- **What is read is the text of the tree**, for each of the three calls. -/
theorem text_of_literal (fuel : Nat) :
    (∀ s x rest, literal fuel s = some (x, rest) → s = x.text ++ rest) ∧
      (∀ close s items rest, literalItems fuel close s = some (items, rest) →
        s = items.text ++ close :: rest) ∧
      ∀ s entries rest, literalEntries fuel s = some (entries, rest) →
        s = entries.text ++ '}' :: rest := by
  induction fuel with
  | zero =>
      refine ⟨?_, ?_, ?_⟩
      · intro s x rest h
        cases h
      · intro close s items rest h
        cases h
      · intro s entries rest h
        cases h
  | succ fuel ih =>
      obtain ⟨hliteral, hitems, hentries⟩ := ih
      refine ⟨?_, ?_, ?_⟩
      · intro s x rest h
        exact text_of_literal_succ hitems hentries h
      · intro close s items rest h
        exact text_of_items_succ hliteral hitems h
      · intro s entries rest h
        exact text_of_entries_succ hliteral hentries h

/-! ### Every tree is read back -/

/-- The first character of a literal neither is skipped nor ends the brackets around it. -/
theorem Literal.text_head (x : Literal) : ∃ c more, x.text = c :: more ∧ isEnding c = false := by
  cases x with
  | word w =>
      cases w with
      | none => exact ⟨'N', ['o', 'n', 'e'], rfl, rfl⟩
      | true => exact ⟨'T', ['r', 'u', 'e'], rfl, rfl⟩
      | false => exact ⟨'F', ['a', 'l', 's', 'e'], rfl, rfl⟩
  | num n =>
      refine ⟨n.first, n.more, rfl, ?_⟩
      have hbegins := n.begins
      simp only [beginsNumber, Bool.or_eq_true, beq_iff_eq] at hbegins
      rcases hbegins with ((hc | hc) | hc) | hc
      · rw [hc]
        rfl
      · rw [hc]
        rfl
      · exact isEnding_of_isDigit hc
      · rw [hc]
        rfl
  | str t =>
      refine ⟨quoteOf t.double, _, rfl, ?_⟩
      cases t.double <;> rfl
  | seq paren items =>
      refine ⟨openOf paren, _, rfl, ?_⟩
      cases paren <;> rfl
  | dict entries => exact ⟨'{', _, rfl, rfl⟩

theorem Literal.text_length_pos (x : Literal) : 0 < x.text.length := by
  obtain ⟨c, more, h, -⟩ := x.text_head
  simp [h]

theorem isWs_of_isEnding {c : Char} (h : isEnding c = false) : isWs c = false := by
  simp only [isEnding, Bool.or_eq_false_iff] at h
  exact h.1.1.1

section

variable (b : Blank)

/-- Blanks are skipped up to the first character that is none. -/
theorem readBlank_append {c : Char} (hc : isWs c = false) (rest : List Char) :
    readBlank (b.chars ++ c :: rest) = b ∧ ws (b.chars ++ c :: rest) = c :: rest := by
  have htake : (c :: rest).takeWhile isWs = [] := List.takeWhile_cons_of_neg (by simp [hc])
  have hdrop : (c :: rest).dropWhile isWs = c :: rest :=
    List.dropWhile_cons_of_neg (by simp [hc])
  constructor
  · refine Blank.ext ?_
    show (b.chars ++ c :: rest).takeWhile isWs = b.chars
    rw [List.takeWhile_append_of_pos b.isBlank, htake, List.append_nil]
  · rw [ws, List.dropWhile_append_of_pos b.isBlank, hdrop]

theorem readBlank_literal (x : Literal) (rest : List Char) :
    readBlank (b.chars ++ (x.text ++ rest)) = b ∧
      ws (b.chars ++ (x.text ++ rest)) = x.text ++ rest := by
  obtain ⟨c, more, h, hending⟩ := x.text_head
  rw [h, List.cons_append]
  exact readBlank_append b (isWs_of_isEnding hending) _

theorem head?_literal_ne (x : Literal) (rest : List Char) {close : Char}
    (hclose : isEnding close = true) :
    ¬ (ws (b.chars ++ (x.text ++ rest))).head? = some close := by
  obtain ⟨c, more, h, hending⟩ := x.text_head
  rw [(readBlank_literal b x rest).2, h, List.cons_append, List.head?_cons]
  intro heq
  rw [Option.some.inj heq, hclose] at hending
  cases hending

theorem stops_of_blank {c : Char} (hc : isWs c = true) (rest : List Char) : Stops (c :: rest) := by
  simp only [isWs, Bool.or_eq_true, beq_iff_eq] at hc
  rcases hc with ((hc | hc) | hc) | hc <;> rw [hc] <;> exact stops_cons rfl rfl rest

/-- Behind blanks a value ends where it does without them. -/
theorem stops_blank_append {rest : List Char} (h : Stops rest) : Stops (b.chars ++ rest) := by
  cases hb : b.chars with
  | nil => exact h
  | cons c more => exact stops_of_blank (b.isBlank c (hb ▸ List.mem_cons_self)) _

end

section

variable {fuel : Nat} {close : Char} (b b' : Blank) {x : Literal} {s rest : List Char}

theorem literalItems_done (hws : isWs close = false) :
    literalItems (fuel + 1) close (b.chars ++ close :: rest) = some (.done b, rest) := by
  obtain ⟨hblank, hskip⟩ := readBlank_append b hws rest
  simp [literalItems, hblank, hskip]

theorem literalItems_more {items : LiteralItems} (hclose : isEnding close = true)
    (hx : literal fuel (x.text ++ (b'.chars ++ ',' :: s)) = some (x, b'.chars ++ ',' :: s))
    (hitems : literalItems fuel close s = some (items, rest)) :
    literalItems (fuel + 1) close (b.chars ++ (x.text ++ (b'.chars ++ ',' :: s))) =
      some (.more b x b' items, rest) := by
  obtain ⟨hblank, hskip⟩ := readBlank_literal b x (b'.chars ++ ',' :: s)
  obtain ⟨hblank', hskip'⟩ := readBlank_append b' (c := ',') rfl s
  rw [literalItems, if_neg (head?_literal_ne b x _ hclose), hskip, hx]
  simp [hblank, hblank', hskip', hitems]

theorem literalItems_last (hclose : isEnding close = true) (hws : isWs close = false)
    (hcomma : close ≠ ',')
    (hx : literal fuel (x.text ++ (b'.chars ++ close :: rest)) =
      some (x, b'.chars ++ close :: rest)) :
    literalItems (fuel + 1) close (b.chars ++ (x.text ++ (b'.chars ++ close :: rest))) =
      some (.last b x b', rest) := by
  obtain ⟨hblank, hskip⟩ := readBlank_literal b x (b'.chars ++ close :: rest)
  obtain ⟨hblank', hskip'⟩ := readBlank_append b' hws rest
  rw [literalItems, if_neg (head?_literal_ne b x _ hclose), hskip, hx]
  simp [hblank, hblank', hskip', hcomma]

theorem literalEntries_done :
    literalEntries (fuel + 1) (b.chars ++ '}' :: rest) = some (.done b, rest) := by
  obtain ⟨hblank, hskip⟩ := readBlank_append b (c := '}') rfl rest
  simp [literalEntries, hblank, hskip]

variable (b₁ b₂ : Blank) {k : Literal}

theorem literalEntries_more {entries : LiteralEntries}
    (hk : literal fuel (k.text ++ (b₁.chars ++ ':' ::
        (b₂.chars ++ (x.text ++ (b'.chars ++ ',' :: s))))) =
      some (k, b₁.chars ++ ':' :: (b₂.chars ++ (x.text ++ (b'.chars ++ ',' :: s)))))
    (hx : literal fuel (x.text ++ (b'.chars ++ ',' :: s)) = some (x, b'.chars ++ ',' :: s))
    (hentries : literalEntries fuel s = some (entries, rest)) :
    literalEntries (fuel + 1) (b.chars ++ (k.text ++ (b₁.chars ++ ':' ::
        (b₂.chars ++ (x.text ++ (b'.chars ++ ',' :: s)))))) =
      some (.more b k b₁ b₂ x b' entries, rest) := by
  obtain ⟨hblank, hskip⟩ := readBlank_literal b k (b₁.chars ++ ':' ::
    (b₂.chars ++ (x.text ++ (b'.chars ++ ',' :: s))))
  obtain ⟨hblank₁, hskip₁⟩ := readBlank_append b₁ (c := ':') rfl
    (b₂.chars ++ (x.text ++ (b'.chars ++ ',' :: s)))
  obtain ⟨hblank₂, hskip₂⟩ := readBlank_literal b₂ x (b'.chars ++ ',' :: s)
  obtain ⟨hblank', hskip'⟩ := readBlank_append b' (c := ',') rfl s
  rw [literalEntries, if_neg (head?_literal_ne b k _ rfl), hskip, hk]
  simp [hblank, hblank₁, hskip₁, hblank₂, hskip₂, hx, hblank', hskip', hentries]

theorem literalEntries_last
    (hk : literal fuel (k.text ++ (b₁.chars ++ ':' ::
        (b₂.chars ++ (x.text ++ (b'.chars ++ '}' :: rest))))) =
      some (k, b₁.chars ++ ':' :: (b₂.chars ++ (x.text ++ (b'.chars ++ '}' :: rest)))))
    (hx : literal fuel (x.text ++ (b'.chars ++ '}' :: rest)) =
      some (x, b'.chars ++ '}' :: rest)) :
    literalEntries (fuel + 1) (b.chars ++ (k.text ++ (b₁.chars ++ ':' ::
        (b₂.chars ++ (x.text ++ (b'.chars ++ '}' :: rest)))))) =
      some (.last b k b₁ b₂ x b', rest) := by
  obtain ⟨hblank, hskip⟩ := readBlank_literal b k (b₁.chars ++ ':' ::
    (b₂.chars ++ (x.text ++ (b'.chars ++ '}' :: rest))))
  obtain ⟨hblank₁, hskip₁⟩ := readBlank_append b₁ (c := ':') rfl
    (b₂.chars ++ (x.text ++ (b'.chars ++ '}' :: rest)))
  obtain ⟨hblank₂, hskip₂⟩ := readBlank_literal b₂ x (b'.chars ++ '}' :: rest)
  obtain ⟨hblank', hskip'⟩ := readBlank_append b' (c := '}') rfl rest
  rw [literalEntries, if_neg (head?_literal_ne b k _ rfl), hskip, hk]
  simp [hblank, hblank₁, hskip₁, hblank₂, hskip₂, hx, hblank', hskip']

end

/-- A bracket that closes a list or a tuple. -/
theorem closeOf_spec (paren : Bool) : isEnding (closeOf paren) = true ∧
    isWs (closeOf paren) = false ∧ closeOf paren ≠ ',' := by
  cases paren <;> decide

theorem stops_closeOf (paren : Bool) (rest : List Char) : Stops (closeOf paren :: rest) := by
  cases paren <;> exact stops_cons rfl rfl rest

/-- A number is read up to the first character that it cannot take. -/
theorem literal_num (n : NumRun) {rest : List Char} (h : Stops rest) (fuel : Nat) :
    literal (fuel + 1) (n.chars ++ rest) = some (.num n, rest) := by
  obtain ⟨first, more, hbegins, hrun⟩ := n
  obtain ⟨htake, hdrop⟩ := takeWhile_of_stops h
  have hother : ∀ c : Char, beginsNumber c = false → first ≠ c := by
    intro c hc heq
    rw [← heq, hbegins] at hc
    cases hc
  have hnum : readNum hbegins (more ++ rest) = ⟨first, more, hbegins, hrun⟩ := by
    refine NumRun.ext rfl ?_
    show (more ++ rest).takeWhile isNumChar = more
    rw [List.takeWhile_append_of_pos hrun, htake, List.append_nil]
  show literal (fuel + 1) (first :: (more ++ rest)) = _
  rw [literal, if_neg (hother _ rfl), if_neg (hother _ rfl), if_neg (hother _ rfl),
    if_neg (hother _ rfl), if_neg (hother _ rfl), dif_pos hbegins, hnum,
    List.dropWhile_append_of_pos hrun, hdrop]

theorem literal_word (w : Word) {rest : List Char} (h : Stops rest) (fuel : Nat) :
    literal (fuel + 1) (w.name.toList ++ rest) = some (.word w, rest) := by
  have hword : literal (fuel + 1) (w.name.toList ++ rest) =
      (takeWord (w.name.toList ++ rest)).map fun p => (.word p.1, p.2) := by
    cases w <;> rfl
  rw [hword, takeWord_append w h]
  rfl

theorem literal_str (t : StrToken) (rest : List Char) (fuel : Nat) :
    literal (fuel + 1) (t.text ++ rest) = some (.str t, rest) := by
  have hstr : literal (fuel + 1) (quoteOf t.double :: (t.body ++ quoteOf t.double :: rest)) =
      (takeString t.double (t.body ++ quoteOf t.double :: rest)).map
        fun p => (.str p.1, p.2) := by
    cases t.double <;> rfl
  have htext : t.text ++ rest = quoteOf t.double :: (t.body ++ quoteOf t.double :: rest) := by
    simp [StrToken.text]
  rw [htext, hstr, takeString_append]
  rfl

theorem literal_seq (paren : Bool) (rest : List Char) (fuel : Nat) :
    literal (fuel + 1) (openOf paren :: rest) =
      (literalItems fuel (closeOf paren) rest).map fun p => (.seq paren p.1, p.2) := by
  cases paren <;> rfl

mutual

/-- **Every tree is read back from its text**, in front of anything that ends it. -/
theorem literal_text : ∀ (x : Literal) (fuel : Nat) {rest : List Char}, Stops rest →
    2 * x.text.length ≤ fuel → literal fuel (x.text ++ rest) = some (x, rest)
  | x, 0, _, _, hfuel => by
      have := x.text_length_pos
      omega
  | .word w, fuel + 1, _, h, _ => literal_word w h fuel
  | .num n, fuel + 1, _, h, _ => literal_num n h fuel
  | .str t, fuel + 1, rest, _, _ => literal_str t rest fuel
  | .seq paren items, fuel + 1, rest, _, hfuel => by
      simp only [Literal.text, List.length_cons, List.length_append, List.length_nil] at hfuel
      have hitems := literalItems_text items paren fuel rest (by omega)
      rw [Literal.text, List.cons_append, List.append_assoc, List.singleton_append, literal_seq,
        hitems]
      rfl
  | .dict entries, fuel + 1, rest, _, hfuel => by
      simp only [Literal.text, List.length_cons, List.length_append, List.length_nil] at hfuel
      have hentries := literalEntries_text entries fuel rest (by omega)
      have hdict : literal (fuel + 1) ('{' :: (entries.text ++ '}' :: rest)) =
          (literalEntries fuel (entries.text ++ '}' :: rest)).map fun p => (.dict p.1, p.2) := rfl
      rw [Literal.text, List.cons_append, List.append_assoc, List.singleton_append, hdict, hentries]
      rfl

theorem literalItems_text : ∀ (items : LiteralItems) (paren : Bool) (fuel : Nat)
    (rest : List Char), 2 * items.text.length + 2 ≤ fuel →
      literalItems fuel (closeOf paren) (items.text ++ closeOf paren :: rest) = some (items, rest)
  | _, _, 0, _, hfuel => by omega
  | .done b, paren, fuel + 1, _, _ => literalItems_done b (closeOf_spec paren).2.1
  | .last b x b', paren, fuel + 1, rest, hfuel => by
      obtain ⟨hending, hws, hcomma⟩ := closeOf_spec paren
      simp only [LiteralItems.text, List.length_append] at hfuel
      have hx := literal_text x fuel (stops_blank_append b' (stops_closeOf paren rest)) (by omega)
      simp only [LiteralItems.text, List.append_assoc]
      exact literalItems_last b b' hending hws hcomma hx
  | .more b x b' items, paren, fuel + 1, rest, hfuel => by
      have hending := (closeOf_spec paren).1
      simp only [LiteralItems.text, List.length_append, List.length_cons] at hfuel
      have hx := literal_text x fuel (stops_blank_append b'
        (stops_cons (c := ',') rfl rfl (items.text ++ closeOf paren :: rest))) (by omega)
      have hitems := literalItems_text items paren fuel rest (by omega)
      simp only [LiteralItems.text, List.append_assoc, List.cons_append]
      exact literalItems_more b b' hending hx hitems

theorem literalEntries_text : ∀ (entries : LiteralEntries) (fuel : Nat) (rest : List Char),
    2 * entries.text.length + 2 ≤ fuel →
      literalEntries fuel (entries.text ++ '}' :: rest) = some (entries, rest)
  | _, 0, _, hfuel => by omega
  | .done b, fuel + 1, _, _ => literalEntries_done b
  | .last b k b₁ b₂ x b', fuel + 1, rest, hfuel => by
      simp only [LiteralEntries.text, List.length_append, List.length_cons] at hfuel
      have hk := literal_text k fuel (stops_blank_append b₁ (stops_cons (c := ':') rfl rfl
        (b₂.chars ++ (x.text ++ (b'.chars ++ '}' :: rest))))) (by omega)
      have hx := literal_text x fuel (stops_blank_append b'
        (stops_cons (c := '}') rfl rfl rest)) (by omega)
      simp only [LiteralEntries.text, List.append_assoc, List.cons_append]
      exact literalEntries_last b b' b₁ b₂ hk hx
  | .more b k b₁ b₂ x b' entries, fuel + 1, rest, hfuel => by
      simp only [LiteralEntries.text, List.length_append, List.length_cons] at hfuel
      have hk := literal_text k fuel (stops_blank_append b₁ (stops_cons (c := ':') rfl rfl
        (b₂.chars ++ (x.text ++ (b'.chars ++ ',' :: (entries.text ++ '}' :: rest)))))) (by omega)
      have hx := literal_text x fuel (stops_blank_append b'
        (stops_cons (c := ',') rfl rfl (entries.text ++ '}' :: rest))) (by omega)
      have hentries := literalEntries_text entries fuel rest (by omega)
      simp only [LiteralEntries.text, List.append_assoc, List.cons_append]
      exact literalEntries_more b b' b₁ b₂ hk hx hentries

end

end Feloxi.Tasks
