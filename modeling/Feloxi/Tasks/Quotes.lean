import Feloxi.Tasks.PyRepr
import Feloxi.Tasks.SafeRepr

/-!
# Feloxi.Tasks.Quotes

Where the parser is in a printed text. Python prints a backslash of a string as it is, so
the parser may take the closing quote of a string for a part of it, or an escaped quote
for its end. It is then inside quotes where the text is outside and the other way round,
and so it stays to the end of the text, where it fails.
-/

namespace Feloxi.Tasks

open Pipeline (SerdeJson)
open PyValue (escape)

/-- A character that stands outside quotes only to open them, or never. -/
def isQuoting (c : Char) : Bool := c == '\'' || c == '"' || c == '\\'

mutual

/-- The rest of a printed text, from a place outside the quotes. -/
inductive Outside : List Char → Prop
  | nil : Outside []
  | plain {c : Char} {rest : List Char} : isQuoting c = false → Outside rest → Outside (c :: rest)
  | opening {rest : List Char} : Inside rest → Outside ('\'' :: rest)

/-- The rest of a printed text, from a place inside the quotes. -/
inductive Inside : List Char → Prop
  | char {c : Char} {rest : List Char} : c ≠ '\'' → Inside rest → Inside (c :: rest)
  | escaped {rest : List Char} : Inside rest → Inside ('\\' :: '\'' :: rest)
  | closing {rest : List Char} : Outside rest → Inside ('\'' :: rest)

end

theorem not_inside_nil : ¬ Inside [] := fun h => nomatch h

theorem Outside.tail {c : Char} {rest : List Char} (h : Outside (c :: rest)) (hc : c ≠ '\'') :
    isQuoting c = false ∧ Outside rest := by
  cases h with
  | plain hplain hrest => exact ⟨hplain, hrest⟩
  | opening _ => exact absurd rfl hc

theorem Outside.inside {rest : List Char} (h : Outside ('\'' :: rest)) : Inside rest := by
  cases h with
  | plain hplain _ => cases hplain
  | opening hrest => exact hrest

theorem Inside.tail {c : Char} {rest : List Char} (h : Inside (c :: rest)) (hc : c ≠ '\'')
    (hplain : c ≠ '\\') : Inside rest := by
  cases h with
  | char _ hrest => exact hrest
  | escaped _ => exact absurd rfl hplain
  | closing _ => exact absurd rfl hc

theorem Inside.outside {rest : List Char} (h : Inside ('\'' :: rest)) : Outside rest := by
  cases h with
  | char hc _ => exact absurd rfl hc
  | closing hrest => exact hrest

/-- A text without quotes between two places outside. -/
theorem Outside.append {s rest : List Char} (hs : (s.all fun c => !isQuoting c) = true)
    (hrest : Outside rest) : Outside (s ++ rest) := by
  induction s with
  | nil => exact hrest
  | cons c s ih =>
      rw [List.all_cons, Bool.and_eq_true, Bool.not_eq_true'] at hs
      exact .plain hs.1 (ih hs.2)

theorem Inside.append_escape (s : List Char) {rest : List Char} (hrest : Inside rest) :
    Inside (escape s ++ rest) := by
  induction s with
  | nil => exact hrest
  | cons c s ih =>
      by_cases hc : c = '\''
      · subst hc
        exact .escaped ih
      · have hescape : escape (c :: s) = c :: escape s := by simp [escape, hc]
        rw [hescape]
        exact .char hc ih

/-- A string between its quotes. -/
theorem Outside.append_quote (s : String) {rest : List Char} (hrest : Outside rest) :
    Outside (PyValue.quote s ++ rest) := by
  rw [PyValue.quote, List.cons_append, List.append_assoc]
  exact .opening (Inside.append_escape _ (.closing hrest))

/-! ### A parser that is lost -/

/-- A call that fails, or comes to an end inside the quotes of the text. -/
def Lost {α : Type} (r : Parsed α) : Prop := ∀ v rest, r = .ok (v, rest) → Inside rest

theorem lost_error {α : Type} (e : ReprError) : Lost (.error e : Parsed α) := nofun

theorem lost_ok {α : Type} (v : α) {rest : List Char} (h : Inside rest) : Lost (.ok (v, rest)) := by
  rintro v' rest' ⟨⟩
  exact h

theorem Lost.map {α β : Type} {r : Parsed α} (h : Lost r) (f : α → β) :
    Lost (r.map fun p => (f p.1, p.2)) := by
  cases r with
  | error e => exact lost_error e
  | ok p => exact lost_ok _ (h p.1 p.2 rfl)

theorem Lost.bind {α β : Type} {r : Parsed α} {k : α × List Char → Parsed β} (h : Lost r)
    (hk : ∀ v rest, Inside rest → Lost (k (v, rest))) : Lost (r.bind k) := by
  cases r with
  | error e => exact lost_error e
  | ok p => exact hk p.1 p.2 (h p.1 p.2 rfl)

/-- The rest of a text that is printed up to some place, inside the quotes or outside. -/
def Printing (s : List Char) : Prop := Inside s ∨ Outside s

theorem Printing.tail {c : Char} {s : List Char} (h : Printing (c :: s)) : Printing s := by
  rcases h with h | h
  · cases h with
    | char _ hs => exact .inl hs
    | escaped hs => exact .inr (.opening hs)
    | closing hs => exact .inr hs
  · cases h with
    | plain _ hs => exact .inr hs
    | opening hs => exact .inl hs

theorem Printing.suffix {s rest : List Char} (h : Printing s) (hrest : rest <:+ s) :
    Printing rest := by
  induction s with
  | nil =>
      rw [List.suffix_nil.1 hrest]
      exact h
  | cons c s ih =>
      rcases List.suffix_cons_iff.1 hrest with rfl | hrest
      · exact h
      · exact ih h.tail hrest

/-- Double quotes are a part of printed strings only. -/
theorem lost_stringBody_double (s : List Char) (h : Printing s) : Lost (stringBody '"' s) := by
  induction hlen : s.length using Nat.strong_induction_on generalizing s with
  | _ n ih =>
      cases s with
      | nil => exact lost_error _
      | cons c rest =>
          rw [List.length_cons] at hlen
          by_cases hclose : c = '"'
          · subst hclose
            rw [stringBody_quote]
            refine lost_ok _ ?_
            rcases h with h | h
            · exact h.tail (by decide) (by decide)
            · cases (h.tail (by decide)).1
          · by_cases hplain : c = '\\'
            · subst hplain
              rw [stringBody_backslash (by decide)]
              cases hescape : escapeChar rest with
              | error e => exact lost_error e
              | ok p =>
                  obtain ⟨hsuffix, hlt⟩ := suffix_of_escapeChar hescape
                  exact (ih _ (by omega) p.2 (h.tail.suffix hsuffix) rfl).map (p.1 :: ·)
            · rw [stringBody_plain hclose hplain]
              exact (ih _ (by omega) rest h.tail rfl).map (c :: ·)

/-- A single quote that closes a printed string, taken for one that opens a string. -/
theorem lost_stringBody_single (s : List Char) (h : Outside s) : Lost (stringBody '\'' s) := by
  induction s with
  | nil => exact lost_error _
  | cons c rest ih =>
      by_cases hquote : c = '\''
      · subst hquote
        rw [stringBody_quote]
        exact lost_ok _ h.inside
      · obtain ⟨hplain, hrest⟩ := h.tail hquote
        have hbackslash : c ≠ '\\' := by
          rintro rfl
          cases hplain
        rw [stringBody_plain hquote hbackslash]
        exact (ih hrest).map (c :: ·)

/-! ### It stays lost -/

theorem Inside.dropWhile {s : List Char} (h : Inside s) {p : Char → Bool} (hquote : p '\'' = false)
    (hbackslash : p '\\' = false) : Inside (s.dropWhile p) := by
  induction s with
  | nil => exact h
  | cons c s ih =>
      cases hc : p c with
      | false =>
          rw [List.dropWhile_cons_of_neg (by rw [hc]; decide)]
          exact h
      | true =>
          rw [List.dropWhile_cons_of_pos hc]
          refine ih (h.tail ?_ ?_)
          · rintro rfl
            rw [hquote] at hc
            cases hc
          · rintro rfl
            rw [hbackslash] at hc
            cases hc

theorem Inside.ws {s : List Char} (h : Inside s) : Inside (ws s) :=
  h.dropWhile rfl rfl

theorem Inside.drop {s kw : List Char} (h : Inside s) (hlead : kw <+: s)
    (hkw : ∀ c ∈ kw, c ≠ '\'' ∧ c ≠ '\\') : Inside (s.drop kw.length) := by
  induction kw generalizing s with
  | nil => exact h
  | cons c kw ih =>
      obtain ⟨more, rfl⟩ := hlead
      obtain ⟨hquote, hbackslash⟩ := hkw c List.mem_cons_self
      exact ih (h.tail hquote hbackslash) (List.prefix_append _ _)
        fun d hd => hkw d (List.mem_cons_of_mem _ hd)

theorem lost_number {s : List Char} (h : Inside s) : Lost (number s) := by
  have hrest : Inside (s.dropWhile isNumChar) := h.dropWhile rfl rfl
  unfold number
  dsimp only
  split
  · exact lost_error _
  · split
    · exact lost_ok _ hrest
    · split
      · split
        · exact lost_ok _ hrest
        · exact lost_error _
      · exact lost_error _

theorem inside_keyword {kw : String} {s rest : List Char} (h : Inside s)
    (hkw : (kw.toList.all fun c => c != '\'' && c != '\\') = true)
    (hread : keyword kw s = some rest) : Inside rest := by
  have hchars : ∀ c ∈ kw.toList, c ≠ '\'' ∧ c ≠ '\\' := fun c hc => by
    simpa using List.all_eq_true.1 hkw c hc
  unfold keyword at hread
  dsimp only at hread
  split at hread
  · rename_i hcond
    rw [Bool.and_eq_true] at hcond
    rw [← Option.some.inj hread]
    exact h.drop (List.isPrefixOf_iff_prefix.1 hcond.1) hchars
  · cases hread

theorem lost_keywordValue {s : List Char} (h : Inside s) : Lost (keywordValue s) := by
  unfold keywordValue
  split
  · rename_i hread
    exact lost_ok _ (inside_keyword h (by decide) hread)
  · split
    · rename_i hread
      exact lost_ok _ (inside_keyword h (by decide) hread)
    · split
      · rename_i hread
        exact lost_ok _ (inside_keyword h (by decide) hread)
      · exact lost_error _

/-- The rest after a character other than a quote is still inside. -/
theorem inside_tail_ws {c : Char} {s : List Char} (h : Inside s) (hquote : c ≠ '\'')
    (hbackslash : c ≠ '\\') (hhead : (ws s).head? = some c) : Inside (ws s).tail := by
  have hws := h.ws
  cases heq : ws s with
  | nil => rw [heq] at hhead; cases hhead
  | cons d rest =>
      rw [heq] at hhead hws
      cases hhead
      exact hws.tail hquote hbackslash

/-- The three calls are lost with this much fuel. -/
structure StaysLost (serde : SerdeJson) (fuel : Nat) : Prop where
  value : ∀ s, Inside s → Lost (value serde fuel s)
  items : ∀ close s, close ≠ '\'' → close ≠ '\\' → Inside s → Lost (items serde fuel close s)
  dict : ∀ s, Inside s → Lost (dict serde fuel s)

namespace StaysLost

variable {serde : SerdeJson} {fuel : Nat}

theorem itemsTail (h : StaysLost serde fuel) {close : Char} {s : List Char} (hquote : close ≠ '\'')
    (hbackslash : close ≠ '\\') (hs : Inside s) : Lost (itemsTail serde fuel close s) := by
  have hws := hs.ws
  unfold Tasks.itemsTail
  split
  · exact lost_error _
  · rename_i c rest heq
    rw [heq] at hws
    split
    · rename_i hcomma
      subst hcomma
      exact h.items close rest hquote hbackslash (hws.tail (by decide) (by decide))
    · split
      · rename_i hclose
        subst hclose
        exact lost_ok _ (hws.tail hquote hbackslash)
      · exact lost_error _

theorem dictTail (h : StaysLost serde fuel) {s : List Char} (hs : Inside s) :
    Lost (dictTail serde fuel s) := by
  have hws := hs.ws
  unfold Tasks.dictTail
  split
  · exact lost_error _
  · rename_i c rest heq
    rw [heq] at hws
    split
    · rename_i hcomma
      subst hcomma
      exact h.dict rest (hws.tail (by decide) (by decide))
    · split
      · rename_i hclose
        subst hclose
        exact lost_ok _ (hws.tail (by decide) (by decide))
      · exact lost_error _

theorem entryTail (h : StaysLost serde fuel) (key : String) {s : List Char} (hs : Inside s) :
    Lost (entryTail serde fuel key s) := by
  unfold Tasks.entryTail
  split
  · rename_i hcolon
    exact (h.value _ (inside_tail_ws (c := ':') hs (by decide) (by decide) hcolon)).bind
      fun v rest hrest => (h.dictTail hrest).map ((key, v) :: ·)
  · exact lost_error _

end StaysLost

/-- **Once lost, always lost.** -/
theorem staysLost (serde : SerdeJson) (fuel : Nat) : StaysLost serde fuel := by
  induction fuel with
  | zero => exact ⟨fun _ _ => lost_error _, fun _ _ _ _ _ => lost_error _, fun _ _ => lost_error _⟩
  | succ fuel ih =>
      refine ⟨?_, ?_, ?_⟩
      · intro s hs
        have hws := hs.ws
        unfold value
        split
        · rename_i rest heq
          rw [heq] at hws
          exact (ih.items ']' rest (by decide) (by decide)
            (hws.tail (by decide) (by decide))).map Json.arr
        · rename_i rest heq
          rw [heq] at hws
          exact (ih.items ')' rest (by decide) (by decide)
            (hws.tail (by decide) (by decide))).map Json.arr
        · rename_i rest heq
          rw [heq] at hws
          exact (ih.dict rest (hws.tail (by decide) (by decide))).map Json.ofEntries
        · rename_i rest heq
          rw [heq] at hws
          exact (lost_stringBody_single rest hws.outside).map fun t => Json.str (String.ofList t)
        · rename_i rest heq
          rw [heq] at hws
          exact (lost_stringBody_double rest (.inl (hws.tail (by decide) (by decide)))).map
            fun t => Json.str (String.ofList t)
        · rename_i heq
          rw [heq] at hws
          exact absurd hws not_inside_nil
        · rename_i c rest _ _ _ _ _ heq
          rw [heq] at hws
          split
          · exact lost_number hws
          · exact lost_keywordValue hws
      · intro close s hquote hbackslash hs
        by_cases hclose : (ws s).head? = some close
        · rw [items_of_close serde fuel hclose]
          exact lost_ok _ (inside_tail_ws hs hquote hbackslash hclose)
        · rw [items_of_value serde fuel hclose]
          exact (ih.value s hs).bind
            fun v rest hrest => (ih.itemsTail hquote hbackslash hrest).map (v :: ·)
      · intro s hs
        by_cases hclose : (ws s).head? = some '}'
        · rw [dict_of_close serde fuel hclose]
          exact lost_ok _ (inside_tail_ws (c := '}') hs (by decide) (by decide) hclose)
        · rw [dict_of_key serde fuel hclose]
          refine (ih.value s hs).bind fun v rest hrest => ?_
          split
          · exact lost_error _
          · exact ih.entryTail _ hrest

end Feloxi.Tasks
