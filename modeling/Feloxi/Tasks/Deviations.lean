import Feloxi.Tasks.PyLiterals

/-!
# Feloxi.Tasks.Deviations

Where the parser reads a numeral or a string as Python does. It drops underscores wherever they
stand, takes leading zeros, makes a float of an integer beyond `i64`, knows no octal escape but
`\0`, lets a plus sign stand for a hexadecimal digit, and takes line breaks within quotes.
-/

namespace Feloxi.Tasks

open Pipeline (SerdeJson)

/-! ### Strings -/

/-- Between quotes: no line break and no zero character, no octal digit behind `\0`, and no plus
sign for a digit. -/
def properBody : List Char → Bool
  | [] => true
  | c :: rest =>
    if c = '\\' then
      match rest with
      | [] => true
      | e :: rest =>
        !(e == '0' && rest.head?.any isOctal) &&
          (!((hexLength e).isSome && rest.head? == some '+') && properBody rest)
    else !isRaw c && properBody rest

theorem properBody_plain {c : Char} (hc : c ≠ '\\') (rest : List Char) :
    properBody (c :: rest) = (!isRaw c && properBody rest) := by
  conv => lhs; unfold properBody
  exact if_neg hc

theorem properBody_escape (e : Char) (rest : List Char) :
    properBody ('\\' :: e :: rest) = (!(e == '0' && rest.head?.any isOctal) &&
      (!((hexLength e).isSome && rest.head? == some '+') && properBody rest)) := by
  conv => lhs; unfold properBody
  rfl

theorem pyBody_drop (n : Nat) (s : List Char) : pyBody n s = pyBody 0 (s.drop n) := by
  induction s generalizing n with
  | nil => cases n <;> rfl
  | cons c s ih =>
      cases n with
      | zero => rfl
      | succ n => exact ih n

theorem pyBody_plain {c : Char} (hc : c ≠ '\\') (rest : List Char) :
    pyBody 0 (c :: rest) = if isRaw c then none else (pyBody 0 rest).map (c :: ·) := by
  conv => lhs; unfold pyBody
  exact if_neg hc

theorem pyBody_escape {s t : List Char} {n : Nat} (h : pyEscape s = some (t, n)) :
    pyBody 0 ('\\' :: s) = (pyBody 0 (s.drop n)).map (t ++ ·) := by
  conv => lhs; unfold pyBody
  rw [if_pos rfl, h, ← pyBody_drop]
  rfl

theorem pyBody_escape_none {s : List Char} (h : pyEscape s = none) :
    pyBody 0 ('\\' :: s) = none := by
  conv => lhs; unfold pyBody
  rw [if_pos rfl, h]
  rfl

/-- The letters of the parser are Python's, but for `\0`. -/
theorem pyEscape_simple {e d : Char} (h : simpleEscape e = some d) (he : e ≠ '0')
    (rest : List Char) : pyEscape (e :: rest) = some ([d], 1) := by
  unfold simpleEscape at h
  split at h
  case h_7 => exact absurd rfl he
  all_goals
    cases h
    try rfl

theorem hexLength_cases {e : Char} {n : Nat} (h : hexLength e = some n) :
    isOctal e = false ∧ pyLetter e = none ∧ e ≠ '0' ∧ 0 < n := by
  unfold hexLength at h
  split_ifs at h with hx hu hU
  · cases h
    rw [hx]
    decide
  · cases h
    rw [hu]
    decide
  · cases h
    rw [hU]
    decide

theorem pyEscape_hex {e d : Char} {n : Nat} {digits : List Char} (h : hexLength e = some n)
    (hlength : digits.length = n) (hd : hexChar digits = .ok d)
    (hdigits : ∀ c ∈ digits, (hexVal c).isSome) (rest : List Char) :
    pyEscape (e :: (digits ++ rest)) = some ([d], n + 1) := by
  obtain ⟨hoctal, hletter, -, -⟩ := hexLength_cases h
  have htake : (digits ++ rest).take n = digits := List.take_left' hlength
  simp only [pyEscape, hoctal, hletter, h, htake, hd]
  rw [if_neg (by simp), if_pos ⟨hlength, List.all_eq_true.2 hdigits⟩]
  rfl

theorem pyEscape_plus {e : Char} {n : Nat} (h : hexLength e = some n) (rest : List Char) :
    pyEscape (e :: '+' :: rest) = none := by
  obtain ⟨hoctal, hletter, -, hpos⟩ := hexLength_cases h
  obtain ⟨m, rfl⟩ : ∃ m, n = m + 1 := ⟨n - 1, by omega⟩
  have hplus : ¬ (('+' :: rest).take (m + 1)).all fun c => (hexVal c).isSome := by
    intro hall
    have := List.all_eq_true.1 hall '+' (by simp)
    cases this
  simp only [pyEscape, hoctal, hletter, h]
  rw [if_neg (by simp), if_neg fun hcond => hplus hcond.2]

/-- `\0` takes up to two more octal digits. -/
theorem pyEscape_zero (rest : List Char) :
    ∃ c, pyEscape ('0' :: rest) = some ([c], ((rest.takeWhile isOctal).take 2).length + 1) ∧
      (rest.head?.any isOctal = false → c = Char.ofNat 0 ∧
        (rest.takeWhile isOctal).take 2 = []) := by
  have htake : ('0' :: rest).takeWhile isOctal = '0' :: rest.takeWhile isOctal :=
    List.takeWhile_cons_of_pos rfl
  refine ⟨Char.ofNat (Nat.ofDigitChars 8 ('0' :: (rest.takeWhile isOctal).take 2) 0), ?_, ?_⟩
  · have hoctal : isOctal '0' = true := rfl
    simp only [pyEscape, hoctal, htake]
    rfl
  · intro hhead
    have hnil : rest.takeWhile isOctal = [] := by
      cases rest with
      | nil => rfl
      | cons d rest => exact List.takeWhile_cons_of_neg (by simpa using hhead)
    rw [hnil]
    exact ⟨rfl, rfl⟩

/-- An octal digit is itself to the parser. -/
theorem Spells.octal {quote c : Char} {u body : List Char} (h : Spells quote u (c :: body))
    (hc : isOctal c = true) : ∃ u', u = c :: u' ∧ Spells quote u' body := by
  have hbackslash : c ≠ '\\' := by
    intro heq
    rw [heq] at hc
    cases hc
  generalize hs : c :: body = s at h
  cases h with
  | nil => cases hs
  | cons h hrest =>
      cases h with
      | plain _ _ =>
          obtain ⟨hhead, htail⟩ := List.cons.inj hs
          rw [hhead, htail]
          exact ⟨_, rfl, hrest⟩
      | simple _ => exact absurd (List.cons.inj hs).1 hbackslash
      | hex _ _ _ => exact absurd (List.cons.inj hs).1 hbackslash

theorem Spells.drop_octal {quote : Char} (n : Nat) {u body : List Char} (h : Spells quote u body) :
    ((body.takeWhile isOctal).take n).length ≤ u.length ∧
      Spells quote (u.drop ((body.takeWhile isOctal).take n).length)
        (body.drop ((body.takeWhile isOctal).take n).length) := by
  induction n generalizing u body with
  | zero => exact ⟨Nat.zero_le _, h⟩
  | succ n ih =>
      cases body with
      | nil => exact ⟨Nat.zero_le _, h⟩
      | cons c body =>
          by_cases hc : isOctal c = true
          · obtain ⟨u', hu, h'⟩ := h.octal hc
            obtain ⟨hle, hdrop⟩ := ih h'
            rw [List.takeWhile_cons_of_pos hc, hu]
            exact ⟨Nat.succ_le_succ hle, hdrop⟩
          · rw [List.takeWhile_cons_of_neg hc]
            exact ⟨Nat.zero_le _, h⟩

/-- What Python makes of a text between quotes, beside what the parser does: the same, or less if
it takes digits behind a `\0`. It is the same exactly if the text is proper. -/
def Compared (u body : List Char) : Prop :=
  (∀ w, pyBody 0 body = some w → w = u ∨ Char.ofNat 0 ∈ u ∧ w.length < u.length) ∧
    (pyBody 0 body = some u ↔ properBody body = true)

theorem Compared.length_le {u body w : List Char} (h : Compared u body)
    (hw : pyBody 0 body = some w) : w.length ≤ u.length := by
  rcases h.1 w hw with heq | ⟨-, hlt⟩
  · rw [heq]
  · exact Nat.le_of_lt hlt

/-- A piece that Python reads as the same character. -/
theorem Compared.cons {c : Char} {u body t : List Char} (h : Compared u body)
    (hread : pyBody 0 (t ++ body) = (pyBody 0 body).map (c :: ·))
    (hproper : properBody (t ++ body) = properBody body) : Compared (c :: u) (t ++ body) := by
  constructor
  · intro w hw
    rw [hread] at hw
    obtain ⟨w', hw', hcons⟩ := Option.map_eq_some_iff.1 hw
    rw [← hcons]
    rcases h.1 w' hw' with heq | ⟨hmem, hlt⟩
    · exact .inl (by rw [heq])
    · exact .inr ⟨List.mem_cons_of_mem c hmem, Nat.succ_lt_succ hlt⟩
  · rw [hread, hproper, ← h.2]
    simp

/-- A piece that Python does not take. -/
theorem Compared.of_none {u body : List Char} (hread : pyBody 0 body = none)
    (hproper : properBody body = false) : Compared u body := by
  constructor
  · intro w hw
    rw [hread] at hw
    cases hw
  · simp [hread, hproper]

theorem properBody_digits {digits : List Char} (h : ∀ c ∈ digits, (hexVal c).isSome)
    (rest : List Char) : properBody (digits ++ rest) = properBody rest := by
  induction digits with
  | nil => rfl
  | cons c digits ih =>
      have hc : (hexVal c).isSome := h c List.mem_cons_self
      have hbackslash : c ≠ '\\' := by
        intro heq
        rw [heq] at hc
        cases hc
      have hraw : isRaw c = false := by
        rw [Bool.eq_false_iff]
        intro hraw
        simp only [isRaw, Bool.or_eq_true, beq_iff_eq] at hraw
        rcases hraw with (heq | heq) | heq
        · rw [heq] at hc
          cases hc
        · rw [heq] at hc
          cases hc
        · have hzero : c = Char.ofNat 0 := by rw [← heq, Char.ofNat_toNat]
          rw [hzero] at hc
          cases hc
      rw [List.cons_append, properBody_plain hbackslash, hraw,
        ih fun d hd => h d (List.mem_cons_of_mem c hd)]
      rfl

/-- `\0` in front of a text. -/
theorem compared_zero {quote : Char} {u body : List Char} (h : Spells quote u body)
    (ih : ∀ u' body', body'.length ≤ body.length → Spells quote u' body' → Compared u' body') :
    Compared (Char.ofNat 0 :: u) ('\\' :: '0' :: body) := by
  obtain ⟨c, hescape, hzero⟩ := pyEscape_zero body
  obtain ⟨hle, hdrop⟩ := h.drop_octal 2
  have hread := pyBody_escape hescape
  rw [List.drop_succ_cons] at hread
  by_cases hhead : body.head?.any isOctal = true
  · -- Python takes the digits, so that its text is shorter
    have hproper : properBody ('\\' :: '0' :: body) = false := by
      rw [properBody_escape, hhead]
      rfl
    have hpos : 0 < ((body.takeWhile isOctal).take 2).length := by
      cases body with
      | nil => cases hhead
      | cons d body =>
          rw [List.takeWhile_cons_of_pos (by simpa using hhead)]
          exact Nat.succ_pos _
    have hshort : ∀ w, pyBody 0 ('\\' :: '0' :: body) = some w →
        w.length < (Char.ofNat 0 :: u).length := by
      intro w hw
      rw [hread] at hw
      obtain ⟨w', hw', hcons⟩ := Option.map_eq_some_iff.1 hw
      have hlength := (ih _ _ (by simp) hdrop).length_le hw'
      rw [List.length_drop] at hlength
      rw [← hcons, List.length_append, List.length_singleton, List.length_cons]
      omega
    refine ⟨fun w hw => .inr ⟨List.mem_cons_self, hshort w hw⟩, ?_⟩
    rw [hproper]
    refine ⟨fun hw => absurd (hshort _ hw) (lt_irrefl _), fun hfalse => by cases hfalse⟩
  · rw [Bool.not_eq_true] at hhead
    obtain ⟨hc, hnil⟩ := hzero hhead
    rw [hnil, hc] at hread
    refine (ih u body le_rfl h).cons (t := ['\\', '0']) hread ?_
    rw [List.cons_append, List.cons_append, List.nil_append, properBody_escape, hhead]
    rfl

theorem compared_plain {c : Char} {u body : List Char} (hplain : c ≠ '\\')
    (h : Compared u body) : Compared (c :: u) (c :: body) := by
  cases hraw : isRaw c with
  | true =>
      refine .of_none ?_ ?_
      · rw [pyBody_plain hplain, hraw]
        rfl
      · rw [properBody_plain hplain, hraw]
        rfl
  | false =>
      refine h.cons (t := [c]) ?_ ?_
      · rw [List.singleton_append, pyBody_plain hplain, hraw]
        rfl
      · rw [List.singleton_append, properBody_plain hplain, hraw]
        rfl

/-- An escape of one letter other than `\0`. -/
theorem compared_simple {e c : Char} {u body : List Char} (hsimple : simpleEscape e = some c)
    (he : e ≠ '0') (h : Compared u body) : Compared (c :: u) ('\\' :: e :: body) := by
  have hlength : hexLength e = none := by
    unfold simpleEscape at hsimple
    split at hsimple <;> first | rfl | cases hsimple
  refine h.cons (t := ['\\', e]) ?_ ?_
  · exact pyBody_escape (pyEscape_simple hsimple he body)
  · simp [properBody_escape, he, hlength]

/-- An escape of hexadecimal digits, in front of which the parser takes a plus sign. -/
theorem compared_hex {e c : Char} {n : Nat} {digits u body : List Char}
    (hn : hexLength e = some n) (hlength : digits.length = n) (hd : hexChar digits = .ok c)
    (h : Compared u body) : Compared (c :: u) ('\\' :: e :: (digits ++ body)) := by
  obtain ⟨-, -, he, hpos⟩ := hexLength_cases hn
  rcases digits_of_hexChar hd with ⟨more, hplus, -⟩ | hdigits
  · rw [hplus]
    refine .of_none (pyBody_escape_none (pyEscape_plus hn _)) ?_
    simp [properBody_escape, hn]
  · have hhead : (digits ++ body).head? ≠ some '+' := by
      cases digits with
      | nil =>
          rw [List.length_nil] at hlength
          omega
      | cons d digits =>
          intro heq
          have hd := hdigits d List.mem_cons_self
          rw [Option.some.inj heq] at hd
          cases hd
    refine h.cons (t := '\\' :: e :: digits) ?_ ?_
    · have hescape := pyBody_escape (pyEscape_hex hn hlength hd hdigits body)
      rw [List.drop_succ_cons, List.drop_left' hlength] at hescape
      exact hescape
    · show properBody ('\\' :: e :: (digits ++ body)) = _
      have he' : (e == '0') = false := by simpa using he
      have hhead' : ((digits ++ body).head? == some '+') = false := beq_eq_false_iff_ne.2 hhead
      rw [properBody_escape, properBody_digits hdigits, he', hhead', Bool.and_false]
      rfl

/-- **Strings**: what Python makes of a text between quotes is what the parser does exactly if the
text is proper. -/
theorem compared_of_spells {quote : Char} {u body : List Char} (h : Spells quote u body) :
    Compared u body := by
  induction hlen : body.length using Nat.strong_induction_on generalizing u body with
  | _ n ih =>
      cases h with
      | nil => exact ⟨fun w hw => .inl (Option.some.inj hw).symm, by decide⟩
      | cons hstands hrest =>
          rename_i c u t body
          rw [List.length_append] at hlen
          cases hstands with
          | plain _ hplain =>
              exact compared_plain hplain (ih body.length (by rw [← hlen]; simp) hrest rfl)
          | simple hsimple =>
              rename_i e
              by_cases he : e = '0'
              · subst he
                cases hsimple
                refine compared_zero hrest fun u' body' hle hspells => ?_
                have hle' : body'.length ≤ body.length := hle
                simp only [List.length_cons, List.length_nil] at hlen
                exact ih body'.length (by omega) hspells rfl
              · exact compared_simple hsimple he
                  (ih body.length (by rw [← hlen]; simp) hrest rfl)
          | hex hn hlength hd =>
              exact compared_hex hn hlength hd (ih body.length (by rw [← hlen]; simp) hrest rfl)

/-! ### Numerals -/

namespace NumRun

variable {n : NumRun} {v : Json}

/-- Underscores between digits only, and an integer without leading zeros and within `i64`. -/
def IsProper (n : NumRun) : Prop :=
  underscoresSeparate false n.chars = true ∧ ∀ k, digits? n.digits = some k →
    ¬ (n.digits.head? = some '0' ∧ k ≠ 0) ∧ IsI64 (n.signed k)

theorem parseI64_plain (n : NumRun) :
    parseI64 n.plain =
      (digits? n.digits).bind fun k => if IsI64 (n.signed k) then some (n.signed k) else none := rfl

/-- A number is an integer within `i64`, or else a float. -/
theorem value_cases (h : n.value = some v) :
    (∃ k, digits? n.digits = some k ∧ IsI64 (n.signed k) ∧ v = .int (n.signed k)) ∨
      ∃ q, parseF64 n.plain = some q ∧ v = .float (.fin q) ∧
        ∀ k, digits? n.digits = some k → ¬ IsI64 (n.signed k) := by
  have hall : ∀ c ∈ n.chars, isNumChar c = true :=
    List.forall_mem_cons.2 ⟨isNumChar_of_begins n.begins, n.run⟩
  have htake : n.chars.takeWhile isNumChar = n.chars := List.takeWhile_eq_self_iff.2 hall
  have hplain : n.chars.filter (· != '_') = n.plain := rfl
  unfold NumRun.value number at h
  dsimp only at h
  rw [htake, hplain] at h
  split at h
  · cases h
  · split at h
    · rename_i m hm
      rw [parseI64_plain] at hm
      obtain ⟨k, hk, hrange⟩ := Option.bind_eq_some_iff.1 hm
      split at hrange
      · rename_i hi64
        cases hrange
        cases h
        exact .inl ⟨k, hk, hi64, rfl⟩
      · cases hrange
    · rename_i hnone
      split at h
      · rename_i q hq
        split at h
        · cases h
          refine .inr ⟨q, hq, rfl, fun k hk hi64 => ?_⟩
          rw [parseI64_plain, hk, Option.bind_some, if_pos hi64] at hnone
          cases hnone
        · cases h
      · cases h

/-- **Numerals**: a number is read as Python reads it exactly if the numeral is proper. -/
theorem exact_iff (serde : SerdeJson) (h : n.value = some v) :
    n.python.bind (PyObject.toJson serde) = some v ↔ n.IsProper := by
  unfold python IsProper
  rcases value_cases h with ⟨k, hk, hi64, hv⟩ | ⟨q, hq, hv, hnot⟩
  · rw [hv, hk]
    dsimp only
    by_cases hsep : underscoresSeparate false n.chars = true
    · by_cases hzero : n.digits.head? = some '0' ∧ k ≠ 0
      · simp [hsep, hzero]
      · rw [if_pos hsep, if_neg hzero]
        refine ⟨fun _ => ⟨hsep, fun k' hk' => ?_⟩, fun _ => by simp [PyObject.toJson]⟩
        cases hk'
        exact ⟨hzero, hi64⟩
    · simp [hsep]
  · cases hdigits : digits? n.digits with
    | none => cases hsep : underscoresSeparate false n.chars <;> simp [hq, hv, PyObject.toJson]
    | some k =>
        -- an integer that is read as a float
        have hrange := hnot k hdigits
        refine ⟨fun heq => ?_, fun hproper => absurd (hproper.2 k rfl).2 hrange⟩
        exfalso
        rw [hv] at heq
        dsimp only at heq
        split_ifs at heq
        · cases heq
        · simp [PyObject.toJson] at heq
        · cases heq

end NumRun

end Feloxi.Tasks
