import Feloxi.Lib.JsonText

/-!
# Feloxi.Lib.JsonEscapes

Characters of a JSON text written as `\uXXXX`, without reading the text. A character that has no
meaning in JSON itself stands in strings only, and not behind a backslash; so the text is read as
it was (`Respelled.parse`).
-/

namespace Feloxi.JsonText

/-- A character that stands outside of strings, or in an escape. -/
def isSyntax (c : Char) : Bool :=
  c.isDigit || isSpace c || (hexValue c).isSome || (shortEscape c).isSome ||
    decide (c ∈ ['[', ']', '\x7b', '\x7d', ',', ':', '-', '+', '.', 'E', 'l', 's', 'u'])

/-- The second text is the first, with codes for some characters without meaning. -/
inductive Respelled : List Char → List Char → Prop where
  | nil : Respelled [] []
  | same (c : Char) {s s' : List Char} : Respelled s s' → Respelled (c :: s) (c :: s')
  | code {c h₁ h₂ h₃ h₄ : Char} {s s' : List Char} (hout : isSyntax c = false)
      (hcode : hex4 h₁ h₂ h₃ h₄ = some c.toNat) :
      Respelled s s' → Respelled (c :: s) ('\\' :: 'u' :: h₁ :: h₂ :: h₃ :: h₄ :: s')

/-- What the one reader reads, the other reads in any other spelling. -/
def Follows {α : Type} (read read' : List Char → Option (α × List Char)) : Prop :=
  ∀ {s s' : List Char} {a : α} {rest : List Char}, Respelled s s' → read s = some (a, rest) →
    ∃ rest', read' s' = some (a, rest') ∧ Respelled rest rest'

/-- A reader may go on with what it has read. -/
theorem Follows.map {α β : Type} {read read' : List Char → Option (α × List Char)} (f : α → β)
    (h : Follows read read') :
    Follows (fun s => (read s).map fun p => (f p.1, p.2))
      (fun s => (read' s).map fun p => (f p.1, p.2)) := by
  intro s s' b rest hs hmap
  obtain ⟨⟨a, rest₁⟩, hread, heq⟩ := Option.map_eq_some_iff.1 hmap
  cases heq
  obtain ⟨rest', hread', hrest⟩ := h hs hread
  exact ⟨rest', by simp only [hread', Option.map_some], hrest⟩

namespace Respelled

theorem refl (s : List Char) : Respelled s s := by
  induction s with
  | nil => exact .nil
  | cons c s ih => exact .same c ih

theorem append {s s' t t' : List Char} (hs : Respelled s s') (ht : Respelled t t') :
    Respelled (s ++ t) (s' ++ t') := by
  induction hs with
  | nil => exact ht
  | same c _ ih => exact .same c ih
  | code hout hcode _ ih => exact .code hout hcode ih

/-- Some characters replaced by their codes. -/
theorem of_flatMap {f : Char → List Char}
    (h : ∀ c, f c = [c] ∨ isSyntax c = false ∧ ∃ h₁ h₂ h₃ h₄,
      f c = ['\\', 'u', h₁, h₂, h₃, h₄] ∧ hex4 h₁ h₂ h₃ h₄ = some c.toNat) (s : List Char) :
    Respelled s (s.flatMap f) := by
  induction s with
  | nil => exact .nil
  | cons c s ih =>
      rw [List.flatMap_cons]
      rcases h c with hsame | ⟨hout, h₁, h₂, h₃, h₄, hcode, hvalue⟩
      · rw [hsame]
        exact .same c ih
      · rw [hcode]
        exact .code hout hvalue ih

theorem length_le {s s' : List Char} (h : Respelled s s') : s.length ≤ s'.length := by
  induction h with
  | nil => exact Nat.le_refl 0
  | same c _ ih => exact Nat.succ_le_succ ih
  | code _ _ _ ih =>
      simp only [List.length_cons]
      omega

theorem eq_nil {t : List Char} (h : Respelled [] t) : t = [] := by
  cases h
  rfl

/-- A character with a meaning stays. -/
theorem of_cons {c : Char} {s t : List Char} (h : Respelled (c :: s) t) (hc : isSyntax c = true) :
    ∃ s', t = c :: s' ∧ Respelled s s' := by
  cases h with
  | same _ h => exact ⟨_, rfl, h⟩
  | code hout => simp [hc] at hout

/-- No character with a meaning is put in front. -/
theorem not_cons {k : Char} (hk : k ≠ '\\') {s s' : List Char} (h : Respelled s s')
    (hs : ∀ t, s ≠ k :: t) : ∀ t, s' ≠ k :: t := by
  rintro t rfl
  cases h with
  | same _ h => exact hs _ rfl
  | code => exact hk rfl

/-- Either way, the text starts with a character of its own or it does not. -/
theorem starts_cases {k : Char} (hk : isSyntax k = true) (hslash : k ≠ '\\') {s s' : List Char}
    (h : Respelled s s') :
    (∃ t t', s = k :: t ∧ s' = k :: t' ∧ Respelled t t') ∨
      (∀ t, s ≠ k :: t) ∧ ∀ t, s' ≠ k :: t := by
  by_cases hs : ∃ t, s = k :: t
  · obtain ⟨t, rfl⟩ := hs
    obtain ⟨t', rfl, ht⟩ := h.of_cons hk
    exact .inl ⟨t, t', rfl, rfl, ht⟩
  · rw [not_exists] at hs
    exact .inr ⟨hs, h.not_cons hslash hs⟩

/-! ### Outside of strings -/

section Spans

variable {p : Char → Bool} (hmeant : ∀ c, p c = true → isSyntax c = true) (hslash : p '\\' = false)
include hmeant hslash

theorem takeWhile_eq {s s' : List Char} (h : Respelled s s') :
    s'.takeWhile p = s.takeWhile p := by
  induction h with
  | nil => rfl
  | same c _ ih => simp only [List.takeWhile_cons, ih]
  | @code c _ _ _ _ s s' hout _ _ ih =>
      have hc : p c = false := by
        by_contra hc
        rw [hmeant c (by simpa using hc)] at hout
        cases hout
      simp [hc, hslash]

theorem dropWhile {s s' : List Char} (h : Respelled s s') :
    Respelled (s.dropWhile p) (s'.dropWhile p) := by
  induction h with
  | nil => exact .nil
  | @same c s s' h ih =>
      by_cases hc : p c = true
      · rw [List.dropWhile_cons_of_pos hc, List.dropWhile_cons_of_pos hc]
        exact ih
      · rw [List.dropWhile_cons_of_neg hc, List.dropWhile_cons_of_neg hc]
        exact .same c h
  | @code c _ _ _ _ s s' hout hcode h ih =>
      have hc : ¬ p c = true := by
        intro hc
        rw [hmeant c hc] at hout
        cases hout
      rw [List.dropWhile_cons_of_neg hc, List.dropWhile_cons_of_neg (by simp [hslash])]
      exact .code hout hcode h

end Spans

theorem skip {s s' : List Char} (h : Respelled s s') :
    Respelled (JsonText.skip s) (JsonText.skip s') :=
  h.dropWhile (fun c hc => by simp [isSyntax, hc]) rfl

end Respelled

theorem follows_takeDigits : Follows takeDigits takeDigits := by
  intro s s' d rest hs h
  have hdigit : ∀ c, c.isDigit = true → isSyntax c = true := fun c hc => by simp [isSyntax, hc]
  have htake := hs.takeWhile_eq hdigit rfl
  unfold takeDigits at h
  split at h
  · cases h
  · rename_i hne
    cases h
    refine ⟨s'.dropWhile Char.isDigit, ?_, hs.dropWhile hdigit rfl⟩
    simp only [takeDigits, htake, dif_neg hne]

theorem takeSign_of_ne {s : List Char} (h : ∀ t, s ≠ '-' :: t) : takeSign s = (false, s) := by
  unfold takeSign
  split
  · exact absurd rfl (h _)
  · rfl

theorem Respelled.takeSign {s s' : List Char} (h : Respelled s s') :
    (JsonText.takeSign s').1 = (JsonText.takeSign s).1 ∧
      Respelled (JsonText.takeSign s).2 (JsonText.takeSign s').2 := by
  rcases h.starts_cases (k := '-') rfl (by decide) with ⟨t, t', rfl, rfl, ht⟩ | ⟨hne, hne'⟩
  · exact ⟨rfl, ht⟩
  · rw [takeSign_of_ne hne, takeSign_of_ne hne']
    exact ⟨rfl, h⟩

theorem takeFrac_of_ne {s : List Char} (h : ∀ t, s ≠ '.' :: t) : takeFrac s = some (none, s) := by
  unfold takeFrac
  split
  · exact absurd rfl (h _)
  · rfl

theorem follows_takeFrac : Follows takeFrac takeFrac := by
  intro s s' frac rest hs h
  rcases hs.starts_cases (k := '.') rfl (by decide) with ⟨t, t', rfl, rfl, ht⟩ | ⟨hne, hne'⟩
  · exact follows_takeDigits.map some ht h
  · rw [takeFrac_of_ne hne] at h
    cases h
    exact ⟨s', takeFrac_of_ne hne', hs⟩

theorem takePower_of_ne {s : List Char} (hminus : ∀ t, s ≠ '-' :: t) (hplus : ∀ t, s ≠ '+' :: t) :
    takePower s = (takeDigits s).map fun p => (some (false, p.1), p.2) := by
  unfold takePower
  split
  · exact absurd rfl (hminus _)
  · exact absurd rfl (hplus _)
  · rfl

theorem follows_takePower : Follows takePower takePower := by
  intro s s' exp rest hs h
  rcases hs.starts_cases (k := '-') rfl (by decide) with ⟨t, t', rfl, rfl, ht⟩ | ⟨hne, hne'⟩
  · exact follows_takeDigits.map (fun d => some (true, d)) ht h
  rcases hs.starts_cases (k := '+') rfl (by decide) with ⟨t, t', rfl, rfl, ht⟩ | ⟨hplus, hplus'⟩
  · exact follows_takeDigits.map (fun d => some (false, d)) ht h
  · rw [takePower_of_ne hne hplus] at h
    rw [takePower_of_ne hne' hplus']
    exact follows_takeDigits.map (fun d => some (false, d)) hs h

theorem takeExp_of_ne {s : List Char} (he : ∀ t, s ≠ 'e' :: t) (hE : ∀ t, s ≠ 'E' :: t) :
    takeExp s = some (none, s) := by
  unfold takeExp
  split
  · exact absurd rfl (he _)
  · exact absurd rfl (hE _)
  · rfl

theorem follows_takeExp : Follows takeExp takeExp := by
  intro s s' exp rest hs h
  rcases hs.starts_cases (k := 'e') rfl (by decide) with ⟨t, t', rfl, rfl, ht⟩ | ⟨he, he'⟩
  · exact follows_takePower ht h
  rcases hs.starts_cases (k := 'E') rfl (by decide) with ⟨t, t', rfl, rfl, ht⟩ | ⟨hE, hE'⟩
  · exact follows_takePower ht h
  · rw [takeExp_of_ne he hE] at h
    cases h
    exact ⟨s', takeExp_of_ne he' hE', hs⟩

theorem follows_number : Follows number number := by
  intro s s' n rest hs h
  obtain ⟨hsign, hs₁⟩ := hs.takeSign
  unfold number at h ⊢
  split at h
  · cases h
  · rename_i whole s₂ hwhole
    obtain ⟨s₂', hwhole', hs₂⟩ := follows_takeDigits hs₁ hwhole
    simp only [hwhole']
    split at h
    · rename_i hcanonical
      rw [dif_pos hcanonical]
      split at h
      · cases h
      · rename_i frac s₃ hfrac
        obtain ⟨s₃', hfrac', hs₃⟩ := follows_takeFrac hs₂ hfrac
        simp only [hfrac', hsign]
        exact follows_takeExp.map
          (fun exp => (⟨(takeSign s).1, whole, hcanonical, frac, exp⟩ : Numeral)) hs₃ h
    · cases h

/-- A number starts with a sign or a digit. -/
theorem number_eq_some {s : List Char} {p : Numeral × List Char} (h : number s = some p) :
    ∃ c s', s = c :: s' ∧ (c = '-' ∨ c.isDigit = true) := by
  cases s with
  | nil => cases h
  | cons c s' =>
      refine ⟨c, s', rfl, ?_⟩
      by_contra hc
      rw [not_or, Bool.not_eq_true] at hc
      have hsign : takeSign (c :: s') = (false, c :: s') :=
        takeSign_of_ne fun t heq => hc.1 (List.cons.inj heq).1
      simp [number, hsign, takeDigits, hc.2] at h

/-! ### In strings -/

theorem syntax_of_hex4 {a b c d : Char} {n : Nat} (h : hex4 a b c d = some n) :
    isSyntax a = true ∧ isSyntax b = true ∧ isSyntax c = true ∧ isSyntax d = true := by
  unfold hex4 at h
  split at h
  · rename_i ha hb hc hd
    simp [isSyntax, ha, hb, hc, hd]
  · cases h

/-- A code stays. -/
theorem Respelled.of_code {h₁ h₂ h₃ h₄ : Char} {n : Nat} {s t : List Char}
    (h : Respelled ('\\' :: 'u' :: h₁ :: h₂ :: h₃ :: h₄ :: s) t)
    (hcode : hex4 h₁ h₂ h₃ h₄ = some n) :
    ∃ s', t = '\\' :: 'u' :: h₁ :: h₂ :: h₃ :: h₄ :: s' ∧ Respelled s s' := by
  obtain ⟨hs₁, hs₂, hs₃, hs₄⟩ := syntax_of_hex4 hcode
  obtain ⟨_, rfl, hslash⟩ := h.of_cons rfl
  obtain ⟨_, rfl, hu⟩ := hslash.of_cons rfl
  obtain ⟨_, rfl, ht₁⟩ := hu.of_cons hs₁
  obtain ⟨_, rfl, ht₂⟩ := ht₁.of_cons hs₂
  obtain ⟨_, rfl, ht₃⟩ := ht₂.of_cons hs₃
  obtain ⟨s', rfl, ht₄⟩ := ht₃.of_cons hs₄
  exact ⟨s', rfl, ht₄⟩

theorem stringRest_code {h₁ h₂ h₃ h₄ : Char} {n : Nat} (h : hex4 h₁ h₂ h₃ h₄ = some n)
    (hhigh : ¬ (0xD800 ≤ n ∧ n < 0xDC00)) (hlow : ¬ (0xDC00 ≤ n ∧ n < 0xE000)) (s : List Char) :
    stringRest ('\\' :: 'u' :: h₁ :: h₂ :: h₃ :: h₄ :: s) =
      (stringRest s).map fun p => (Char.ofNat n :: p.1, p.2) := by
  rw [stringRest.eq_def]
  simp only [h]
  rw [if_neg (by decide), if_pos trivial, if_neg hhigh, if_neg hlow]

theorem stringRest_plain {c : Char} (hquote : c ≠ '"') (hslash : c ≠ '\\') (hplain : ¬ c.toNat < 32)
    (s : List Char) : stringRest (c :: s) = (stringRest s).map fun p => (c :: p.1, p.2) := by
  rw [stringRest.eq_def]
  simp only [if_neg hquote, if_neg hslash, if_neg hplain]

theorem follows_stringRest : Follows stringRest stringRest := by
  intro s s' cs rest hs h
  fun_induction stringRest s generalizing s' cs rest with
  | case1 | case3 | case4 | case6 | case7 | case8 | case10 | case12 | case13 => cases h
  | case2 s =>
      cases h
      obtain ⟨t, rfl, ht⟩ := hs.of_cons rfl
      exact ⟨t, by rw [stringRest.eq_def]; rfl, ht⟩
  | case5 h₁ h₂ h₃ h₄ n hn hhigh l₁ l₂ l₃ l₄ s m hm hlow hq ih =>
      obtain ⟨⟨cs', rest₁⟩, hread, heq⟩ := Option.map_eq_some_iff.1 h
      cases heq
      obtain ⟨_, rfl, hs₁⟩ := hs.of_code hn
      obtain ⟨t, rfl, hs₂⟩ := hs₁.of_code hm
      obtain ⟨rest', hread', hrest⟩ := ih hs₂ hread
      refine ⟨rest', ?_, hrest⟩
      rw [stringRest.eq_def]
      simp only [hn, hm]
      rw [if_neg (by decide), if_pos trivial, if_pos hhigh, if_pos hlow, hread']
      rfl
  | case9 h₁ h₂ h₃ h₄ s n hn hhigh hlow hq ih =>
      obtain ⟨⟨cs', rest₁⟩, hread, heq⟩ := Option.map_eq_some_iff.1 h
      cases heq
      obtain ⟨t, rfl, ht⟩ := hs.of_code hn
      obtain ⟨rest', hread', hrest⟩ := ih ht hread
      exact ⟨rest', by rw [stringRest_code hn hhigh hlow, hread']; rfl, hrest⟩
  | case11 e s hu c he hq ih =>
      obtain ⟨⟨cs', rest₁⟩, hread, heq⟩ := Option.map_eq_some_iff.1 h
      cases heq
      have hmeant : isSyntax e = true := by simp [isSyntax, he]
      obtain ⟨_, rfl, hs₁⟩ := hs.of_cons rfl
      obtain ⟨t, rfl, ht⟩ := hs₁.of_cons hmeant
      obtain ⟨rest', hread', hrest⟩ := ih ht hread
      refine ⟨rest', ?_, hrest⟩
      rw [stringRest]
      · simp [he, hread']
      · rintro h₁ h₂ h₃ h₄ s' rfl
        cases he
  | case14 c s hquote hslash hplain ih =>
      obtain ⟨⟨cs', rest₁⟩, hread, heq⟩ := Option.map_eq_some_iff.1 h
      cases heq
      cases hs with
      | same _ hs =>
          obtain ⟨rest', hread', hrest⟩ := ih hs hread
          exact ⟨rest', by rw [stringRest_plain hquote hslash hplain, hread']; rfl, hrest⟩
      | code hout hcode hs =>
          obtain ⟨rest', hread', hrest⟩ := ih hs hread
          have hvalid := c.valid
          simp only [UInt32.isValidChar, Nat.isValidChar] at hvalid
          have hvalue : c.toNat = c.val.toNat := rfl
          refine ⟨rest', ?_, hrest⟩
          rw [stringRest_code hcode (by omega) (by omega), Char.ofNat_toNat, hread']
          rfl

/-! ### Values -/

/-- A word of letters with a meaning stays. -/
theorem Respelled.of_append {w s t : List Char} (h : Respelled (w ++ s) t)
    (hw : w.all isSyntax = true) : ∃ s', t = w ++ s' ∧ Respelled s s' := by
  induction w generalizing t with
  | nil => exact ⟨t, rfl, h⟩
  | cons c w ih =>
      rw [List.all_cons, Bool.and_eq_true] at hw
      obtain ⟨t₁, rfl, ht₁⟩ := h.of_cons hw.1
      obtain ⟨s', rfl, hs'⟩ := ih ht₁ hw.2
      exact ⟨s', rfl, hs'⟩

/-- So does one behind blanks. -/
theorem Respelled.skip_append {w s s' t : List Char} (h : Respelled s s')
    (hs : JsonText.skip s = w ++ t) (hw : w.all isSyntax = true) :
    ∃ t', JsonText.skip s' = w ++ t' ∧ Respelled t t' :=
  (hs ▸ h.skip).of_append hw

theorem Respelled.skip_cons {k : Char} {s s' t : List Char} (h : Respelled s s')
    (hs : JsonText.skip s = k :: t) (hk : isSyntax k = true) :
    ∃ t', JsonText.skip s' = k :: t' ∧ Respelled t t' :=
  (hs ▸ h.skip).of_cons hk

section Steps

variable {fuel fuel' : Nat}

theorem follows_value (hitems : Follows (items fuel) (items fuel'))
    (hentries : Follows (entries fuel) (entries fuel')) :
    Follows (value (fuel + 1)) (value (fuel' + 1)) := by
  intro s s' t rest hs h
  unfold value at h ⊢
  split at h
  · rename_i s₁ hs₁
    obtain ⟨s₁', hs₁', htail⟩ := hs.skip_cons hs₁ rfl
    simp only [hs₁']
    rcases htail.skip.starts_cases (k := ']') rfl (by decide) with
      ⟨s₂, s₂', hs₂, hs₂', hrest⟩ | ⟨hne, hne'⟩
    · rw [hs₂] at h
      cases h
      exact ⟨s₂', by simp only [hs₂'], hrest⟩
    · split at h
      · exact absurd ‹_› (hne _)
      · exact hitems.map JsonTree.arr htail h
  · rename_i s₁ hs₁
    obtain ⟨s₁', hs₁', htail⟩ := hs.skip_cons hs₁ rfl
    simp only [hs₁']
    rcases htail.skip.starts_cases (k := '\x7d') rfl (by decide) with
      ⟨s₂, s₂', hs₂, hs₂', hrest⟩ | ⟨hne, hne'⟩
    · rw [hs₂] at h
      cases h
      exact ⟨s₂', by simp only [hs₂'], hrest⟩
    · split at h
      · exact absurd ‹_› (hne _)
      · exact hentries.map JsonTree.obj htail h
  · rename_i s₁ hs₁
    obtain ⟨s₁', hs₁', htail⟩ := hs.skip_cons hs₁ rfl
    simp only [hs₁']
    exact follows_stringRest.map (fun cs => JsonTree.str (String.ofList cs)) htail h
  · rename_i s₁ hs₁
    obtain ⟨s₁', hs₁', htail⟩ := hs.skip_append (w := ['n', 'u', 'l', 'l']) hs₁ rfl
    cases h
    exact ⟨s₁', by rw [hs₁']; rfl, htail⟩
  · rename_i s₁ hs₁
    obtain ⟨s₁', hs₁', htail⟩ := hs.skip_append (w := ['t', 'r', 'u', 'e']) hs₁ rfl
    cases h
    exact ⟨s₁', by rw [hs₁']; rfl, htail⟩
  · rename_i s₁ hs₁
    obtain ⟨s₁', hs₁', htail⟩ := hs.skip_append (w := ['f', 'a', 'l', 's', 'e']) hs₁ rfl
    cases h
    exact ⟨s₁', by rw [hs₁']; rfl, htail⟩
  · obtain ⟨⟨n, rest₁⟩, hn, heq⟩ := Option.map_eq_some_iff.1 h
    obtain ⟨c, s₁, hs₁, hc⟩ := number_eq_some hn
    have hmeant : isSyntax c = true := by
      rcases hc with rfl | hc
      · rfl
      · simp [isSyntax, hc]
    obtain ⟨rest', hnumber, hrest⟩ := follows_number.map JsonTree.num hs.skip h
    obtain ⟨s₁', hs₁', -⟩ := hs.skip_cons hs₁ hmeant
    have hvalue := value_number (s := s₁') fuel' hc
    rw [value, skip_cons _ (isSpace_eq_false hc)] at hvalue
    rw [hs₁'] at hnumber ⊢
    exact ⟨rest', hvalue.trans hnumber, hrest⟩

theorem follows_items (hvalue : Follows (value fuel) (value fuel'))
    (hitems : Follows (items fuel) (items fuel')) :
    Follows (items (fuel + 1)) (items (fuel' + 1)) := by
  intro s s' xs rest hs h
  unfold items at h ⊢
  split at h
  · cases h
  · rename_i x s₁ hx
    obtain ⟨s₁', hx', hs₁⟩ := hvalue hs hx
    simp only [hx']
    split at h
    · rename_i s₂ hs₂
      obtain ⟨s₂', hs₂', htail⟩ := hs₁.skip_cons hs₂ rfl
      simp only [hs₂']
      exact hitems.map (x :: ·) htail h
    · rename_i s₂ hs₂
      obtain ⟨s₂', hs₂', htail⟩ := hs₁.skip_cons hs₂ rfl
      cases h
      exact ⟨s₂', by simp only [hs₂'], htail⟩
    · cases h

theorem follows_entries (hvalue : Follows (value fuel) (value fuel'))
    (hentries : Follows (entries fuel) (entries fuel')) :
    Follows (entries (fuel + 1)) (entries (fuel' + 1)) := by
  intro s s' es rest hs h
  unfold entries at h ⊢
  split at h
  · rename_i s₁ hs₁
    obtain ⟨s₁', hs₁', hkeyText⟩ := hs.skip_cons hs₁ rfl
    simp only [hs₁']
    split at h
    · cases h
    · rename_i key s₂ hkey
      obtain ⟨s₂', hkey', hs₂⟩ := follows_stringRest hkeyText hkey
      simp only [hkey']
      split at h
      · rename_i s₃ hs₃
        obtain ⟨s₃', hs₃', hvalueText⟩ := hs₂.skip_cons hs₃ rfl
        simp only [hs₃']
        split at h
        · cases h
        · rename_i x s₄ hx
          obtain ⟨s₄', hx', hs₄⟩ := hvalue hvalueText hx
          simp only [hx']
          split at h
          · rename_i s₅ hs₅
            obtain ⟨s₅', hs₅', htail⟩ := hs₄.skip_cons hs₅ rfl
            simp only [hs₅']
            exact hentries.map ((String.ofList key, x) :: ·) htail h
          · rename_i s₅ hs₅
            obtain ⟨s₅', hs₅', htail⟩ := hs₄.skip_cons hs₅ rfl
            cases h
            exact ⟨s₅', by simp only [hs₅'], htail⟩
          · cases h
      · cases h
  · cases h

end Steps

/-- **Any spelling is read alike**, with the same fuel or more. -/
theorem follows_all (fuel : Nat) : ∀ fuel' ≥ fuel, Follows (value fuel) (value fuel') ∧
    Follows (items fuel) (items fuel') ∧ Follows (entries fuel) (entries fuel') := by
  induction fuel with
  | zero => exact fun _ _ => ⟨nofun, nofun, nofun⟩
  | succ fuel ih =>
      rintro (_ | fuel') hle
      · exact absurd hle (by omega)
      · obtain ⟨hvalue, hitems, hentries⟩ := ih fuel' (by omega)
        exact ⟨follows_value hitems hentries, follows_items hvalue hitems,
          follows_entries hvalue hentries⟩

/-- **A text is read as it was**, however its characters without meaning are spelled. -/
theorem Respelled.parse {s s' : List Char} (h : Respelled s s') {t : JsonTree Numeral}
    (hparse : JsonText.parse s = some t) : JsonText.parse s' = some t := by
  have hfuel : s'.length + 1 ≥ s.length + 1 := Nat.succ_le_succ h.length_le
  unfold JsonText.parse at hparse ⊢
  split at hparse
  · cases hparse
  · rename_i t₁ rest hvalue
    obtain ⟨rest', hvalue', hrest⟩ := (follows_all _ _ hfuel).1 h hvalue
    have hskip := hrest.skip
    simp only [hvalue']
    split at hparse
    · rename_i hnil
      rw [hnil] at hskip
      rw [if_pos hskip.eq_nil]
      exact hparse
    · cases hparse

end Feloxi.JsonText
