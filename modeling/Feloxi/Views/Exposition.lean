import Feloxi.Views.Prometheus
import Mathlib.Algebra.Order.BigOperators.Group.List

/-!
# Feloxi.Views.Exposition

The queue depths as Prometheus reads them. A label value ends at the first quote without a backslash
before it; backslashes, quotes and line feeds are escaped, and nothing else.
-/

namespace Feloxi.Prometheus

/-! ### The reader -/

/-- What an escape stands for. -/
def unescape (e : Char) : Option Char :=
  if e = '\\' then some '\\' else if e = '"' then some '"' else if e = 'n' then some '\n' else none

/-- A label value, without its escapes, and what follows its closing quote. -/
def readLabel : List Char → Option (List Char × List Char)
  | [] => none
  | ['\\'] => none
  | '\\' :: e :: s => (unescape e).bind fun c => (readLabel s).map fun r => (c :: r.1, r.2)
  | c :: s =>
    if c = '"' then some ([], s)
    else if c = '\n' then none
    else (readLabel s).map fun r => (c :: r.1, r.2)

/-- The samples of some lines, each with its label value and its depth. -/
inductive Reads : List Char → List (String × Nat) → Prop
  | nil : Reads [] []
  | line {behind label digits rest : List Char} {samples : List (String × Nat)} :
      readLabel behind = some (label, '\x7d' :: ' ' :: (digits ++ '\n' :: rest)) →
      digits ≠ [] → (∀ c ∈ digits, c.isDigit = true) → Reads rest samples →
      Reads (depthLead.toList ++ '"' :: behind)
        ((String.ofList label, Nat.ofDigitChars 10 digits 0) :: samples)

def total (entries : List (String × Nat)) (queue : String) : Nat :=
  ((entries.filter fun e => e.1 = queue).map (·.2)).sum

/-- The lines are samples, one for each queue that is reported, with the sum of its depths. -/
def Exposes (text : List Char) (entries : List (String × Nat)) : Prop :=
  ∃ samples, Reads text samples ∧ (samples.map Prod.fst).Nodup ∧
    ∀ queue depth, (queue, depth) ∈ samples ↔
      queue ∈ entries.map Prod.fst ∧ depth = total entries queue

/-! ### Label values -/

@[simp] theorem readLabel_quote (s : List Char) : readLabel ('"' :: s) = some ([], s) := by
  simp [readLabel]

@[simp] theorem readLabel_feed (s : List Char) : readLabel ('\n' :: s) = none := by
  simp [readLabel]

@[simp] theorem readLabel_escape (e : Char) (s : List Char) : readLabel ('\\' :: e :: s) =
    (unescape e).bind fun c => (readLabel s).map fun r => (c :: r.1, r.2) := by
  simp [readLabel]

theorem readLabel_plain {c : Char} (hquote : c ≠ '"') (hfeed : c ≠ '\n') (hslash : c ≠ '\\')
    (s : List Char) : readLabel (c :: s) = (readLabel s).map fun r => (c :: r.1, r.2) := by
  cases s <;> simp [readLabel, hquote, hfeed, hslash]

@[simp] theorem safe_nil : safe [] = [] := rfl

@[simp] theorem safe_quote (q : List Char) : safe ('"' :: q) = '\\' :: '"' :: safe q := rfl

theorem safe_cons {c : Char} (h : c ≠ '"') (q : List Char) : safe (c :: q) = c :: safe q := by
  simp [safe, h]

/-- A label value that is cut short by the end of the line. -/
theorem readLabel_unclosed {s : List Char} (h : ∀ c ∈ s, c ≠ '"' ∧ c ≠ '\\') (rest : List Char) :
    readLabel (s ++ '\n' :: rest) = none := by
  induction s with
  | nil => simp
  | cons c s ih =>
      obtain ⟨hc, hs⟩ := List.forall_mem_cons.1 h
      by_cases hfeed : c = '\n'
      · rw [hfeed, List.cons_append, readLabel_feed]
      · rw [List.cons_append, readLabel_plain hc.1 hfeed hc.2, ih hs]
        rfl

/-- What is left of a name behind some characters that are no quotes and no backslashes. -/
theorem safe_split {p : List Char} (hp : ∀ c ∈ p, c ≠ '"' ∧ c ≠ '\\') {q s tail : List Char}
    (h : safe q ++ '"' :: tail = p ++ s) : ∃ r, q = p ++ r ∧ s = safe r ++ '"' :: tail := by
  induction p generalizing q with
  | nil => exact ⟨q, rfl, h.symm⟩
  | cons c p ih =>
      obtain ⟨hc, hrest⟩ := List.forall_mem_cons.1 hp
      cases q with
      | nil => exact absurd (List.cons.inj h).1.symm hc.1
      | cons d q =>
          by_cases hd : d = '"'
          · subst hd
            exact absurd (List.cons.inj h).1.symm hc.2
          · rw [safe_cons hd] at h
            obtain ⟨heq, htail⟩ := List.cons.inj h
            obtain ⟨r, rfl, hs⟩ := ih hrest htail
            exact ⟨r, by rw [heq]; rfl, hs⟩

/-- A name and its label value as it is read: no longer than the name, and the same only if the
name has no backslash. -/
structure Labels (q label : List Char) : Prop where
  reads : ∀ tail, readLabel (safe q ++ '"' :: tail) = some (label, tail)
  le : label.length ≤ q.length
  eq : label.length = q.length → label = q ∧ '\\' ∉ q
  line : '\n' ∉ q

theorem Labels.cons {q label : List Char} (h : Labels q label) {c : Char} (hslash : c ≠ '\\')
    (hfeed : c ≠ '\n') : Labels (c :: q) (c :: label) where
  reads tail := by
    by_cases hquote : c = '"'
    · rw [hquote]
      simp [unescape, h.reads tail]
    · rw [safe_cons hquote, List.cons_append, readLabel_plain hquote hfeed hslash, h.reads tail]
      rfl
  le := Nat.succ_le_succ h.le
  eq hlength := by
    obtain ⟨rfl, hnone⟩ := h.eq (Nat.succ.inj hlength)
    exact ⟨rfl, by simp [hnone, hslash.symm]⟩
  line := by simp [h.line, hfeed.symm]

/-- An escape that is longer than what it stands for. -/
theorem Labels.escape {q label : List Char} (h : Labels q label) {e c : Char} (he : e ≠ '"')
    (hc : unescape e = some c) : Labels ('\\' :: e :: q) (c :: label) where
  reads tail := by
    rw [safe_cons (by decide), safe_cons he, List.cons_append, List.cons_append, readLabel_escape,
      hc, h.reads tail]
    rfl
  le := by
    have := h.le
    simp only [List.length_cons]
    omega
  eq hlength := by
    have := h.le
    simp only [List.length_cons] at hlength
    omega
  line := by
    have hfeed : e ≠ '\n' := by
      rintro rfl
      simp [unescape] at hc
    simp [h.line, hfeed.symm]

/-- A name is read to its end, or the value ends at a quote of the name. -/
theorem readLabel_safe {tail : List Char} (hstop : readLabel tail = none) {q label s : List Char}
    (h : readLabel (safe q ++ '"' :: tail) = some (label, s)) :
    (s = tail ∧ Labels q label) ∨ ∃ r, s = safe r ++ '"' :: tail := by
  induction hn : q.length using Nat.strongRecOn generalizing q label with
  | _ n ih =>
      cases q with
      | nil =>
          simp only [safe_nil, List.nil_append, readLabel_quote, Option.some_inj,
            Prod.mk.injEq] at h
          obtain ⟨rfl, rfl⟩ := h
          exact .inl ⟨rfl, ⟨fun tail => by simp, Nat.le_refl _, fun _ => ⟨rfl, by simp⟩, by simp⟩⟩
      | cons c q =>
          have hlt : q.length < n := hn ▸ Nat.lt_succ_self _
          by_cases hslash : c = '\\'
          · subst hslash
            rw [safe_cons (by decide), List.cons_append] at h
            cases q with
            | nil => simp [unescape, hstop] at h
            | cons e q =>
                by_cases he : e = '"'
                · -- the backslash of the quote is taken for an escaped one
                  subst he
                  rw [safe_quote, List.cons_append, readLabel_escape, List.cons_append,
                    readLabel_quote] at h
                  cases h
                  exact .inr ⟨q, rfl⟩
                · rw [safe_cons he, List.cons_append, readLabel_escape, Option.bind_eq_some_iff] at h
                  obtain ⟨d, hd, h⟩ := h
                  obtain ⟨⟨label', s'⟩, hread, heq⟩ := Option.map_eq_some_iff.1 h
                  cases heq
                  exact (ih q.length (Nat.lt_trans (Nat.lt_succ_self _) hlt) hread rfl).imp_left
                    fun hend => ⟨hend.1, hend.2.escape he hd⟩
          · by_cases hfeed : c = '\n'
            · subst hfeed
              rw [safe_cons (by decide), List.cons_append, readLabel_feed] at h
              cases h
            · have hstep : readLabel (safe (c :: q) ++ '"' :: tail) =
                  (readLabel (safe q ++ '"' :: tail)).map fun r => (c :: r.1, r.2) := by
                by_cases hquote : c = '"'
                · subst hquote
                  simp [unescape]
                · rw [safe_cons hquote, List.cons_append, readLabel_plain hquote hfeed hslash]
              rw [hstep] at h
              obtain ⟨⟨label', s'⟩, hread, heq⟩ := Option.map_eq_some_iff.1 h
              cases heq
              exact (ih q.length hlt hread rfl).imp_left
                fun hend => ⟨hend.1, hend.2.cons hslash hfeed⟩

/-! ### Lines -/

/-- The line of an entry, and what follows. -/
def lineText (entry : String × Nat) (rest : List Char) : List Char :=
  depthLead.toList ++ '"' :: (safe entry.1.toList ++ '"' :: '\x7d' :: ' ' ::
    (Nat.toDigits 10 entry.2 ++ '\n' :: rest))

theorem toList_depthLine (entry : String × Nat) : (depthLine entry).toList = lineText entry [] := by
  simp [depthLine, lineText]

theorem toDigits_isDigit {n : Nat} {c : Char} (hc : c ∈ Nat.toDigits 10 n) : c.isDigit = true :=
  Nat.isDigit_of_mem_toDigits (by decide) (by decide) hc

theorem plain_of_isDigit {c : Char} (h : c.isDigit = true) : c ≠ '"' ∧ c ≠ '\\' := by
  constructor
  · rintro rfl
    exact absurd h (by decide)
  · rintro rfl
    exact absurd h (by decide)

/-- Behind its name a line has no quote. -/
theorem readLabel_tail (n : Nat) (rest : List Char) :
    readLabel ('\x7d' :: ' ' :: (Nat.toDigits 10 n ++ '\n' :: rest)) = none := by
  refine readLabel_unclosed (s := '\x7d' :: ' ' :: Nat.toDigits 10 n) ?_ rest
  simp only [List.forall_mem_cons]
  exact ⟨by decide, by decide, fun c hc => plain_of_isDigit (toDigits_isDigit hc)⟩

theorem plain_lead : ∀ c ∈ depthLead.toList, c ≠ '"' ∧ c ≠ '\\' := by
  have hall : depthLead.toList.all (fun c => decide (c ≠ '"' ∧ c ≠ '\\')) = true := by decide
  simpa using hall

/-- The rest of a name does not start a line. -/
theorem not_reads_rest {tail r : List Char} (hstop : readLabel tail = none)
    {samples : List (String × Nat)} (h : Reads (safe r ++ '"' :: tail) samples) : False := by
  generalize htext : safe r ++ '"' :: tail = text at h
  cases h with
  | nil => simp at htext
  | line hlabel hdigits hall hrest =>
      obtain ⟨r', -, hbehind⟩ := safe_split plain_lead htext
      cases r' with
      | nil =>
          cases hbehind
          rw [hstop] at hlabel
          cases hlabel
      | cons c r' =>
          by_cases hc : c = '"'
          · subst hc
            cases hbehind
          · rw [safe_cons hc] at hbehind
            exact hc (List.cons.inj hbehind).1.symm

/-- The digits of a number, up to the line feed. -/
theorem append_feed_inj {a b s t : List Char} (ha : ∀ c ∈ a, c.isDigit = true)
    (hb : ∀ c ∈ b, c.isDigit = true) (h : a ++ '\n' :: s = b ++ '\n' :: t) : a = b ∧ s = t := by
  induction a generalizing b with
  | nil =>
      cases b with
      | nil => exact ⟨rfl, (List.cons.inj h).2⟩
      | cons d b =>
          have hd := hb d List.mem_cons_self
          rw [← (List.cons.inj h).1] at hd
          exact absurd hd (by decide)
  | cons c a ih =>
      obtain ⟨hc, ha⟩ := List.forall_mem_cons.1 ha
      cases b with
      | nil =>
          rw [(List.cons.inj h).1] at hc
          exact absurd hc (by decide)
      | cons d b =>
          obtain ⟨hcd, htail⟩ := List.cons.inj h
          obtain ⟨rfl, hst⟩ := ih ha (List.forall_mem_cons.1 hb).2 htail
          exact ⟨by rw [hcd], hst⟩

/-- **One line.** It is read as one sample, whose label value is the name or shorter. -/
theorem reads_line {entry : String × Nat} {rest : List Char} {samples : List (String × Nat)}
    (h : Reads (lineText entry rest) samples) : ∃ label samples', Labels entry.1.toList label ∧
      samples = (String.ofList label, entry.2) :: samples' ∧ Reads rest samples' := by
  have hstop := readLabel_tail entry.2 rest
  unfold lineText at h
  generalize htext : depthLead.toList ++ '"' :: (safe entry.1.toList ++ '"' :: '\x7d' :: ' ' ::
    (Nat.toDigits 10 entry.2 ++ '\n' :: rest)) = text at h
  cases h with
  | nil => simp at htext
  | @line behind label digits rest' samples' hlabel hdigits hall hrest =>
      obtain rfl := (List.cons.inj (List.append_cancel_left htext)).2
      rcases readLabel_safe hstop hlabel with ⟨htail, hlabels⟩ | ⟨r, hr⟩
      · obtain ⟨hvalue, hend⟩ := append_feed_inj hall (fun c hc => toDigits_isDigit hc)
          (List.cons.inj (List.cons.inj htail).2).2
        refine ⟨label, samples', hlabels, ?_, hend ▸ hrest⟩
        rw [hvalue, Nat.ofDigitChars_ten_toDigits]
      · -- the value ended inside the name: what is left of it starts the next line
        have hplain : ∀ c ∈ '\x7d' :: ' ' :: (digits ++ ['\n']), c ≠ '"' ∧ c ≠ '\\' := by
          simp only [List.forall_mem_cons, List.forall_mem_append]
          exact ⟨by decide, by decide, fun c hc => plain_of_isDigit (hall c hc), by decide, by simp⟩
        obtain ⟨r', -, hbehind⟩ := safe_split hplain (s := rest') (by simpa using hr.symm)
        exact (not_reads_rest hstop (hbehind ▸ hrest)).elim

/-- A name without backslashes and line feeds is read as it is. -/
theorem labels_self {q : List Char} (hslash : '\\' ∉ q) (hfeed : '\n' ∉ q) : Labels q q := by
  induction q with
  | nil => exact ⟨fun tail => by simp, Nat.le_refl _, fun _ => ⟨rfl, by simp⟩, by simp⟩
  | cons c q ih =>
      rw [List.mem_cons, not_or] at hslash hfeed
      exact (ih hslash.2 hfeed.2).cons (Ne.symm hslash.1) (Ne.symm hfeed.1)

theorem reads_cons {entry : String × Nat} (hslash : '\\' ∉ entry.1.toList)
    (hfeed : '\n' ∉ entry.1.toList) {rest : List Char} {samples : List (String × Nat)}
    (h : Reads rest samples) : Reads (lineText entry rest) (entry :: samples) := by
  have hline := Reads.line ((labels_self hslash hfeed).reads _)
    (@Nat.toDigits_ne_nil entry.2 10) (fun c hc => toDigits_isDigit hc) h
  rwa [Nat.ofDigitChars_ten_toDigits, String.ofList_toList] at hline

theorem lineText_append (entry : String × Nat) (rest : List Char) :
    lineText entry rest = lineText entry [] ++ rest := by
  simp [lineText]

/-- The lines of some entries. -/
def linesText (entries : List (String × Nat)) : List Char := entries.foldr lineText []

theorem toList_depthLines (depths : List (List (String × Nat))) :
    (depthLines depths).toList = linesText depths.flatten := by
  rw [depthLines]
  induction depths.flatten with
  | nil => rfl
  | cons e entries ih =>
      rw [List.map_cons, String.join_cons, String.toList_append, ih, toList_depthLine,
        ← lineText_append]
      rfl

/-- What a name is read as. -/
def labelOf (queue : String) : String :=
  String.ofList (((readLabel (safe queue.toList ++ ['"'])).map Prod.fst).getD [])

theorem labelOf_eq {queue : String} {label : List Char} (h : Labels queue.toList label) :
    labelOf queue = String.ofList label := by
  rw [labelOf, h.reads []]
  rfl

/-- Each entry is read as one sample. -/
theorem reads_entries {entries samples : List (String × Nat)} (h : Reads (linesText entries) samples) :
    samples = entries.map (fun e => (labelOf e.1, e.2)) ∧
      ∀ e ∈ entries, Labels e.1.toList (labelOf e.1).toList := by
  induction entries generalizing samples with
  | nil =>
      generalize htext : linesText [] = text at h
      cases h with
      | nil => exact ⟨rfl, by simp⟩
      | line => simp [linesText] at htext
  | cons e entries ih =>
      obtain ⟨label, samples', hlabels, rfl, hrest⟩ := reads_line h
      obtain ⟨rfl, hall⟩ := ih hrest
      have hlabel := labelOf_eq hlabels
      refine ⟨by rw [List.map_cons, hlabel], List.forall_mem_cons.2 ⟨?_, hall⟩⟩
      rwa [hlabel, String.toList_ofList]

theorem reads_linesText {entries : List (String × Nat)}
    (h : ∀ e ∈ entries, '\\' ∉ e.1.toList ∧ '\n' ∉ e.1.toList) :
    Reads (linesText entries) entries := by
  induction entries with
  | nil => exact .nil
  | cons e entries ih =>
      obtain ⟨⟨hslash, hfeed⟩, hrest⟩ := List.forall_mem_cons.1 h
      exact reads_cons hslash hfeed (ih hrest)

/-! ### Sums -/

theorem total_append (first second : List (String × Nat)) (queue : String) :
    total (first ++ second) queue = total first queue + total second queue := by
  simp [total]

theorem total_perm {entries entries' : List (String × Nat)} (h : entries.Perm entries')
    (queue : String) : total entries queue = total entries' queue :=
  ((h.filter _).map _).sum_eq

theorem total_eq_zero {entries : List (String × Nat)} {queue : String} :
    total entries queue = 0 ↔ ∀ e ∈ entries, e.1 = queue → e.2 = 0 := by
  rw [total, List.sum_eq_zero_iff]
  simp only [List.mem_map, List.mem_filter, decide_eq_true_eq]
  constructor
  · exact fun h e he heq => h e.2 ⟨e, ⟨he, heq⟩, rfl⟩
  · rintro h n ⟨e, ⟨he, heq⟩, rfl⟩
    exact h e he heq

/-- A name that is reported once. -/
theorem total_of_mem {entries : List (String × Nat)} (h : (entries.map Prod.fst).Nodup)
    {e : String × Nat} (he : e ∈ entries) : total entries e.1 = e.2 := by
  induction entries with
  | nil => cases he
  | cons d entries ih =>
      obtain ⟨hnew, hrest⟩ := List.nodup_cons.1 h
      rw [← List.singleton_append, total_append]
      rcases List.mem_cons.1 he with rfl | he
      · have hzero : total entries e.1 = 0 :=
          total_eq_zero.2 fun d hd heq => absurd (heq ▸ List.mem_map_of_mem hd) hnew
        rw [hzero]
        simp [total]
      · have hne : d.1 ≠ e.1 := fun heq => hnew (heq ▸ List.mem_map_of_mem he)
        rw [ih hrest he]
        simp [total, hne]

/-! ### Well-formed pages -/

/-- No listed tenant reports a name with a backslash or a line feed, no two report the same name,
and what the others report adds nothing to a queue of the page. -/
structure Exposable (listed others : List (String × Nat)) : Prop where
  plain : ∀ e ∈ listed, '\\' ∉ e.1.toList ∧ '\n' ∉ e.1.toList
  distinct : (listed.map Prod.fst).Nodup
  rest : ∀ e ∈ others, e.2 = 0 ∧ e.1 ∈ listed.map Prod.fst

theorem exposes_of_exposable {entries listed others : List (String × Nat)}
    (hperm : entries.Perm (listed ++ others)) (h : Exposable listed others) :
    Exposes (linesText listed) entries := by
  have hothers : ∀ queue, total others queue = 0 := fun queue =>
    total_eq_zero.2 fun e he _ => (h.rest e he).1
  have htotal : ∀ queue, total entries queue = total listed queue := by
    intro queue
    rw [total_perm hperm, total_append, hothers, Nat.add_zero]
  have hnames : ∀ queue, queue ∈ entries.map Prod.fst ↔ queue ∈ listed.map Prod.fst := by
    intro queue
    rw [(hperm.map _).mem_iff, List.map_append, List.mem_append]
    refine or_iff_left_of_imp fun hq => ?_
    obtain ⟨e, he, rfl⟩ := List.mem_map.1 hq
    exact (h.rest e he).2
  refine ⟨listed, reads_linesText h.plain, h.distinct, fun queue depth => ?_⟩
  rw [hnames, htotal]
  constructor
  · exact fun hmem => ⟨List.mem_map_of_mem hmem, (total_of_mem h.distinct hmem).symm⟩
  · rintro ⟨hq, rfl⟩
    obtain ⟨e, he, rfl⟩ := List.mem_map.1 hq
    rw [total_of_mem h.distinct he]
    exact he

/-- Names that are read as each other are read as themselves. -/
theorem labelOf_eq_self {names : List String} (hlabels : ∀ q ∈ names, Labels q.toList (labelOf q).toList)
    (hperm : names.Perm (names.map labelOf)) :
    ∀ q ∈ names, labelOf q = q ∧ '\\' ∉ q.toList := by
  have hsum := (hperm.map fun q => q.toList.length).sum_eq
  simp only [List.map_map, Function.comp_def] at hsum
  have hlength : ∀ q ∈ names, (labelOf q).toList.length = q.toList.length := by
    intro q hq
    by_contra hne
    have hlt := List.sum_lt_sum (fun q => (labelOf q).toList.length) (fun q => q.toList.length)
      (fun q hq => (hlabels q hq).le) ⟨q, hq, Nat.lt_of_le_of_ne (hlabels q hq).le hne⟩
    exact absurd hsum (Nat.ne_of_gt hlt)
  intro q hq
  obtain ⟨heq, hslash⟩ := (hlabels q hq).eq (hlength q hq)
  exact ⟨String.toList_injective heq, hslash⟩

theorem exposable_of_exposes {entries listed others : List (String × Nat)}
    (hperm : entries.Perm (listed ++ others)) (h : Exposes (linesText listed) entries) :
    Exposable listed others := by
  obtain ⟨samples, hreads, hdistinct, hmem⟩ := h
  obtain ⟨hsamples, hlabels⟩ := reads_entries hreads
  have hnames : samples.map Prod.fst = (listed.map Prod.fst).map labelOf := by
    rw [hsamples, List.map_map, List.map_map]
    rfl
  have hreported : ∀ e ∈ listed ++ others, (e.1, total entries e.1) ∈ samples := by
    intro e he
    exact (hmem _ _).2 ⟨List.mem_map_of_mem (hperm.mem_iff.2 he), rfl⟩
  have hnodup : (listed.map Prod.fst).Nodup := by
    rw [hnames] at hdistinct
    exact hdistinct.of_map _
  have hsubset : listed.map Prod.fst ⊆ (listed.map Prod.fst).map labelOf := by
    intro q hq
    obtain ⟨e, he, rfl⟩ := List.mem_map.1 hq
    rw [← hnames]
    exact List.mem_map.2 ⟨_, hreported e (List.mem_append_left _ he), rfl⟩
  have hread : ∀ q ∈ listed.map Prod.fst, Labels q.toList (labelOf q).toList := by
    intro q hq
    obtain ⟨e, he, rfl⟩ := List.mem_map.1 hq
    exact hlabels e he
  have hself := labelOf_eq_self hread
    ((List.subperm_of_subset hnodup hsubset).perm_of_length_le (by simp))
  have hsame : samples = listed := by
    rw [hsamples]
    refine (List.map_congr_left fun e he => ?_).trans (List.map_id listed)
    rw [(hself e.1 (List.mem_map_of_mem he)).1]
    rfl
  refine ⟨fun e he => ⟨(hself e.1 (List.mem_map_of_mem he)).2, (hlabels e he).line⟩, hnodup, ?_⟩
  intro e he
  have hfound := hreported e (List.mem_append_right _ he)
  rw [hsame] at hfound
  have htotal := total_of_mem hnodup hfound
  rw [total_perm hperm, total_append] at htotal
  have hzero : total others e.1 = 0 := by simpa using htotal
  exact ⟨total_eq_zero.1 hzero e he rfl, List.mem_map.2 ⟨_, hfound, rfl⟩⟩

theorem perm_reported (order : SetOrder) (db : Redis.Db) (rows : List TenantRow) :
    (reported order db rows).Perm
      (reported order db (listed rows) ++ reported order db (others rows)) := by
  have h := (perm_listed_others rows).flatMap_right fun t => getQueueDepths order db t.id
  rwa [List.flatMap_append] at h

theorem toList_queueLines (order : SetOrder) (db : Redis.Db) (rows : List TenantRow) :
    (queueLines order db rows).toList = linesText (reported order db (listed rows)) := by
  have hdepths : ((listed rows).map (·.id)).filterMap
      (fun id => some (getQueueDepths order db id)) =
        (listed rows).map fun t => getQueueDepths order db t.id := by
    rw [List.filterMap_map, ← List.filterMap_eq_map']
    rfl
  rw [queueLines, toList_depthLines, hdepths, ← List.flatMap_def]
  rfl

/-- **The exposition.** The queue lines of the page are samples that name each queue once, with the
sum of its depths over all tenants, exactly if the names are plain and the tenants share none. -/
theorem queueLines_expose_iff (order : SetOrder) (db : Redis.Db) (rows : List TenantRow) :
    Exposes (queueLines order db rows).toList (reported order db rows) ↔
      Exposable (reported order db (listed rows)) (reported order db (others rows)) := by
  rw [toList_queueLines]
  exact ⟨exposable_of_exposes (perm_reported order db rows),
    exposes_of_exposable (perm_reported order db rows)⟩

/-! ### Samples -/

/-- Every tenant has one queue, of depth 5. -/
def sampleQueues : Redis.Db := ⟨0, fun _ => some ("5", none), fun _ => {"celery"}⟩

def sampleRows : List TenantRow := [⟨1, true, 10⟩, ⟨2, true, 20⟩]

/-- Two tenants with a queue of the same name. -/
theorem queueLines_shared_queue :
    ¬ Exposes (queueLines sortedMembers sampleQueues sampleRows).toList
      (reported sortedMembers sampleQueues sampleRows) := by
  have hdepths : ∀ tenant, getQueueDepths sortedMembers sampleQueues tenant = [("celery", 5)] := by
    intro tenant
    have hsets : ∀ key, sampleQueues.sets key = {"celery"} := fun key => rfl
    have hnames : sortedMembers.members {"celery"} = ["celery"] := Finset.sort_singleton _ _
    have hget : ∀ key, get sampleQueues key = some "5" := fun key => rfl
    simp only [getQueueDepths, hsets, hnames, List.map_cons, List.map_nil, hget]
    rfl
  have hlisted : listed sampleRows = [⟨2, true, 20⟩, ⟨1, true, 10⟩] := by decide
  intro h
  rw [toList_queueLines] at h
  have hdistinct := (exposable_of_exposes (perm_reported _ _ _) h).distinct
  simp [reported, hlisted, hdepths] at hdistinct

end Feloxi.Prometheus
