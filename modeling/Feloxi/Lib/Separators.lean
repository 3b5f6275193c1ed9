import Mathlib.Data.List.Infix

/-!
# Feloxi.Lib.Separators

Cutting a list at a separator: at the first occurrence (`List.dropInfix?`), at the last one of
a single element (`splitLast`), and after every occurrence (`after`).
-/

namespace Feloxi.Separators

variable {α : Type*}

/-! ### Prefixes -/

/-- Before the first `c` on either side stands the same. -/
theorem eq_of_append_prefix {c : α} {x y z : List α} (hx : c ∉ x) (hy : c ∉ y)
    (h : x ++ [c] <+: y ++ c :: z) : x = y := by
  induction x generalizing y with
  | nil =>
      rcases y with _ | ⟨e, y⟩
      · rfl
      · obtain ⟨rfl, -⟩ := List.cons_prefix_cons.1 h
        simp at hy
  | cons d x ih =>
      rw [List.mem_cons, not_or] at hx
      rcases y with _ | ⟨e, y⟩
      · exact absurd (List.cons_prefix_cons.1 h).1.symm hx.1
      · obtain ⟨rfl, hrest⟩ := List.cons_prefix_cons.1 h
        rw [List.mem_cons, not_or] at hy
        rw [ih hx.2 hy.2 hrest]

/-- A prefix is compared up to the first `c`, and behind it. -/
theorem append_cons_prefix_iff {c : α} {x y u v : List α} (hx : c ∉ x) (hy : c ∉ y) :
    x ++ c :: u <+: y ++ c :: v ↔ x = y ∧ u <+: v := by
  constructor
  · intro h
    have hfirst : x ++ [c] <+: y ++ c :: v := List.IsPrefix.trans ⟨u, by simp⟩ h
    obtain rfl := eq_of_append_prefix hx hy hfirst
    rw [List.prefix_append_right_inj, List.cons_prefix_cons] at h
    exact ⟨rfl, h.2⟩
  · rintro ⟨rfl, h⟩
    rw [List.prefix_append_right_inj, List.cons_prefix_cons]
    exact ⟨rfl, h⟩

/-- A prefix without `c` ends before the first `c`. -/
theorem prefix_of_not_mem {c : α} {x y z : List α} (hx : c ∉ x) (h : x <+: y ++ c :: z) :
    x <+: y := by
  rcases Nat.lt_or_ge y.length x.length with hlt | hle
  · have hc : y ++ [c] <+: x := by
      refine List.prefix_of_prefix_length_le (by simp) h ?_
      rw [List.length_append]
      exact hlt
    exact absurd (hc.subset (by simp)) hx
  · exact List.prefix_of_prefix_length_le h (List.prefix_append y _) hle

theorem takeWhile_append_of_stop {p : α → Bool} {c : α} (hc : p c = false) (x y z : List α) :
    (x ++ c :: y).takeWhile p = (x ++ c :: z).takeWhile p := by
  simp [List.takeWhile_append, hc]

/-- A prefix all of whose elements satisfy `p`. -/
theorem prefix_takeWhile {p : α → Bool} {x l : List α} (hx : ∀ c ∈ x, p c = true) :
    x <+: l.takeWhile p ↔ x <+: l := by
  constructor
  · exact fun h => h.trans (List.takeWhile_prefix p)
  · rintro ⟨rest, rfl⟩
    rw [List.takeWhile_append_of_pos hx]
    exact List.prefix_append x _

/-! ### Joining -/

theorem forall_mem_intercalate {sep : List α} {p : α → Prop} (hsep : ∀ c ∈ sep, p c)
    {parts : List (List α)} (hparts : ∀ part ∈ parts, ∀ c ∈ part, p c) :
    ∀ c ∈ sep.intercalate parts, p c := by
  induction parts with
  | nil => exact nofun
  | cons part parts ih =>
      obtain ⟨hpart, hrest⟩ := List.forall_mem_cons.1 hparts
      cases parts with
      | nil =>
          rw [List.intercalate_singleton]
          exact hpart
      | cons next parts =>
          rw [List.intercalate_cons_cons]
          simp only [List.forall_mem_append]
          exact ⟨⟨hpart, hsep⟩, ih hrest⟩

/-- A separator that is left out leaves no trace. -/
theorem filterMap_intercalate {β : Type*} {f : α → Option β} {sep : List α}
    (hsep : sep.filterMap f = []) (parts : List (List α)) :
    (sep.intercalate parts).filterMap f = parts.flatMap (List.filterMap f) := by
  induction parts with
  | nil => rfl
  | cons part parts ih =>
      cases parts with
      | nil => simp
      | cons next parts =>
          rw [List.intercalate_cons_cons, List.filterMap_append, List.filterMap_append, hsep,
            List.append_nil, ih]
          rfl

variable [DecidableEq α]

theorem dropPrefix?_eq_some {lead l rest : List α} :
    l.dropPrefix? lead = some rest ↔ l = lead ++ rest := by
  rw [List.dropPrefix?_eq_some_iff]
  constructor
  · rintro ⟨lead', rfl, h⟩
    rw [eq_of_beq h]
  · intro h
    exact ⟨lead, h, beq_self_eq_true lead⟩

/-! ### The first occurrence -/

theorem dropInfix?_eq_some {sep text head tail : List α} :
    text.dropInfix? sep = some (head, tail) ↔ text = head ++ sep ++ tail ∧
      ∀ pre post, text = pre ++ sep ++ post → head.length ≤ pre.length := by
  rw [List.dropInfix?_eq_some_iff]
  simp only [beq_iff_eq, ge_iff_le]
  constructor
  · intro ⟨⟨sep', htext, hsep⟩, hfirst⟩
    exact ⟨hsep ▸ htext, fun pre post h => hfirst pre sep post h rfl⟩
  · intro ⟨htext, hfirst⟩
    exact ⟨⟨sep, htext, rfl⟩, fun pre sep' post h hsep => hfirst pre post (hsep ▸ h)⟩

/-- At a single element, what comes before does not have it. -/
theorem dropInfix?_singleton {c : α} {text head tail : List α} :
    text.dropInfix? [c] = some (head, tail) ↔ text = head ++ c :: tail ∧ c ∉ head := by
  rw [dropInfix?_eq_some, List.append_assoc, List.singleton_append]
  refine and_congr_right fun htext => ⟨fun hfirst hmem => ?_, fun hmem pre post hpre => ?_⟩
  · obtain ⟨before, behind, rfl, -⟩ := List.eq_append_cons_of_mem hmem
    have := hfirst before (behind ++ c :: tail) (by simp [htext])
    rw [List.length_append, List.length_cons] at this
    omega
  · by_contra hlt
    have hlead : pre ++ [c] <+: head := by
      refine List.prefix_of_prefix_length_le ⟨post, hpre.symm⟩ ⟨c :: tail, htext.symm⟩ ?_
      rw [List.length_append]
      exact Nat.lt_of_not_le hlt
    exact hmem (hlead.subset (by simp))

/-- Whatever comes behind the first occurrence, it stays the first. -/
theorem dropInfix?_append {sep head x : List α}
    (h : (head ++ sep ++ x).dropInfix? sep = some (head, x)) (y : List α) :
    (head ++ sep ++ y).dropInfix? sep = some (head, y) := by
  rw [dropInfix?_eq_some] at h ⊢
  refine ⟨rfl, fun pre post hpre => ?_⟩
  by_contra hlt
  -- an earlier occurrence ends within `head ++ sep`, so it is there with `x` behind it as well
  have hle : (pre ++ sep).length ≤ (head ++ sep).length := by
    rw [List.length_append, List.length_append]
    omega
  obtain ⟨rest, hrest⟩ : pre ++ sep <+: head ++ sep :=
    List.prefix_of_prefix_length_le ⟨post, hpre.symm⟩ ⟨y, rfl⟩ hle
  exact hlt (h.2 pre (rest ++ x) (by rw [← List.append_assoc, hrest]))

theorem dropInfix?_go_eq_none {sep l acc : List α} (hsep : sep ≠ [])
    (h : List.dropInfix?.go sep l acc = none) (pre post : List α) : l ≠ pre ++ sep ++ post := by
  induction l generalizing acc pre with
  | nil =>
      intro hl
      simp [hsep] at hl
  | cons c l ih =>
      rw [List.dropInfix?.go] at h
      cases hlead : (c :: l).dropPrefix? sep with
      | some rest => rw [hlead] at h; cases h
      | none =>
          rw [hlead] at h
          intro hl
          rcases pre with _ | ⟨d, pre⟩
          · have := dropPrefix?_eq_some.2 hl
            rw [List.nil_append, hlead] at this
            cases this
          · exact ih h pre (List.cons.inj hl).2

theorem dropInfix?_eq_none {sep text : List α} (hsep : sep ≠ []) :
    text.dropInfix? sep = none ↔ ∀ pre post, text ≠ pre ++ sep ++ post := by
  constructor
  · exact fun h pre post => dropInfix?_go_eq_none hsep h pre post
  · intro h
    cases hfirst : text.dropInfix? sep with
    | none => rfl
    | some cut => exact absurd (dropInfix?_eq_some.1 hfirst).1 (h cut.1 cut.2)

/-- No occurrence begins at an element that is not the first of the separator. -/
theorem dropInfix?_cons_of_ne {a c : α} {marks : List α} (h : c ≠ a) (text : List α) :
    (c :: text).dropInfix? (a :: marks) =
      (text.dropInfix? (a :: marks)).map fun cut => (c :: cut.1, cut.2) := by
  have hbegin : ∀ pre post, c :: text = pre ++ (a :: marks) ++ post →
      ∃ pre', pre = c :: pre' ∧ text = pre' ++ (a :: marks) ++ post := by
    intro pre post hpre
    rcases pre with _ | ⟨d, pre⟩
    · exact absurd (List.cons.inj hpre).1 h
    · obtain ⟨rfl, htext⟩ := List.cons.inj hpre
      exact ⟨pre, rfl, htext⟩
  cases hfirst : text.dropInfix? (a :: marks) with
  | none =>
      refine (dropInfix?_eq_none (by simp)).2 fun pre post hpre => ?_
      obtain ⟨pre', -, htext⟩ := hbegin pre post hpre
      exact (dropInfix?_eq_none (by simp)).1 hfirst pre' post htext
  | some cut =>
      obtain ⟨htext, hleast⟩ := dropInfix?_eq_some.1 hfirst
      refine dropInfix?_eq_some.2 ⟨congrArg (c :: ·) htext, fun pre post hpre => ?_⟩
      obtain ⟨pre', rfl, htext'⟩ := hbegin pre post hpre
      exact Nat.succ_le_succ (hleast pre' post htext')

/-- No `a` stands in front of a `b` or at the end. -/
def apart (a b : α) : List α → Bool
  | [] => true
  | [c] => c != a
  | c :: d :: rest => (c != a || d != b) && apart a b (d :: rest)

theorem apart_append {a b : α} {l m : List α} (hl : apart a b l = true) (hm : apart a b m = true) :
    apart a b (l ++ m) = true := by
  fun_induction apart a b l with
  | case1 => exact hm
  | case2 c =>
      cases m with
      | nil => exact hl
      | cons d m => simp [apart, hl, hm]
  | case3 c d rest ih =>
      rw [Bool.and_eq_true] at hl
      have hrest := ih hl.2
      rw [List.cons_append] at hrest
      simp [apart, hl.1, hrest]

/-- A separator that starts with `a` and `b` does not occur before it is put. -/
theorem dropInfix?_of_apart {a b : α} {l : List α} (h : apart a b l = true) (marks rest : List α) :
    (l ++ a :: b :: marks ++ rest).dropInfix? (a :: b :: marks) = some (l, rest) := by
  refine dropInfix?_eq_some.2 ⟨rfl, fun pre post hpre => ?_⟩
  induction l generalizing pre with
  | nil => exact Nat.zero_le _
  | cons c l ih =>
      rcases pre with _ | ⟨d, pre⟩
      · -- an occurrence at the start has its first two elements there
        obtain ⟨rfl, htail⟩ := List.cons.inj hpre
        cases l with
        | nil => simp [apart] at h
        | cons e l =>
            obtain ⟨rfl, -⟩ := List.cons.inj htail
            simp [apart] at h
      · refine Nat.succ_le_succ (ih ?_ pre (List.cons.inj hpre).2)
        cases l with
        | nil => rfl
        | cons e l =>
            rw [apart, Bool.and_eq_true] at h
            exact h.2

/-! ### The last occurrence of one element -/

/-- What comes before the last `c`, and what comes after it. -/
def splitLast (c : α) : List α → Option (List α × List α)
  | [] => none
  | d :: rest =>
    match splitLast c rest with
    | some (before, behind) => some (d :: before, behind)
    | none => if d = c then some ([], rest) else none

theorem splitLast_of_not_mem {c : α} {l : List α} (h : c ∉ l) : splitLast c l = none := by
  induction l with
  | nil => rfl
  | cons d rest ih =>
      rw [List.mem_cons, not_or] at h
      rw [splitLast, ih h.2]
      exact if_neg (Ne.symm h.1)

theorem splitLast_append {c : α} (before : List α) {behind : List α} (h : c ∉ behind) :
    splitLast c (before ++ c :: behind) = some (before, behind) := by
  induction before with
  | nil =>
      rw [List.nil_append, splitLast, splitLast_of_not_mem h]
      exact if_pos rfl
  | cons d before ih => rw [List.cons_append, splitLast, ih]

/-- A list with `c` in it has a last `c`. -/
theorem exists_last {c : α} {l : List α} (h : c ∈ l) :
    ∃ before behind, l = before ++ c :: behind ∧ c ∉ behind := by
  induction l with
  | nil => cases h
  | cons d rest ih =>
      by_cases hrest : c ∈ rest
      · obtain ⟨before, behind, rfl, hbehind⟩ := ih hrest
        exact ⟨d :: before, behind, rfl, hbehind⟩
      · rcases List.mem_cons.1 h with rfl | h
        · exact ⟨[], rest, rfl, hrest⟩
        · exact absurd h hrest

omit [DecidableEq α] in
/-- What a list is split into has no separator. -/
theorem not_mem_of_mem_splitOn [BEq α] [LawfulBEq α] {c : α} {part l : List α}
    (h : part ∈ l.splitOn c) : c ∉ part := by
  induction hn : l.length using Nat.strong_induction_on generalizing l with
  | _ n ih =>
      by_cases hmem : c ∈ l
      · obtain ⟨before, behind, rfl, hbefore⟩ := List.eq_append_cons_of_mem hmem
        rw [List.splitOn_append_cons_self_of_not_mem hbefore] at h
        rcases List.mem_cons.1 h with rfl | hrest
        · exact hbefore
        · refine ih behind.length ?_ hrest rfl
          rw [← hn, List.length_append, List.length_cons]
          omega
      · rw [List.splitOn_eq_singleton hmem, List.mem_singleton] at h
        exact h ▸ hmem

/-! ### Every occurrence -/

/-- What follows each occurrence of `sep`. -/
def after (sep text : List α) : List (List α) := text.tails.filterMap (·.dropPrefix? sep)

theorem mem_after {sep text rest : List α} :
    rest ∈ after sep text ↔ ∃ pre, text = pre ++ sep ++ rest := by
  simp only [after, List.mem_filterMap, List.mem_tails, dropPrefix?_eq_some]
  constructor
  · rintro ⟨t, ⟨pre, rfl⟩, rfl⟩
    exact ⟨pre, by rw [List.append_assoc]⟩
  · rintro ⟨pre, rfl⟩
    exact ⟨sep ++ rest, ⟨pre, by rw [List.append_assoc]⟩, rfl⟩

theorem length_le_of_mem_after {sep text rest : List α} (h : rest ∈ after sep text) :
    sep.length + rest.length ≤ text.length := by
  obtain ⟨pre, rfl⟩ := mem_after.1 h
  simp only [List.length_append]
  omega

theorem after_eq_nil {sep text : List α} (hsep : sep ≠ [])
    (h : text.dropInfix? sep = none) : after sep text = [] := by
  refine List.eq_nil_iff_forall_not_mem.2 fun rest hrest => ?_
  obtain ⟨pre, hpre⟩ := mem_after.1 hrest
  exact (dropInfix?_eq_none hsep).1 h pre rest hpre

/-! A separator whose first element it has only once cannot overlap with itself. -/

section

variable {a b : α} {marks : List α}

theorem after_append_self (rest : List α) :
    after (a :: marks) (a :: marks ++ rest) = rest :: after (a :: marks) (marks ++ rest) := by
  have hlead : (a :: (marks ++ rest)).dropPrefix? (a :: marks) = some rest :=
    dropPrefix?_eq_some.2 rfl
  simp only [after, List.cons_append, List.tails_cons, List.filterMap_cons, hlead]

theorem after_cons_of_not_prefix {c : α} {text : List α} (h : ¬ a :: marks <+: c :: text) :
    after (a :: marks) (c :: text) = after (a :: marks) text := by
  rw [after, List.tails_cons, List.filterMap_cons_none]
  · rfl
  · cases hlead : (c :: text).dropPrefix? (a :: marks) with
    | none => rfl
    | some rest => exact absurd ⟨rest, (dropPrefix?_eq_some.1 hlead).symm⟩ h

/-- No occurrence begins in a list without the first element. -/
theorem after_append_of_not_mem {x : List α} (h : a ∉ x) (y : List α) :
    after (a :: marks) (x ++ y) = after (a :: marks) y := by
  induction x with
  | nil => rfl
  | cons c x ih =>
      rw [List.mem_cons, not_or] at h
      rw [List.cons_append, after_cons_of_not_prefix, ih h.2]
      exact fun hlead => h.1 (List.cons_prefix_cons.1 hlead).1

theorem after_of_dropInfix? (hmarks : a ∉ marks) {text head tail : List α}
    (h : text.dropInfix? (a :: marks) = some (head, tail)) :
    after (a :: marks) text = tail :: after (a :: marks) tail := by
  obtain ⟨rfl, hfirst⟩ := dropInfix?_eq_some.1 h
  clear h
  induction head with
  | nil => rw [List.nil_append, after_append_self, after_append_of_not_mem hmarks]
  | cons c head ih =>
      rw [List.cons_append, List.cons_append, after_cons_of_not_prefix]
      · refine ih fun pre post hpre => ?_
        simpa using hfirst (c :: pre) post (congrArg (c :: ·) hpre)
      · rintro ⟨post, hpost⟩
        simpa using hfirst [] post hpost.symm

/-- An occurrence that begins in a list without the second element begins at its end. -/
theorem after_append {x : List α} (h : b ∉ x) (y : List α) :
    after (a :: b :: marks) (x ++ y) =
      (if x.getLast? = some a ∧ b :: marks <+: y then [y.drop (marks.length + 1)] else []) ++
        after (a :: b :: marks) y := by
  induction x with
  | nil => simp
  | cons c x ih =>
      rw [List.mem_cons, not_or] at h
      rcases x with _ | ⟨d, x⟩
      · by_cases hlead : c = a ∧ b :: marks <+: y
        · obtain ⟨rfl, rest, rfl⟩ := hlead
          rw [if_pos ⟨rfl, rest, rfl⟩]
          simpa using @after_append_self α _ c (b :: marks) rest
        · rw [if_neg (by simpa using hlead), List.singleton_append, after_cons_of_not_prefix,
            List.nil_append]
          rwa [List.cons_prefix_cons, eq_comm]
      · have hnot : ¬ a :: b :: marks <+: c :: (d :: x ++ y) := by
          intro hlead
          exact h.2 (by simp [(List.cons_prefix_cons.1 (List.cons_prefix_cons.1 hlead).2).1])
        rw [List.cons_append, after_cons_of_not_prefix hnot, ih h.2, List.getLast?_cons_cons]

end

end Feloxi.Separators
