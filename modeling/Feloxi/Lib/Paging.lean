import Feloxi.Lib.Queries
import Mathlib.Data.List.Nodup
import Mathlib.Data.List.Perm.Basic

/-!
# Feloxi.Lib.Paging

Lists that are read a page at a time. A page says whether there is more and where to go on;
`Follows` is the run of a reader who follows the cursors to the end.

Two ways to go on are analysed. With the key of the last row as the cursor, rows of the same
key that do not fit on the page are skipped (`follows_sorted`). When a page has the newest
row of each group only, the group comes again on a later page if it has older rows
(`follows_newest`).
-/

namespace Feloxi.Paging

open Queries

variable {α β κ μ ε : Type*}

/-! ### Pages -/

structure Page (κ α : Type*) where
  data : List α
  hasMore : Bool
  nextCursor : Option κ

/-- The rows that a reader gets from a cursor on. -/
inductive Follows (page : Option κ → Except ε (Page κ α)) : Option κ → List α → Prop
  | last {c : Option κ} {rows : List α} {next : Option κ} :
      page c = .ok ⟨rows, false, next⟩ → Follows page c rows
  | more {c : Option κ} {rows rest : List α} {next : κ} :
      page c = .ok ⟨rows, true, some next⟩ → Follows page (some next) rest →
        Follows page c (rows ++ rest)

/-- A reader gets the same rows every time. -/
theorem Follows.unique {page : Option κ → Except ε (Page κ α)} {c : Option κ} {rows rows' : List α}
    (h : Follows page c rows) (h' : Follows page c rows') : rows = rows' := by
  induction h generalizing rows' with
  | last hpage =>
      cases h' with
      | last hpage' =>
          cases hpage.symm.trans hpage'
          rfl
      | more hpage' _ => cases hpage.symm.trans hpage'
  | more hpage _ ih =>
      cases h' with
      | last hpage' => cases hpage.symm.trans hpage'
      | more hpage' hrest' =>
          cases hpage.symm.trans hpage'
          rw [ih hrest']

/-- A page with its rows and cursors in another form. -/
def Page.map (row : α → β) (cursor : κ → μ) (page : Page κ α) : Page μ β :=
  ⟨page.data.map row, page.hasMore, page.nextCursor.map cursor⟩

/-- A reader of the other form, if all cursors that are handed out can be read. -/
theorem Follows.map {page : Option κ → Except ε (Page κ α)} {page' : Option μ → Except ε (Page μ β)}
    {row : α → β} {cursor : κ → μ} {P : κ → Prop}
    (hnext : ∀ c p, page c = .ok p → ∀ n ∈ p.nextCursor, P n)
    (hpage : ∀ c p, (∀ n ∈ c, P n) → page c = .ok p → page' (c.map cursor) = .ok (p.map row cursor))
    {c : Option κ} {rows : List α} (hc : ∀ n ∈ c, P n) (h : Follows page c rows) :
    Follows page' (c.map cursor) (rows.map row) := by
  induction h with
  | last hlast => exact .last (hpage _ _ hc hlast)
  | more hmore _ ih =>
      rw [List.map_append]
      exact .more (hpage _ _ hc hmore) (ih (hnext _ _ hmore))

/-- The one reader of the other form. -/
theorem Follows.map_iff {page : Option κ → Except ε (Page κ α)}
    {page' : Option μ → Except ε (Page μ β)} {row : α → β} {cursor : κ → μ} {P : κ → Prop}
    (hnext : ∀ c p, page c = .ok p → ∀ n ∈ p.nextCursor, P n)
    (hpage : ∀ c p, (∀ n ∈ c, P n) → page c = .ok p → page' (c.map cursor) = .ok (p.map row cursor))
    {rows : List α} (h : Follows page none rows) (out : List β) :
    Follows page' none out ↔ out = rows.map row := by
  have hmap : Follows page' none (rows.map row) := Follows.map hnext hpage (fun n hn => by cases hn) h
  exact ⟨fun hout => hout.unique hmap, fun hout => hout ▸ hmap⟩

/-- What holds of the rows of every page holds of all rows that a reader gets. -/
theorem Follows.forall_mem {page : Option κ → Except ε (Page κ α)} {P : α → Prop}
    (hpage : ∀ c p, page c = .ok p → ∀ r ∈ p.data, P r) {c : Option κ} {rows : List α}
    (h : Follows page c rows) : ∀ r ∈ rows, P r := by
  induction h with
  | last hlast => exact hpage _ _ hlast
  | more hmore _ ih =>
      intro r hr
      rcases List.mem_append.1 hr with hr | hr
      · exact hpage _ _ hmore r hr
      · exact ih r hr

/-- The first `limit` rows; of one row more, it is only said that there is more. -/
def cut (limit : Nat) (cursor : α → κ) (rows : List α) : Page κ α :=
  ⟨rows.take limit, decide (limit < rows.length),
    if limit < rows.length then (rows.take limit).getLast?.map cursor else none⟩

theorem cut_of_le {limit : Nat} (cursor : α → κ) {rows : List α} (h : rows.length ≤ limit) :
    cut limit cursor (rows.take (limit + 1)) = ⟨rows, false, none⟩ := by
  have htake : rows.take (limit + 1) = rows := List.take_of_length_le (by omega)
  rw [htake, cut, List.take_of_length_le h, if_neg (by omega), decide_eq_false (by omega)]

/-- A full page ends with a row, whose cursor is the next one. -/
theorem cut_of_lt {limit : Nat} (hlimit : 0 < limit) (cursor : α → κ) {rows : List α}
    (h : limit < rows.length) :
    ∃ first last rest, rows = first ++ last :: rest ∧ (first ++ [last]).length = limit ∧
      rest ≠ [] ∧
      cut limit cursor (rows.take (limit + 1)) = ⟨first ++ [last], true, some (cursor last)⟩ := by
  have hlast : limit - 1 < rows.length := by omega
  have htake : rows.take limit = rows.take (limit - 1) ++ [rows[limit - 1]] := by
    rw [List.take_append_getElem, Nat.sub_add_cancel hlimit]
  have hdrop : rows.drop (limit - 1) = rows[limit - 1] :: rows.drop limit := by
    rw [List.drop_eq_getElem_cons hlast, Nat.sub_add_cancel hlimit]
  refine ⟨rows.take (limit - 1), rows[limit - 1], rows.drop limit, ?_, ?_, ?_, ?_⟩
  · rw [← hdrop, List.take_append_drop]
  · rw [← htake, List.length_take]
    omega
  · exact fun hnil => by
      have hle := List.drop_eq_nil_iff.1 hnil
      omega
  · have hlength : (rows.take (limit + 1)).length = limit + 1 := by
      rw [List.length_take]
      omega
    have hcut : (rows.take (limit + 1)).take limit = rows.take limit := by
      rw [List.take_take, Nat.min_eq_left (Nat.le_succ limit)]
    rw [cut, hcut, hlength, if_pos (Nat.lt_succ_self limit), htake, List.getLast?_append,
      decide_eq_true (Nat.lt_succ_self limit)]
    rfl

theorem cut_map (limit : Nat) (cursor : α → κ) (row : α → β) (print : κ → μ) (rows : List α)
    {cursor' : β → μ} (h : ∀ r ∈ rows, cursor' (row r) = print (cursor r)) :
    cut limit cursor' (rows.map row) = (cut limit cursor rows).map row print := by
  unfold cut Page.map
  rw [List.length_map, ← List.map_take, List.getLast?_map]
  split
  · simp only [Option.map_map]
    congr 1
    cases hlast : (rows.take limit).getLast? with
    | none => rfl
    | some r =>
        exact congrArg some (h r (List.mem_of_mem_take (List.mem_of_getLast? hlast)))
  · rfl

/-- The cursor of a page is that of one of its rows. -/
theorem mem_nextCursor_cut {limit : Nat} {cursor : α → κ} {rows : List α} {n : κ}
    (h : n ∈ (cut limit cursor rows).nextCursor) : ∃ r ∈ rows, cursor r = n := by
  unfold cut at h
  dsimp only at h
  split at h
  · obtain ⟨r, hr, rfl⟩ := Option.map_eq_some_iff.1 h
    exact ⟨r, List.mem_of_mem_take (List.mem_of_getLast? hr), rfl⟩
  · cases h

/-! ### Pages by their number -/

/-- The cursor of page `n`, counted from zero, for a reader who goes on where there is more. -/
inductive Reached (page : Option κ → Except ε (Page κ α)) : Nat → Option κ → Prop
  | first : Reached page 0 none
  | next {n : Nat} {c : Option κ} {rows : List α} {next : κ} (h : Reached page n c) :
      page c = .ok ⟨rows, true, some next⟩ → Reached page (n + 1) (some next)

/-- No page is longer than the limit, and those before the last one are as long. -/
def Full (limit : Nat) (page : Option κ → Except ε (Page κ α)) : Prop :=
  ∀ c p, page c = .ok p → p.data.length ≤ limit ∧ (p.hasMore = true → p.data.length = limit)

/-- What follows page `n` is the list without the pages before it. -/
theorem Reached.follows {page : Option κ → Except ε (Page κ α)} {limit n : Nat} {c : Option κ}
    {out : List α} (hfull : Full limit page) (h : Reached page n c) (hout : Follows page none out) :
    Follows page c (out.drop (limit * n)) ∧ limit * n ≤ out.length := by
  induction h with
  | first => simpa using hout
  | @next n c rows next _ hpage ih =>
      obtain ⟨hfollows, hle⟩ := ih
      have hlength : rows.length = limit := (hfull c _ hpage).2 rfl
      generalize hrest : out.drop (limit * n) = rest at hfollows
      cases hfollows with
      | last hlast => cases hpage.symm.trans hlast
      | @more _ rows' rest next' hmore hfollows =>
          obtain ⟨rfl, rfl⟩ : rows = rows' ∧ next = next' := by
            have heq := Except.ok.inj (hpage.symm.trans hmore)
            simpa using heq
          have hdrop : out.drop (limit * (n + 1)) = rest := by
            rw [Nat.mul_succ, ← List.drop_drop, hrest, ← hlength, List.drop_left]
          have hcount := congrArg List.length hrest
          rw [List.length_drop, List.length_append] at hcount
          refine ⟨hdrop ▸ hfollows, ?_⟩
          rw [Nat.mul_succ]
          omega

/-- **A page is a slice of the list**, and the last page ends it. -/
theorem Reached.data {page : Option κ → Except ε (Page κ α)} {limit n : Nat} {c : Option κ}
    {out : List α} {p : Page κ α} (hfull : Full limit page) (h : Reached page n c)
    (hout : Follows page none out) (hpage : page c = .ok p) :
    p.data = (out.drop (limit * n)).take limit ∧
      (p.hasMore = false → out.length ≤ limit * (n + 1)) := by
  obtain ⟨hfollows, hle⟩ := h.follows hfull hout
  obtain ⟨hshort, hmore⟩ := hfull c p hpage
  generalize hrest : out.drop (limit * n) = rest at hfollows
  have hcount := congrArg List.length hrest
  rw [List.length_drop] at hcount
  cases hfollows with
  | last hlast =>
      obtain rfl := Except.ok.inj (hpage.symm.trans hlast)
      refine ⟨(List.take_of_length_le hshort).symm, fun _ => ?_⟩
      rw [Nat.mul_succ]
      simp only at hshort
      omega
  | more hnext _ =>
      obtain rfl := Except.ok.inj (hpage.symm.trans hnext)
      exact ⟨by rw [← hmore rfl, List.take_left], nofun⟩

theorem Full.map {page : Option κ → Except ε (Page κ α)} {limit : Nat} (h : Full limit page)
    (row : α → β) : Full limit fun c => (page c).map (Page.map row id) := by
  intro c p hp
  cases hpage : page c with
  | error e => simp [hpage, Except.map] at hp
  | ok p' =>
      simp only [hpage, Except.map, Except.ok.injEq] at hp
      subst hp
      simpa [Page.map] using h c p' hpage

/-! ### Rows below a cursor -/

/-- The rows below a cursor. -/
def below (key : α → Int) : Option Int → List α → List α
  | none, rows => rows
  | some c, rows => rows.filter fun r => decide (key r < c)

/-- The rows below a row that is below the cursor. -/
theorem below_below {key : α → Int} {c : Option Int} {rows : List α} {last : α}
    (hlast : last ∈ below key c rows) :
    below key (some (key last)) rows = below key (some (key last)) (below key c rows) := by
  cases c with
  | none => rfl
  | some c =>
      have hlt : key last < c := of_decide_eq_true (List.mem_filter.1 hlast).2
      simp only [below, List.filter_filter]
      refine List.filter_congr fun r _ => ?_
      rw [Bool.eq_iff_iff, Bool.and_eq_true, decide_eq_true_eq, decide_eq_true_eq]
      exact ⟨fun h => ⟨h, Int.lt_trans h hlt⟩, fun h => h.1⟩

theorem mem_below {key : α → Int} {c : Int} {rows : List α} {r : α} :
    r ∈ below key (some c) rows ↔ r ∈ rows ∧ key r < c := by
  rw [below, List.mem_filter, decide_eq_true_eq]

theorem length_below_lt {key : α → Int} {rows : List α} {last : α} (hlast : last ∈ rows) :
    (below key (some (key last)) rows).length < rows.length := by
  refine Nat.lt_of_le_of_ne (List.length_filter_le _ _) fun heq => ?_
  have hall := List.length_filter_eq_length_iff.1 heq last hlast
  exact Int.lt_irrefl _ (of_decide_eq_true hall)

/-! ### Rows above and below a page's end -/

theorem countP_above_eq_zero {key : α → Int} {t : Int} {rows : List α}
    (h : ∀ r ∈ rows, key r < t) : rows.countP (fun r => decide (t ≤ key r)) = 0 := by
  rw [List.countP_eq_zero]
  intro r hr hle
  exact Int.not_le.2 (h r hr) (of_decide_eq_true hle)

theorem countP_above_eq_length {key : α → Int} {t : Int} {rows : List α}
    (h : ∀ r ∈ rows, t ≤ key r) : rows.countP (fun r => decide (t ≤ key r)) = rows.length :=
  List.countP_eq_length.2 fun r hr => decide_eq_true (h r hr)

/-- No row of a page comes after its last one. -/
theorem le_of_mem_page {key : α → Int} {first rest : List α} {last r : α}
    (h : ∀ a ∈ first, ∀ b ∈ last :: rest, -key a ≤ -key b) (hr : r ∈ first ++ [last]) :
    key last ≤ key r := by
  rcases List.mem_append.1 hr with hr | hr
  · exact Int.neg_le_neg_iff.1 (h r hr last List.mem_cons_self)
  · obtain rfl := List.mem_singleton.1 hr
    exact Int.le_refl _

/-! ### The key of the last row as the cursor -/

/-- No boundary between pages falls between two rows of the same key. -/
def Unsplit (key : α → Int) (limit : Nat) (rows : List α) : Prop :=
  ∀ (t : Int) (k : Nat), rows.countP (fun r => decide (t < key r)) < k * limit →
    rows.countP (fun r => decide (t ≤ key r)) ≤ k * limit

theorem unsplit_perm {key : α → Int} {limit : Nat} {rows rows' : List α} (h : rows.Perm rows') :
    Unsplit key limit rows ↔ Unsplit key limit rows' := by
  unfold Unsplit
  simp only [h.countP_eq]

theorem unsplit_of_le {key : α → Int} {limit : Nat} {rows : List α} (h : rows.length ≤ limit) :
    Unsplit key limit rows := by
  intro t k hk
  have hpos : 0 < k := Nat.pos_of_ne_zero fun hzero => by simp [hzero] at hk
  exact Nat.le_trans List.countP_le_length
    (Nat.le_trans h (Nat.le_mul_of_pos_left limit hpos))

theorem countP_le_add_count (key : α → Int) (t : Int) (rows : List α) :
    rows.countP (fun r => decide (t ≤ key r)) =
      rows.countP (fun r => decide (t < key r)) + (rows.map key).count t := by
  induction rows with
  | nil => rfl
  | cons r rows ih =>
      rw [List.countP_cons, List.countP_cons, List.map_cons, List.count_cons, ih]
      simp only [decide_eq_true_eq, beq_iff_eq]
      split <;> split <;> split <;> omega

/-- With one row for each key there is nothing to split. -/
theorem unsplit_of_nodup {key : α → Int} {rows : List α} (limit : Nat)
    (hkeys : (rows.map key).Nodup) : Unsplit key limit rows := by
  intro t k hk
  have hone := List.nodup_iff_count_le_one.1 hkeys t
  rw [countP_le_add_count]
  omega

/-- The first page can be taken off if all its rows come before the others. -/
theorem unsplit_append {key : α → Int} {limit : Nat} {first rest : List α} {last : Int}
    (hlength : first.length = limit) (hfirst : ∀ r ∈ first, last ≤ key r)
    (hrest : ∀ r ∈ rest, key r < last) :
    Unsplit key limit (first ++ rest) ↔ Unsplit key limit rest := by
  have hhigh : ∀ p : α → Bool, (first ++ rest).countP p = first.countP p + rest.countP p :=
    fun p => List.countP_append
  -- below the last key of the page, the page counts in full
  have hlow : ∀ t < last, first.countP (fun r => decide (t < key r)) = limit ∧
      first.countP (fun r => decide (t ≤ key r)) = limit := by
    intro t ht
    rw [← hlength]
    exact ⟨List.countP_eq_length.2 fun r hr => decide_eq_true (Int.lt_of_lt_of_le ht (hfirst r hr)),
      List.countP_eq_length.2 fun r hr =>
        decide_eq_true (Int.le_of_lt (Int.lt_of_lt_of_le ht (hfirst r hr)))⟩
  constructor
  · intro h t k hk
    by_cases ht : t < last
    · have hmore := h t (k + 1) (by
        rw [hhigh, (hlow t ht).1, Nat.add_mul]
        omega)
      rw [hhigh, (hlow t ht).2, Nat.add_mul] at hmore
      omega
    · have hnone := countP_above_eq_zero fun r hr =>
        Int.lt_of_lt_of_le (hrest r hr) (Int.not_lt.1 ht)
      omega
  · intro h t k hk
    rw [hhigh] at hk ⊢
    by_cases ht : t < last
    · rw [(hlow t ht).1] at hk
      rw [(hlow t ht).2]
      cases k with
      | zero => omega
      | succ k =>
          rw [Nat.add_mul] at hk ⊢
          have hmore := h t k (by omega)
          omega
    · have hnone := countP_above_eq_zero fun r hr =>
        Int.lt_of_lt_of_le (hrest r hr) (Int.not_lt.1 ht)
      have hpos : 0 < k := Nat.pos_of_ne_zero fun hzero => by simp [hzero] at hk
      have hfull : first.countP (fun r => decide (t ≤ key r)) ≤ limit :=
        hlength ▸ List.countP_le_length
      rw [hnone]
      exact Nat.le_trans hfull (Nat.le_mul_of_pos_left limit hpos)

/-- A page that ends before a row of the same key splits that key. -/
theorem not_unsplit_of_tie {key : α → Int} {limit : Nat} {first rest : List α} {last : α}
    (hlength : (first ++ [last]).length = limit) (hpage : ∀ r ∈ first ++ [last], key last ≤ key r)
    (hafter : ∀ r ∈ rest, key r ≤ key last) (htie : ¬ ∀ r ∈ rest, key r < key last) :
    limit < ((first ++ [last]) ++ rest).countP (fun r => decide (key last ≤ key r)) ∧
      ¬ Unsplit key limit ((first ++ [last]) ++ rest) := by
  have hcount : limit < ((first ++ [last]) ++ rest).countP
      (fun r => decide (key last ≤ key r)) := by
    have hsome : 0 < rest.countP (fun r => decide (key last ≤ key r)) := by
      rw [List.countP_pos_iff]
      by_contra hnone
      refine htie fun r hr => ?_
      have hle : ¬ key last ≤ key r := fun hle => hnone ⟨r, hr, decide_eq_true hle⟩
      omega
    rw [List.countP_append, countP_above_eq_length hpage, hlength]
    omega
  refine ⟨hcount, fun h => ?_⟩
  have hnone : rest.countP (fun r => decide (key last < key r)) = 0 := by
    rw [List.countP_eq_zero]
    intro r hr hlt
    exact Int.not_lt.2 (hafter r hr) (of_decide_eq_true hlt)
  have hself : [last].countP (fun r => decide (key last < key r)) = 0 := by simp
  have hless : ((first ++ [last]) ++ rest).countP (fun r => decide (key last < key r)) <
      limit := by
    have hle : first.countP (fun r => decide (key last < key r)) ≤ first.length :=
      List.countP_le_length
    rw [List.length_append, List.length_singleton] at hlength
    rw [List.countP_append, hnone, List.countP_append, hself]
    omega
  have hone := h (key last) 1 (by omega)
  omega

section Sorted

variable {key : α → Int} (order : OrderBy fun r : α => -key r) (limit : Nat) (rows : List α)

/-- A page of the rows below the cursor, those with the greatest keys first. -/
def sortedPage (c : Option Int) : Except ε (Page Int α) :=
  .ok (cut limit key ((order.sort (below key c rows)).take (limit + 1)))

variable {limit}

/-- By induction on the number of rows below the cursor. The rest of the pages has only rows
below the last row of this one, so it is complete exactly if this page did not end between two
rows of the same key. -/
theorem follows_sortedPage (hlimit : 0 < limit) (c : Option Int) :
    ∃ out, Follows (sortedPage (ε := ε) order limit rows) c out ∧
      (∀ r ∈ out, r ∈ below key c rows) ∧
      (out.Perm (below key c rows) ↔ Unsplit key limit (below key c rows)) := by
  generalize hn : (below key c rows).length = n
  induction n using Nat.strongRecOn generalizing c with
  | ind n ih =>
  subst hn
  have hperm := order.perm (below key c rows)
  by_cases hlong : limit < (order.sort (below key c rows)).length
  · obtain ⟨first, last, rest, hsplit, hlength, -, hcut⟩ := cut_of_lt hlimit key hlong
    have hsorted := order.sorted (below key c rows)
    rw [hsplit, List.pairwise_append, List.pairwise_cons] at hsorted
    obtain ⟨-, ⟨hlastRest, -⟩, hfirstRest⟩ := hsorted
    have hpage : ∀ r ∈ first ++ [last], key last ≤ key r := fun r => le_of_mem_page hfirstRest
    have hafter : ∀ r ∈ rest, key r ≤ key last := by
      intro r hr
      have hle := hlastRest r hr
      omega
    have hmem : last ∈ below key c rows := by
      rw [← hperm.mem_iff, hsplit]
      exact List.mem_append_right _ List.mem_cons_self
    have hall : (below key c rows).Perm ((first ++ [last]) ++ rest) := by
      rw [List.append_assoc, List.singleton_append, ← hsplit]
      exact hperm.symm
    have hless : (below key (some (key last)) rows).length < (below key c rows).length := by
      rw [below_below hmem]
      exact length_below_lt hmem
    obtain ⟨out, hfollows, hbelow, hexact⟩ := ih _ hless (some (key last)) rfl
    refine ⟨(first ++ [last]) ++ out, ?_, ?_, ?_⟩
    · exact .more (by rw [sortedPage, hcut]) hfollows
    · intro r hr
      rcases List.mem_append.1 hr with hr | hr
      · exact hall.mem_iff.2 (List.mem_append_left _ hr)
      · have hr := hbelow r hr
        rw [below_below hmem] at hr
        exact (mem_below.1 hr).1
    · have hrest : (below key (some (key last)) rows).Perm
          (rest.filter fun r => decide (key r < key last)) := by
        have hnone : (first ++ [last]).filter (fun r => decide (key r < key last)) = [] := by
          rw [List.filter_eq_nil_iff]
          intro r hr hlt
          have hle := hpage r hr
          have hlt := of_decide_eq_true hlt
          omega
        have hfilter := hall.filter fun r => decide (key r < key last)
        rw [List.filter_append, hnone, List.nil_append] at hfilter
        rw [below_below hmem]
        exact hfilter
      rw [unsplit_perm hall]
      by_cases hstrict : ∀ r ∈ rest, key r < key last
      · have hfull : rest.filter (fun r => decide (key r < key last)) = rest :=
          List.filter_eq_self.2 fun r hr => decide_eq_true (hstrict r hr)
        rw [hfull] at hrest
        rw [unsplit_append hlength hpage hstrict, ← unsplit_perm hrest, ← hexact]
        constructor
        · intro h
          exact ((List.perm_append_left_iff _).1 (h.trans hall)).trans hrest.symm
        · intro h
          exact ((List.perm_append_left_iff _).2 (h.trans hrest)).trans hall.symm
      · -- the page ends before a row of the same key, which is never shown
        obtain ⟨hcount, hsplits⟩ := not_unsplit_of_tie hlength hpage hafter hstrict
        refine iff_of_false (fun h => ?_) hsplits
        have hnone := countP_above_eq_zero fun r hr => (mem_below.1 (hbelow r hr)).2
        have hout : ((first ++ [last]) ++ out).countP (fun r => decide (key last ≤ key r)) ≤
            limit := by
          rw [List.countP_append, hnone, ← hlength]
          exact List.countP_le_length
        rw [(h.trans hall).countP_eq] at hout
        omega
  · have hshort : (order.sort (below key c rows)).length ≤ limit := Nat.le_of_not_lt hlong
    refine ⟨order.sort (below key c rows), ?_, fun r hr => order.mem_sort.1 hr, ?_⟩
    · exact .last (by rw [sortedPage, cut_of_le key hshort])
    · exact iff_of_true hperm (unsplit_of_le (order.length_sort _ ▸ hshort))

end Sorted

/-! ### The newest row of each group -/

section Newest

variable [DecidableEq κ] (key : α → Int) (group : α → κ)

/-- The rows that are the newest of their group. -/
def newest (rows : List α) : List α :=
  rows.filter fun e => decide (∀ e' ∈ rows, group e' = group e → key e' ≤ key e)

variable {key group}

theorem mem_newest {rows : List α} {e : α} :
    e ∈ newest key group rows ↔
      e ∈ rows ∧ ∀ e' ∈ rows, group e' = group e → key e' ≤ key e := by
  rw [newest, List.mem_filter, decide_eq_true_eq]

/-- The first rows of each group, newest first, are the newest ones. -/
theorem firstOfEach_perm_newest (order : OrderBy fun r : α => -key r) {rows : List α}
    (hkeys : (rows.map key).Nodup) :
    (firstOfEach group (order.sort rows)).Perm (newest key group rows) := by
  have hinjective := List.inj_on_of_nodup_map hkeys
  have hnodup : rows.Nodup := List.Nodup.of_map key hkeys
  have hgroups := List.inj_on_of_nodup_map (nodup_firstOfEach group (order.sort rows))
  have hsub : ∀ e ∈ firstOfEach group (order.sort rows), e ∈ rows := fun e he =>
    order.mem_sort.1 ((firstOfEach_sublist group _).subset he)
  have hfirst : ∀ e ∈ rows, ∃ a ∈ firstOfEach group (order.sort rows),
      group a = group e ∧ key e ≤ key a := by
    intro e he
    obtain ⟨a, ha, hgroup, hle⟩ := exists_firstOfEach group (fun a => Int.le_refl (-key a))
      (order.sorted rows) (order.mem_sort.2 he)
    exact ⟨a, ha, hgroup, by omega⟩
  rw [List.perm_ext_iff_of_nodup]
  · intro e
    rw [mem_newest]
    constructor
    · intro he
      refine ⟨hsub e he, fun e' he' hsame => ?_⟩
      obtain ⟨a, ha, hgroup, hle⟩ := hfirst e' he'
      rwa [hgroups ha he (hgroup.trans hsame)] at hle
    · rintro ⟨he, hnewest⟩
      obtain ⟨a, ha, hgroup, hle⟩ := hfirst e he
      have hge := hnewest a (hsub a ha) hgroup
      rwa [hinjective he (hsub a ha) (Int.le_antisymm hle hge)]
  · exact (nodup_firstOfEach group (order.sort rows)).of_map
  · exact hnodup.filter _

variable (key group)

/-- At the end of every full page but the last, no group has rows on both sides. -/
def Unstraddled (limit : Nat) (rows : List α) : Prop :=
  ∀ d ∈ newest key group rows,
    limit ∣ (newest key group rows).countP (fun r => decide (key d ≤ key r)) →
    (newest key group rows).countP (fun r => decide (key d ≤ key r)) <
      (newest key group rows).length →
    ∀ e ∈ rows, ∀ e' ∈ rows, group e = group e' → key e < key d → key e' < key d

variable {key group}

/-- Once no group is on both sides of a row, what is newest below it is newest at all. -/
theorem newest_below {rows : List α} {last : α}
    (hsides : ∀ e ∈ rows, ∀ e' ∈ rows, group e = group e' → key e < key last → key e' < key last)
    {e : α} :
    e ∈ newest key group (below key (some (key last)) rows) ↔
      e ∈ newest key group rows ∧ key e < key last := by
  simp only [mem_newest, mem_below]
  constructor
  · rintro ⟨⟨he, hlt⟩, hnewest⟩
    exact ⟨⟨he, fun e' he' hsame => hnewest e' ⟨he', hsides e he e' he' hsame.symm hlt⟩ hsame⟩, hlt⟩
  · rintro ⟨⟨he, hnewest⟩, hlt⟩
    exact ⟨⟨he, hlt⟩, fun e' he' hsame => hnewest e' he'.1 hsame⟩

/-- What is newest below the first page is the rest of what is newest. -/
theorem newest_below_perm {rows first rest : List α} {last : α} (hkeys : (rows.map key).Nodup)
    (hsides : ∀ e ∈ rows, ∀ e' ∈ rows, group e = group e' → key e < key last → key e' < key last)
    (hnewest : (newest key group rows).Perm ((first ++ [last]) ++ rest))
    (hfirst : ∀ r ∈ first ++ [last], key last ≤ key r) (hrest : ∀ r ∈ rest, key r < key last) :
    (newest key group (below key (some (key last)) rows)).Perm rest := by
  have hnodup : (newest key group rows).Nodup := (List.Nodup.of_map key hkeys).filter _
  rw [List.perm_ext_iff_of_nodup]
  · intro r
    rw [newest_below hsides, hnewest.mem_iff, List.mem_append]
    constructor
    · rintro ⟨hr | hr, hlt⟩
      · exact absurd hlt (Int.not_lt.2 (hfirst r hr))
      · exact hr
    · exact fun hr => ⟨.inr hr, hrest r hr⟩
  · exact (List.Nodup.of_map key (hkeys.sublist (List.filter_sublist.map key))).filter _
  · exact (hnewest.nodup_iff.1 hnodup).sublist (List.sublist_append_right _ _)

/-- A page that ends between two rows of a group is the boundary that straddles it. -/
theorem not_unstraddled_of_sides {limit : Nat} {rows first rest : List α} {last : α}
    (hsides : ¬ ∀ e ∈ rows, ∀ e' ∈ rows, group e = group e' →
      key e < key last → key e' < key last)
    (hnewest : (newest key group rows).Perm ((first ++ [last]) ++ rest))
    (hlength : (first ++ [last]).length = limit) (hfirst : ∀ r ∈ first ++ [last], key last ≤ key r)
    (hrest : ∀ r ∈ rest, key r < key last) (hsome : rest ≠ []) :
    ¬ Unstraddled key group limit rows := by
  intro h
  have hlast : last ∈ newest key group rows :=
    hnewest.mem_iff.2 (List.mem_append_left _ (by simp))
  have hcount : (newest key group rows).countP (fun r => decide (key last ≤ key r)) = limit := by
    rw [hnewest.countP_eq, List.countP_append, countP_above_eq_zero hrest, Nat.add_zero, ← hlength]
    exact countP_above_eq_length hfirst
  have hpos : 0 < rest.length := List.length_pos_of_ne_nil hsome
  have htotal : (newest key group rows).length = limit + rest.length := by
    rw [hnewest.length_eq, List.length_append, hlength]
  exact hsides (h last hlast ⟨1, by rw [hcount, Nat.mul_one]⟩ (by omega))

/-- The first page can be taken off if no group is on both sides of its end. -/
theorem unstraddled_below {limit : Nat} {rows first rest : List α} {last : α}
    (hsides : ∀ e ∈ rows, ∀ e' ∈ rows, group e = group e' → key e < key last → key e' < key last)
    (hnewest : (newest key group rows).Perm ((first ++ [last]) ++ rest))
    (hlength : (first ++ [last]).length = limit) (hfirst : ∀ r ∈ first ++ [last], key last ≤ key r)
    (hrest : (newest key group (below key (some (key last)) rows)).Perm rest) :
    Unstraddled key group limit rows ↔
      Unstraddled key group limit (below key (some (key last)) rows) := by
  have hcount : ∀ d, (newest key group rows).countP (fun r => decide (key d ≤ key r)) =
      (first ++ [last]).countP (fun r => decide (key d ≤ key r)) +
        (newest key group (below key (some (key last)) rows)).countP
          (fun r => decide (key d ≤ key r)) := by
    intro d
    rw [hnewest.countP_eq, hrest.countP_eq, List.countP_append]
  have htotal : (newest key group rows).length =
      limit + (newest key group (below key (some (key last)) rows)).length := by
    rw [hnewest.length_eq, hrest.length_eq, List.length_append, hlength]
  have hfull : ∀ d, key d ≤ key last →
      (first ++ [last]).countP (fun r => decide (key d ≤ key r)) = limit := by
    intro d hd
    rw [← hlength]
    exact countP_above_eq_length fun r hr => Int.le_trans hd (hfirst r hr)
  constructor
  · intro h d hd hdvd hmore e he e' he' hsame hlt
    obtain ⟨hmem, hbelow⟩ := (newest_below hsides).1 hd
    have hall := hfull d (Int.le_of_lt hbelow)
    refine h d hmem ?_ ?_ e (mem_below.1 he).1 e' (mem_below.1 he').1 hsame hlt
    · rw [hcount, hall]
      exact (Nat.dvd_add_right (Nat.dvd_refl limit)).2 hdvd
    · rw [hcount, hall, htotal]
      omega
  · intro h d hd hdvd hmore e he e' he' hsame hlt
    by_cases hbelow : key d < key last
    · have hall := hfull d (Int.le_of_lt hbelow)
      rw [hcount, hall] at hdvd hmore
      have hmem := (newest_below hsides).2 ⟨hd, hbelow⟩
      have he₁ : key e < key last := Int.lt_trans hlt hbelow
      refine h d hmem ((Nat.dvd_add_right (Nat.dvd_refl limit)).1 hdvd) (by omega) e
        (mem_below.2 ⟨he, he₁⟩) e' (mem_below.2 ⟨he', hsides e he e' he' hsame he₁⟩) hsame hlt
    · -- the boundary is the end of the first page itself
      have hnone : (newest key group (below key (some (key last)) rows)).countP
          (fun r => decide (key d ≤ key r)) = 0 :=
        countP_above_eq_zero fun r hr =>
          Int.lt_of_lt_of_le ((newest_below hsides).1 hr).2 (Int.not_lt.1 hbelow)
      have hpage : d ∈ first ++ [last] := by
        rcases List.mem_append.1 (hnewest.mem_iff.1 hd) with hd | hd
        · exact hd
        · exact absurd ((newest_below hsides).1 (hrest.mem_iff.2 hd)).2 hbelow
      have hpos : 0 < (first ++ [last]).countP (fun r => decide (key d ≤ key r)) :=
        List.countP_pos_iff.2 ⟨d, hpage, decide_eq_true (Int.le_refl _)⟩
      rw [hcount, hnone, Nat.add_zero] at hdvd
      have hge := Nat.le_of_dvd hpos hdvd
      have hle := List.countP_le_length (p := fun r => decide (key d ≤ key r))
        (l := first ++ [last])
      have heq : (first ++ [last]).countP (fun r => decide (key d ≤ key r)) =
          (first ++ [last]).length := by omega
      have hlast := of_decide_eq_true (List.countP_eq_length.1 heq last (by simp))
      have hkey : key d = key last := by omega
      rw [hkey] at hlt ⊢
      exact hsides e he e' he' hsame hlt

variable (group) (order : OrderBy fun r : α => -key r) (limit : Nat) (rows : List α)

/-- A page of the newest rows of the groups, of the rows below the cursor. -/
def newestPage (c : Option Int) : Except ε (Page Int α) :=
  .ok (cut limit key ((firstOfEach group (order.sort (below key c rows))).take (limit + 1)))

variable {group limit rows}

theorem nodup_below (hkeys : (rows.map key).Nodup) (c : Option Int) :
    ((below key c rows).map key).Nodup := by
  cases c with
  | none => exact hkeys
  | some c => exact hkeys.sublist (List.filter_sublist.map key)

/-- By induction on the number of rows below the cursor. Every group that has rows below the
cursor comes on some page from there on. -/
theorem follows_newestPage (hlimit : 0 < limit) (hkeys : (rows.map key).Nodup) (c : Option Int) :
    ∃ out, Follows (newestPage (ε := ε) group order limit rows) c out ∧
      (∀ e ∈ below key c rows, ∃ r ∈ out, group r = group e) ∧
      (out.Perm (newest key group (below key c rows)) ↔
        Unstraddled key group limit (below key c rows)) := by
  generalize hn : (below key c rows).length = n
  induction n using Nat.strongRecOn generalizing c with
  | ind n ih =>
  subst hn
  have hdistinct := nodup_below hkeys c
  have hperm : (firstOfEach group (order.sort (below key c rows))).Perm
      (newest key group (below key c rows)) := firstOfEach_perm_newest order hdistinct
  have hgroups := nodup_firstOfEach group (order.sort (below key c rows))
  have hcover : ∀ e ∈ below key c rows,
      ∃ r ∈ firstOfEach group (order.sort (below key c rows)), group r = group e ∧ key e ≤ key r := by
    intro e he
    obtain ⟨r, hr, hgroup, hle⟩ := exists_firstOfEach group (fun a => Int.le_refl (-key a))
      (order.sorted (below key c rows)) (order.mem_sort.2 he)
    exact ⟨r, hr, hgroup, by omega⟩
  by_cases hlong : limit < (firstOfEach group (order.sort (below key c rows))).length
  · obtain ⟨first, last, rest, hsplit, hlength, hsome, hcut⟩ := cut_of_lt hlimit key hlong
    have hnegated : ((below key c rows).map fun r => -key r).Nodup := by
      have hmap : ((below key c rows).map fun r => -key r) =
          ((below key c rows).map key).map fun k => -k := by simp
      rw [hmap]
      exact hdistinct.map fun a b h => Int.neg_inj.1 h
    have hsorted := (order.strict hnegated).sublist (firstOfEach_sublist group _)
    rw [hsplit] at hsorted hperm hgroups hcover
    rw [List.pairwise_append, List.pairwise_cons] at hsorted
    obtain ⟨-, ⟨hlastRest, -⟩, hfirstRest⟩ := hsorted
    have hpage : ∀ r ∈ first ++ [last], key last ≤ key r := fun r =>
      le_of_mem_page fun a ha b hb => Int.le_of_lt (hfirstRest a ha b hb)
    have hafter : ∀ r ∈ rest, key r < key last := by
      intro r hr
      have hlt := hlastRest r hr
      omega
    have hall : (newest key group (below key c rows)).Perm ((first ++ [last]) ++ rest) := by
      rw [List.append_assoc, List.singleton_append]
      exact hperm.symm
    have hlast : last ∈ newest key group (below key c rows) :=
      hall.mem_iff.2 (List.mem_append_left _ (by simp))
    have hmem := (mem_newest.1 hlast).1
    have hless : (below key (some (key last)) rows).length < (below key c rows).length := by
      rw [below_below hmem]
      exact length_below_lt hmem
    obtain ⟨out, hfollows, hcovers, hexact⟩ := ih _ hless (some (key last)) rfl
    rw [below_below hmem] at hcovers hexact
    refine ⟨(first ++ [last]) ++ out, .more (by rw [newestPage, hcut]) hfollows, ?_, ?_⟩
    · intro e he
      obtain ⟨r, hr, hgroup, hle⟩ := hcover e he
      by_cases hbelow : key e < key last
      · obtain ⟨r', hr', hgroup'⟩ := hcovers e (mem_below.2 ⟨he, hbelow⟩)
        exact ⟨r', List.mem_append_right _ hr', hgroup'⟩
      · rw [← List.singleton_append, ← List.append_assoc] at hr
        rcases List.mem_append.1 hr with hr | hr
        · exact ⟨r, List.mem_append_left _ hr, hgroup⟩
        · have hlt := hafter r hr
          omega
    · by_cases hsides : ∀ e ∈ below key c rows, ∀ e' ∈ below key c rows, group e = group e' →
          key e < key last → key e' < key last
      · have hrest := newest_below_perm hdistinct hsides hall hpage hafter
        rw [unstraddled_below hsides hall hlength hpage hrest, ← hexact]
        constructor
        · intro h
          exact ((List.perm_append_left_iff _).1 (h.trans hall)).trans hrest.symm
        · intro h
          exact ((List.perm_append_left_iff _).2 (h.trans hrest)).trans hall.symm
      · -- a group with rows on both sides comes on this page and again later
        refine iff_of_false (fun h => ?_)
          (not_unstraddled_of_sides hsides hall hlength hpage hafter hsome)
        have hnodup : (((first ++ [last]) ++ out).map group).Nodup := by
          have hnewest : ((newest key group (below key c rows)).map group).Nodup :=
            (hperm.map group).nodup_iff.1 hgroups
          exact (h.map group).nodup_iff.2 hnewest
        rw [List.map_append, List.nodup_append] at hnodup
        refine hsides fun e he e' he' hsame hlt => ?_
        by_contra hge
        obtain ⟨r, hr, hgroup, hle⟩ := hcover e' he'
        obtain ⟨r', hr', hgroup'⟩ := hcovers e (mem_below.2 ⟨he, hlt⟩)
        rw [← List.singleton_append, ← List.append_assoc] at hr
        rcases List.mem_append.1 hr with hr | hr
        · exact hnodup.2.2 (group r) (List.mem_map_of_mem hr) (group r')
            (List.mem_map_of_mem hr') (by rw [hgroup, hgroup', hsame])
        · have hlt := hafter r hr
          omega
  · have hshort : (firstOfEach group (order.sort (below key c rows))).length ≤ limit :=
      Nat.le_of_not_lt hlong
    refine ⟨firstOfEach group (order.sort (below key c rows)), ?_, ?_, iff_of_true hperm ?_⟩
    · exact .last (by rw [newestPage, cut_of_le key hshort])
    · exact fun e he => (hcover e he).imp fun r hr => ⟨hr.1, hr.2.1⟩
    · intro d hd hdvd hmore
      have hpos : 0 < (newest key group (below key c rows)).countP
          (fun r => decide (key d ≤ key r)) :=
        List.countP_pos_iff.2 ⟨d, hd, decide_eq_true (Int.le_refl _)⟩
      have hle := Nat.le_of_dvd hpos hdvd
      rw [← hperm.length_eq] at hmore
      omega

end Newest

end Feloxi.Paging
