import Mathlib.Data.List.Induction
import Mathlib.Data.List.Nodup
import Mathlib.Data.List.Perm.Basic

/-!
# Feloxi.Lib.Ranking

Lists grown from arriving elements: one that ranks before everything there goes to the front, any
other to the back. Which pairs end up in order, and when the first elements are those of the sorted
list.
-/

namespace Feloxi.Ranking

variable {α : Type*} {r : α → α → Prop}

/-! ### Pairs in the order of a list -/

/-- `a` stands somewhere before `b`. -/
def Ahead (l : List α) (a b : α) : Prop := [a, b].Sublist l

theorem Ahead.left {l : List α} {a b : α} (h : Ahead l a b) : a ∈ l :=
  h.subset List.mem_cons_self

theorem Ahead.right {l : List α} {a b : α} (h : Ahead l a b) : b ∈ l :=
  h.subset (List.mem_cons_of_mem a List.mem_cons_self)

@[simp] theorem not_ahead_nil {a b : α} : ¬ Ahead [] a b := by
  simp [Ahead]

theorem ahead_cons {l : List α} {x a b : α} : Ahead (x :: l) a b ↔ Ahead l a b ∨ a = x ∧ b ∈ l := by
  simp only [Ahead]
  constructor
  · intro h
    cases h with
    | cons _ h => exact .inl h
    | cons_cons _ h => exact .inr ⟨rfl, List.singleton_sublist.1 h⟩
  · rintro (h | ⟨rfl, h⟩)
    · exact h.cons x
    · exact (List.singleton_sublist.2 h).cons_cons a

theorem ahead_concat {l : List α} {x a b : α} :
    Ahead (l ++ [x]) a b ↔ Ahead l a b ∨ a ∈ l ∧ b = x := by
  induction l with
  | nil => simp [ahead_cons]
  | cons y l ih =>
      rw [List.cons_append, ahead_cons, ih, ahead_cons, List.mem_append, List.mem_singleton,
        List.mem_cons]
      constructor
      · rintro ((h | ⟨ha, rfl⟩) | ⟨rfl, hb | rfl⟩)
        · exact .inl (.inl h)
        · exact .inr ⟨.inr ha, rfl⟩
        · exact .inl (.inr ⟨rfl, hb⟩)
        · exact .inr ⟨.inl rfl, rfl⟩
      · rintro ((h | ⟨rfl, hb⟩) | ⟨rfl | ha, rfl⟩)
        · exact .inl (.inl h)
        · exact .inr ⟨rfl, .inl hb⟩
        · exact .inr ⟨rfl, .inr rfl⟩
        · exact .inl (.inr ⟨ha, rfl⟩)

theorem ahead_filter {l : List α} {p : α → Bool} {a b : α} :
    Ahead (l.filter p) a b ↔ Ahead l a b ∧ p a ∧ p b := by
  constructor
  · intro h
    exact ⟨h.trans List.filter_sublist, (List.mem_filter.1 h.left).2, (List.mem_filter.1 h.right).2⟩
  · intro h
    have hpair : ([a, b].filter p).Sublist (l.filter p) := h.1.filter p
    simpa [Ahead, h.2.1, h.2.2] using hpair

/-! ### The first elements of a sorted list -/

theorem map_inj_on {β : Type*} {f : α → β} {l l' : List α}
    (hf : ∀ a ∈ l, ∀ b ∈ l', f a = f b → a = b) : l.map f = l'.map f ↔ l = l' := by
  refine ⟨fun h => ?_, fun h => h ▸ rfl⟩
  induction l generalizing l' with
  | nil => exact (List.map_eq_nil_iff.1 h.symm).symm
  | cons a l ih =>
      cases l' with
      | nil => cases h
      | cons b l' =>
          rw [List.map_cons, List.map_cons, List.cons.injEq] at h
          rw [hf a List.mem_cons_self b List.mem_cons_self h.1, ih (fun a ha b hb =>
            hf a (List.mem_cons_of_mem _ ha) b (List.mem_cons_of_mem _ hb)) h.2]

/-- Few elements rank before one of the first. -/
theorem mem_take_iff [DecidableRel r] {sorted : List α} (hasymm : ∀ a b, r a b → ¬ r b a)
    (hs : sorted.Pairwise r) {x : α} (hx : x ∈ sorted) (k : Nat) :
    x ∈ sorted.take k ↔ (sorted.filter fun y => r y x).length < k := by
  induction sorted generalizing k with
  | nil => cases hx
  | cons s sorted ih =>
      obtain ⟨hfirst, hrest⟩ := List.pairwise_cons.1 hs
      cases k with
      | zero => simp
      | succ k =>
          rw [List.take_succ_cons, List.mem_cons]
          by_cases heq : x = s
          · subst heq
            have hnone : (x :: sorted).filter (fun y => r y x) = [] := by
              rw [List.filter_eq_nil_iff]
              intro y hy hyx
              have hyx := of_decide_eq_true hyx
              rcases List.mem_cons.1 hy with rfl | hy
              · exact hasymm _ _ hyx hyx
              · exact hasymm _ _ hyx (hfirst y hy)
            simp [hnone]
          · have hmem := (List.mem_cons.1 hx).resolve_left heq
            have hcount :
                (s :: sorted).filter (fun y => r y x) = s :: sorted.filter (fun y => r y x) :=
              List.filter_cons_of_pos (decide_eq_true (hfirst x hmem))
            rw [hcount, List.length_cons, or_iff_right heq, ih hrest hmem]
            omega

/-- Nothing stands before the first. -/
theorem not_ahead_head {u x : α} {l : List α} (hnodup : (u :: l).Nodup) : ¬ Ahead (u :: l) x u := by
  intro h
  have hnew := (List.nodup_cons.1 hnodup).1
  rcases ahead_cons.1 h with h | ⟨-, h⟩
  · exact hnew h.right
  · exact hnew h

/-- The first `k` are the sorted list's when each of them stands before all that it ranks before. -/
theorem take_eq_take_iff {sorted grown : List α} (hasymm : ∀ a b, r a b → ¬ r b a)
    (hs : sorted.Pairwise r) (hp : grown.Perm sorted) (k : Nat) :
    grown.take k = sorted.take k ↔ ∀ x ∈ sorted.take k, ∀ y ∈ sorted, r x y → Ahead grown x y := by
  induction sorted generalizing grown k with
  | nil => simp [List.perm_nil.1 hp]
  | cons s sorted ih =>
      obtain ⟨hfirst, hrest⟩ := List.pairwise_cons.1 hs
      have hsnew : s ∉ sorted := fun h => hasymm s s (hfirst s h) (hfirst s h)
      cases k with
      | zero => simp
      | succ k =>
          cases grown with
          | nil => exact absurd hp.length_eq (by simp)
          | cons u grown =>
              rw [List.take_succ_cons, List.take_succ_cons]
              constructor
              · intro h
                obtain ⟨rfl, htake⟩ := List.cons.inj h
                have hp' : grown.Perm sorted := hp.cons_inv
                have hahead := (ih hrest hp' k).1 htake
                intro x hx y hy hxy
                rw [ahead_cons]
                have hyrest : y ∈ sorted := by
                  refine (List.mem_cons.1 hy).resolve_left fun heq => ?_
                  subst heq
                  rcases List.mem_cons.1 hx with rfl | hx
                  · exact hasymm _ _ hxy hxy
                  · exact hasymm _ _ hxy (hfirst x (List.mem_of_mem_take hx))
                rcases List.mem_cons.1 hx with rfl | hx
                · exact .inr ⟨rfl, hp'.mem_iff.2 hyrest⟩
                · exact .inl (hahead x hx y hyrest hxy)
              · intro h
                have hnodup : (u :: grown).Nodup :=
                  hp.nodup_iff.2 (hs.imp fun hab heq => by subst heq; exact hasymm _ _ hab hab)
                have hu : u = s := by
                  by_contra hne
                  have humem : u ∈ sorted :=
                    (List.mem_cons.1 (hp.mem_iff.1 List.mem_cons_self)).resolve_left hne
                  exact not_ahead_head hnodup (h s List.mem_cons_self u
                    (List.mem_cons_of_mem s humem) (hfirst u humem))
                subst hu
                have hp' : grown.Perm sorted := hp.cons_inv
                rw [(ih hrest hp' k).2 fun x hx y hy hxy => ?_]
                have hxmem := List.mem_of_mem_take hx
                refine (ahead_cons.1 (h x (List.mem_cons_of_mem u hx) y
                  (List.mem_cons_of_mem u hy) hxy)).resolve_right ?_
                rintro ⟨rfl, -⟩
                exact hsnew hxmem

/-! ### Elements that arrive -/

variable [DecidableRel r]

variable (r) in
/-- `x` arrives. -/
def place (l : List α) (x : α) : List α :=
  if ∀ y ∈ l, r x y then x :: l else l ++ [x]

variable (r) in
/-- The list when all have arrived. -/
def grow (arrivals : List α) : List α := arrivals.foldl (place r) []

theorem grow_concat (arrivals : List α) (x : α) :
    grow r (arrivals ++ [x]) = place r (grow r arrivals) x := by
  rw [grow, List.foldl_append]
  rfl

theorem place_perm (l : List α) (x : α) : (place r l x).Perm (l ++ [x]) := by
  rw [place]
  split
  · exact List.perm_append_singleton x l |>.symm
  · exact List.Perm.refl _

theorem grow_perm (arrivals : List α) : (grow r arrivals).Perm arrivals := by
  induction arrivals using List.reverseRecOn with
  | nil => exact List.Perm.refl _
  | append_singleton arrivals x ih =>
      rw [grow_concat]
      exact (place_perm _ x).trans (ih.append_right [x])

theorem take_place (l : List α) (x : α) (k : Nat) :
    (place r l x).take k =
      (if ∀ y ∈ l, r x y then x :: l.take k else l.take k ++ [x]).take k := by
  rw [place]
  split
  · cases k with
    | zero => rfl
    | succ k =>
        rw [List.take_succ_cons, List.take_succ_cons, List.take_take, Nat.min_eq_left k.le_succ]
  · rw [List.take_append, List.take_append, List.take_take, Nat.min_self, List.length_take]
    congr 2
    omega

/-- A pair ends up in the wrong order when the second came first and something that ranks before
the first had come as well. -/
theorem ahead_grow_iff {arrivals : List α} (hasymm : ∀ a b, r a b → ¬ r b a)
    (htotal : ∀ a ∈ arrivals, ∀ b ∈ arrivals, a ≠ b → r a b ∨ r b a) (hnodup : arrivals.Nodup)
    {x y : α} (hx : x ∈ arrivals) (hy : y ∈ arrivals) (hxy : r x y) :
    Ahead (grow r arrivals) x y ↔ ¬ (Ahead arrivals y x ∧ ∃ z, r z x ∧ Ahead arrivals z x) := by
  induction arrivals using List.reverseRecOn with
  | nil => cases hx
  | append_singleton arrivals w ih =>
      obtain ⟨hwnew, hnodup'⟩ := (List.nodup_concat arrivals w).1 (by rwa [List.concat_eq_append])
      have hgrown : ∀ a, a ∈ grow r arrivals ↔ a ∈ arrivals := fun a => (grow_perm arrivals).mem_iff
      have hold : ∀ a ∈ arrivals ++ [w], a ≠ w → a ∈ arrivals := fun a ha hne =>
        (List.mem_append.1 ha).resolve_right fun h => hne (List.mem_singleton.1 h)
      have hnot : ∀ b, ¬ Ahead arrivals b w := fun b h => hwnew h.right
      simp only [grow_concat, place, hgrown, ahead_concat]
      by_cases hxw : x = w
      · -- the first of the pair has just come
        subst hxw
        have hy : y ∈ arrivals := hold y hy fun h => hasymm _ _ hxy (h ▸ hxy)
        split
        · rename_i hfront
          refine iff_of_true (ahead_cons.2 (.inr ⟨rfl, (hgrown y).2 hy⟩)) ?_
          intro h
          obtain ⟨-, z, hz, hbehind⟩ := h
          exact hasymm _ _ hz (hfront z (hbehind.resolve_left (hnot z)).1)
        · rename_i hback
          refine iff_of_false ?_ (not_not_intro ⟨.inr ⟨hy, rfl⟩, ?_⟩)
          · rw [ahead_concat]
            intro h
            rcases h with h | ⟨h, -⟩
            · exact hwnew ((hgrown x).1 h.left)
            · exact hwnew ((hgrown x).1 h)
          · simp only [not_forall] at hback
            obtain ⟨z, hz, hnot'⟩ := hback
            have hne : z ≠ x := fun h => hwnew (h ▸ hz)
            exact ⟨z, (htotal z (by simp [hz]) x (by simp) hne).resolve_right hnot', .inr ⟨hz, rfl⟩⟩
      · have hx' : x ∈ arrivals := hold x hx hxw
        by_cases hyw : y = w
        · -- the second has just come, and goes to the back
          subst hyw
          rw [if_neg fun hfront => hasymm _ _ hxy (hfront x hx')]
          refine iff_of_true (ahead_concat.2 (.inr ⟨(hgrown x).2 hx', rfl⟩)) ?_
          intro h
          rcases h.1 with hbefore | ⟨-, h⟩
          · exact hwnew hbefore.left
          · exact hxw h
        · have hy' : y ∈ arrivals := hold y hy hyw
          have ih := ih (fun a ha b hb => htotal a (by simp [ha]) b (by simp [hb])) hnodup' hx' hy'
          simp only [hxw, and_false, or_false]
          rw [← ih]
          split
          · simp [ahead_cons, hxw]
          · simp [ahead_concat, hyw]

end Feloxi.Ranking
