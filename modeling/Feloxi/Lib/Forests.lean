import Mathlib.Logic.Relation
import Mathlib.Data.List.Chain

/-!
# Feloxi.Lib.Forests

Forests that are given by the parents of their nodes, with the depth of each node. `OnlyWay q` says
when the tree of a node is one line: the nodes above it and those below.
-/

namespace Feloxi.Forests

variable {κ : Type*} (parent : κ → Option κ)

/-- `a` is `b` or above it. -/
def Above (a b : κ) : Prop := Relation.ReflTransGen (fun x y => parent x = some y) b a

/-- Two nodes below one. -/
def SameTree (a b : κ) : Prop := ∃ r, Above parent r a ∧ Above parent r b

/-- No node on the way up from `q` has a sibling. -/
def OnlyWay (q : κ) : Prop :=
  ∀ c p, Above parent c q → parent c = some p → ∀ s, parent s = some p → s = c

/-- Every node is one deeper than its parent. -/
def Layered (depth : κ → Nat) : Prop := ∀ c p, parent c = some p → depth c = depth p + 1

variable {parent} {depth : κ → Nat}

theorem Above.refl (a : κ) : Above parent a a := Relation.ReflTransGen.refl

theorem Above.trans {a b c : κ} (h : Above parent a b) (h' : Above parent b c) : Above parent a c :=
  Relation.ReflTransGen.trans h' h

theorem above_parent {c p : κ} (h : parent c = some p) : Above parent p c := .single h

/-- What is above a node is the node, or above its parent. -/
theorem above_iff {a c : κ} : Above parent a c ↔ a = c ∨ ∃ p, parent c = some p ∧ Above parent a p :=
  Relation.ReflTransGen.cases_head_iff.trans (or_congr eq_comm Iff.rfl)

/-- Of two nodes above one, one is above the other. -/
theorem Above.total {a b c : κ} (ha : Above parent a c) (hb : Above parent b c) :
    Above parent a b ∨ Above parent b a := by
  have hunique : Relator.RightUnique fun x y => parent x = some y :=
    fun _ _ _ h h' => Option.some.inj (h.symm.trans h')
  exact (Relation.ReflTransGen.total_of_right_unique hunique ha hb).symm

theorem Above.depth_le (hdepth : Layered parent depth) {a b : κ} (h : Above parent a b) :
    depth a ≤ depth b := by
  induction h with
  | refl => exact Nat.le_refl _
  | tail _ hstep ih =>
      have hone := hdepth _ _ hstep
      omega

theorem Above.eq_of_depth (hdepth : Layered parent depth) {a b : κ} (h : Above parent a b)
    (hsame : depth a = depth b) : a = b := by
  rcases above_iff.1 h with heq | ⟨p, hp, habove⟩
  · exact heq
  · have hle := habove.depth_le hdepth
    have hone := hdepth _ _ hp
    omega

/-- On the way from a node up to another there is one of every depth between. -/
theorem Above.exists_at (hdepth : Layered parent depth) {a b : κ} (h : Above parent a b) {n : Nat}
    (ha : depth a ≤ n) (hb : n ≤ depth b) : ∃ x, Above parent a x ∧ depth x = n := by
  induction h with
  | refl => exact ⟨b, .refl b, by omega⟩
  | @tail c p _ hstep ih =>
      by_cases hn : depth c ≤ n
      · obtain ⟨x, hx, hxn⟩ := ih hn
        exact ⟨x, (above_parent hstep).trans hx, hxn⟩
      · have hone := hdepth _ _ hstep
        exact ⟨p, .refl p, by omega⟩

/-! ### One line -/

/-- The tree of a node is the line above it and what is below, exactly if no node on the way up
has a sibling. -/
theorem sameTree_line_iff (hdepth : Layered parent depth) {q : κ} :
    (∀ t, SameTree parent q t → Above parent t q ∨ Above parent q t) ↔ OnlyWay parent q := by
  constructor
  · intro h c p hc hp s hs
    have hsame : depth s = depth c := by rw [hdepth _ _ hs, hdepth _ _ hp]
    rcases h s ⟨p, (above_parent hp).trans hc, above_parent hs⟩ with hsq | hqs
    · rcases hsq.total hc with habove | habove
      · exact habove.eq_of_depth hdepth hsame
      · exact (habove.eq_of_depth hdepth hsame.symm).symm
    · exact ((hc.trans hqs).eq_of_depth hdepth hsame.symm).symm
  · rintro h t ⟨r, hrq, hrt⟩
    -- down from the common node, as long as the way is that of `q`
    induction hrt using Relation.ReflTransGen.head_induction_on with
    | refl => exact .inl hrq
    | @head t p hstep _ ih =>
        rcases ih with hp | hp
        · rcases (Relation.ReflTransGen.cases_tail_iff _ _ _).1 hp with rfl | ⟨c, hc, hcp⟩
          · exact .inr (above_parent hstep)
          · exact .inl (h c p hc hcp t hstep ▸ hc)
        · exact .inr (hp.trans (above_parent hstep))

/-- What is on the line is in the tree. -/
theorem sameTree_of_line {q t : κ} (h : Above parent t q ∨ Above parent q t) : SameTree parent q t :=
  h.elim (fun h => ⟨t, h, .refl t⟩) fun h => ⟨q, .refl q, h⟩

/-! ### The way down to a node -/

/-- A list of nodes, each the parent of the next. -/
def IsWay (parent : κ → Option κ) (ids : List κ) : Prop := ids.IsChain fun a b => parent b = some a

theorem IsWay.above_last {a q : κ} {ids : List κ} (h : IsWay parent (a :: ids))
    (hlast : (a :: ids).getLast (List.cons_ne_nil a ids) = q) {t : κ} (ht : t ∈ a :: ids) :
    Above parent t q := by
  induction ids generalizing a t with
  | nil =>
      rw [List.mem_singleton.1 ht]
      exact hlast ▸ .refl a
  | cons b ids ih =>
      obtain ⟨hparent, hrest⟩ := List.isChain_cons_cons.1 h
      rcases List.mem_cons.1 ht with rfl | ht
      · exact (above_parent hparent).trans (ih hrest hlast List.mem_cons_self)
      · exact ih hrest hlast ht

theorem IsWay.exists_parent {a x : κ} {ids : List κ} (h : IsWay parent (a :: ids)) (hx : x ∈ ids) :
    ∃ y ∈ a :: ids, parent x = some y := by
  induction ids generalizing a with
  | nil => cases hx
  | cons b ids ih =>
      obtain ⟨hparent, hrest⟩ := List.isChain_cons_cons.1 h
      rcases List.mem_cons.1 hx with rfl | hx
      · exact ⟨a, List.mem_cons_self, hparent⟩
      · obtain ⟨y, hy, hxy⟩ := ih hrest hx
        exact ⟨y, List.mem_cons_of_mem a hy, hxy⟩

/-- The way from a root down to a node has all that is above the node. -/
theorem IsWay.mem_iff {root q : κ} {ids : List κ} (h : IsWay parent (root :: ids))
    (hroot : parent root = none) (hlast : (root :: ids).getLast (List.cons_ne_nil root ids) = q)
    {t : κ} : t ∈ root :: ids ↔ Above parent t q := by
  refine ⟨h.above_last hlast, fun habove => ?_⟩
  induction habove with
  | refl => exact hlast ▸ List.getLast_mem (List.cons_ne_nil root ids)
  | @tail x t _ hstep ih =>
      rcases List.mem_cons.1 ih with rfl | hx
      · cases hroot.symm.trans hstep
      · obtain ⟨y, hy, hxy⟩ := h.exists_parent hx
        rwa [Option.some.inj (hstep.symm.trans hxy)]

/-- Depths grow along a way. -/
theorem IsWay.pairwise (hdepth : Layered parent depth) {ids : List κ} (h : IsWay parent ids) :
    ids.Pairwise fun a b => depth a < depth b := by
  have hchain : ids.IsChain fun a b => depth a < depth b :=
    List.IsChain.imp (fun a b hab => by have hone := hdepth _ _ hab; omega) h
  exact List.isChain_iff_pairwise.1 hchain

end Feloxi.Forests
