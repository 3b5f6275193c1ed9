import Mathlib.Logic.Relation

/-!
# Feloxi.Lib.Acyclic

Relations without cycles. Of finitely many nodes they are those that go up some numbering.
-/

namespace Feloxi.Acyclic

variable {κ : Type*} {r : κ → κ → Prop}

/-- No node is reached from itself. -/
def IsAcyclic (r : κ → κ → Prop) : Prop := ∀ x, ¬ Relation.TransGen r x x

theorem isAcyclic_of_rank {rank : κ → Nat} (h : ∀ a b, r a b → rank a < rank b) : IsAcyclic r := by
  have hpath : ∀ {a b}, Relation.TransGen r a b → rank a < rank b := by
    intro a b hab
    induction hab with
    | single hstep => exact h _ _ hstep
    | tail _ hstep ih => exact Nat.lt_trans ih (h _ _ hstep)
  exact fun x hcycle => Nat.lt_irrefl _ (hpath hcycle)

open Classical in
/-- How many of the nodes a node is reached from. -/
noncomputable def height (r : κ → κ → Prop) (nodes : List κ) (b : κ) : Nat :=
  (nodes.filter fun a => decide (Relation.TransGen r a b)).length

open Classical in
theorem height_lt (hacyclic : IsAcyclic r) {nodes : List κ} {a b : κ} (ha : a ∈ nodes)
    (hab : r a b) : height r nodes a < height r nodes b := by
  have hsub : (nodes.filter fun x => decide (Relation.TransGen r x a)) =
      (nodes.filter fun x => decide (Relation.TransGen r x b)).filter
        fun x => decide (Relation.TransGen r x a) := by
    rw [List.filter_filter]
    refine List.filter_congr fun x _ => ?_
    rw [Bool.eq_iff_iff, Bool.and_eq_true, decide_eq_true_eq, decide_eq_true_eq]
    exact ⟨fun h => ⟨h, h.tail hab⟩, fun h => h.1⟩
  unfold height
  rw [hsub, List.length_filter_lt_length_iff_exists]
  refine ⟨a, List.mem_filter.2 ⟨ha, decide_eq_true (.single hab)⟩, fun h => ?_⟩
  exact hacyclic a (of_decide_eq_true h)

open Classical in
/-- A node is not reached from itself. -/
theorem height_lt_length (hacyclic : IsAcyclic r) {nodes : List κ} {b : κ} (hb : b ∈ nodes) :
    height r nodes b < nodes.length := by
  rw [height, List.length_filter_lt_length_iff_exists]
  exact ⟨b, hb, fun h => hacyclic b (of_decide_eq_true h)⟩

theorem isAcyclic_iff_exists_rank {nodes : List κ} (hnodes : ∀ a b, r a b → a ∈ nodes) :
    IsAcyclic r ↔ ∃ rank : κ → Nat, ∀ a b, r a b → rank a < rank b := by
  constructor
  · exact fun h => ⟨height r nodes, fun a b hab => height_lt h (hnodes a b hab) hab⟩
  · rintro ⟨rank, hrank⟩
    exact isAcyclic_of_rank hrank

end Feloxi.Acyclic
