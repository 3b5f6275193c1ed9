import Mathlib.Data.List.Basic

/-!
# Feloxi.Lib.Placeholders

A statement with `?` for values that are bound apart from its text, in order. Text and values are
built part by part; what a value is meant for is told by the text in front of its `?`.
-/

namespace Feloxi.Placeholders

variable {V : Type}

/-- As many values as `?`, and each is meant for the `?` of its place. -/
structure Fills (meant : List Char → V → Prop) (text : List Char) (values : List V) : Prop where
  count : text.count '?' = values.length
  value : ∀ k v, values[k]? = some v →
    ∃ before behind, text = before ++ '?' :: behind ∧ before.count '?' = k ∧ meant before v

/-- What is meant does not depend on the start of the text. -/
def Local (meant : List Char → V → Prop) : Prop :=
  ∀ start before v, meant before v → meant (start ++ before) v

variable {meant : List Char → V → Prop}

theorem Fills.of_not_mem {text : List Char} (h : '?' ∉ text) : Fills meant text [] where
  count := List.count_eq_zero.2 h
  value k v hv := by cases hv

theorem Fills.single {before behind : List Char} {v : V} (hbefore : '?' ∉ before)
    (hbehind : '?' ∉ behind) (h : meant before v) : Fills meant (before ++ '?' :: behind) [v] where
  count := by simp [List.count_eq_zero.2 hbefore, List.count_eq_zero.2 hbehind]
  value k w hw := by
    cases k with
    | zero =>
        obtain rfl := Option.some.inj hw
        exact ⟨before, behind, rfl, List.count_eq_zero.2 hbefore, h⟩
    | succ k => cases hw

theorem Fills.append (hlocal : Local meant) {s t : List Char} {vs ws : List V}
    (hs : Fills meant s vs) (ht : Fills meant t ws) : Fills meant (s ++ t) (vs ++ ws) where
  count := by rw [List.count_append, hs.count, ht.count, List.length_append]
  value k v hv := by
    by_cases hk : k < vs.length
    · rw [List.getElem?_append_left hk] at hv
      obtain ⟨before, behind, rfl, hcount, hmeant⟩ := hs.value k v hv
      exact ⟨before, behind ++ t, by simp, hcount, hmeant⟩
    · rw [List.getElem?_append_right (by omega)] at hv
      obtain ⟨before, behind, rfl, hcount, hmeant⟩ := ht.value _ v hv
      refine ⟨s ++ before, behind, by simp, ?_, hlocal s before v hmeant⟩
      rw [List.count_append, hs.count, hcount]
      omega

/-- One more `?`, that is told by all of the text in front of it. -/
theorem Fills.snoc {s sep : List Char} {vs : List V} {v : V} (hs : Fills meant s vs)
    (hsep : '?' ∉ sep) (h : meant (s ++ sep) v) : Fills meant (s ++ sep ++ ['?']) (vs ++ [v]) where
  count := by simp [hs.count, List.count_eq_zero.2 hsep]
  value k w hw := by
    by_cases hk : k < vs.length
    · rw [List.getElem?_append_left hk] at hw
      obtain ⟨before, behind, rfl, hcount, hmeant⟩ := hs.value k w hw
      exact ⟨before, behind ++ sep ++ ['?'], by simp, hcount, hmeant⟩
    · rw [List.getElem?_append_right (by omega), List.getElem?_singleton] at hw
      split at hw
      · rename_i hlast
        obtain rfl := Option.some.inj hw
        refine ⟨s ++ sep, [], rfl, ?_, h⟩
        rw [List.count_append, hs.count, List.count_eq_zero.2 hsep]
        omega
      · cases hw

end Feloxi.Placeholders
