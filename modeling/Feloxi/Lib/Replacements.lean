import Feloxi.Lib.Assoc

/-!
# Feloxi.Lib.Replacements

Replacing elements of a list by lists, one kind after the other. If what is put in place of one is
left alone by the later replacements, all of them together are one pass
(`replaceAll_eq_flatMap`).
-/

namespace Feloxi.Replacements

variable {α : Type*} [DecidableEq α]

/-- Every `c` replaced. -/
def replace (c : α) (by' : List α) (s : List α) : List α :=
  s.flatMap fun d => if d = c then by' else [d]

/-- The replacements, one after the other. -/
def replaceAll (rules : List (α × List α)) (s : List α) : List α :=
  rules.foldl (fun s rule => replace rule.1 rule.2 s) s

/-- What a single pass puts in place of an element. -/
def image (rules : List (α × List α)) (c : α) : List α := (rules.lookup c).getD [c]

variable {rules : List (α × List α)} {c : α}

theorem image_of_not_mem (h : c ∉ rules.map Prod.fst) : image rules c = [c] := by
  have hnone : rules.lookup c = none := by
    rw [← Option.not_isSome_iff_eq_none, Assoc.isSome_lookup_iff]
    exact h
  rw [image, hnone]
  rfl

/-- An element is kept, or it has a rule. -/
theorem image_cases (rules : List (α × List α)) (c : α) :
    (image rules c = [c] ∧ c ∉ rules.map Prod.fst) ∨ (c, image rules c) ∈ rules := by
  by_cases h : c ∈ rules.map Prod.fst
  · obtain ⟨w, hw⟩ := Option.isSome_iff_exists.1 (Assoc.isSome_lookup_iff.2 h)
    rw [image, hw]
    exact .inr (Assoc.mem_of_lookup hw)
  · exact .inl ⟨image_of_not_mem h, h⟩

theorem flatMap_image_of_not_mem {w : List α} (h : ∀ c ∈ w, c ∉ rules.map Prod.fst) :
    w.flatMap (image rules) = w := by
  induction w with
  | nil => rfl
  | cons c w ih =>
      rw [List.forall_mem_cons] at h
      rw [List.flatMap_cons, image_of_not_mem h.1, ih h.2]
      rfl

/-- **One pass does**, if no later rule touches what an earlier one puts in. -/
theorem replaceAll_eq_flatMap (h : rules.Pairwise fun a b => b.1 ∉ a.2) (s : List α) :
    replaceAll rules s = s.flatMap (image rules) := by
  induction rules generalizing s with
  | nil => exact (flatMap_image_of_not_mem fun _ _ => List.not_mem_nil).symm
  | cons rule rules ih =>
      obtain ⟨k, w⟩ := rule
      obtain ⟨hrule, hrules⟩ := List.pairwise_cons.1 h
      show replaceAll rules (replace k w s) = _
      rw [ih hrules, replace, List.flatMap_assoc]
      refine List.flatMap_congr fun d _ => ?_
      by_cases hd : d = k
      · have hkept : w.flatMap (image rules) = w := by
          refine flatMap_image_of_not_mem fun c hc hmem => ?_
          obtain ⟨later, hlater, rfl⟩ := List.mem_map.1 hmem
          exact hrule later hlater hc
        simp [hd, hkept, image]
      · have hlookup : ((k, w) :: rules).lookup d = rules.lookup d := by
          rw [List.lookup_cons, beq_false_of_ne hd]
        simp [hd, image, hlookup]

/-- What has a rule is gone, unless a rule puts it in. -/
theorem not_mem_flatMap_image (hc : c ∈ rules.map Prod.fst) (hnew : ∀ rule ∈ rules, c ∉ rule.2)
    (s : List α) : c ∉ s.flatMap (image rules) := by
  intro hmem
  obtain ⟨d, -, hd⟩ := List.mem_flatMap.1 hmem
  rcases image_cases rules d with ⟨hkept, hnone⟩ | hrule
  · rw [hkept, List.mem_singleton] at hd
    exact hnone (hd ▸ hc)
  · exact hnew _ hrule hd

end Feloxi.Replacements
