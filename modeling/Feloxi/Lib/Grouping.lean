import Mathlib.Data.List.Dedup
import Mathlib.Data.List.Induction
import Mathlib.Data.List.Perm.Basic

/-!
# Feloxi.Lib.Grouping

A list cut into groups by a key. The groups are gone through one key after the other, the list once:
both give the same items, in different orders. A map that is filled in a loop over the list has one
entry for each key, with what the loop makes of the items of that key alone.
-/

namespace Feloxi.Grouping

variable {α β γ κ : Type} [DecidableEq κ]

/-! ### Key by key -/

/-- What a list of keys gives if only one of them counts. -/
theorem flatMap_single {keys : List κ} (hkeys : keys.Nodup) {k : κ} (hk : k ∈ keys) (x : List β) :
    (keys.flatMap fun k' => if k' = k then x else []) = x := by
  induction keys with
  | nil => cases hk
  | cons k' keys ih =>
      obtain ⟨hnew, hkeys⟩ := List.nodup_cons.1 hkeys
      rw [List.flatMap_cons]
      by_cases heq : k' = k
      · have hrest : (keys.flatMap fun k' => if k' = k then x else []) = [] := by
          rw [List.flatMap_eq_nil_iff]
          intro other hother
          rw [if_neg fun h => hnew (by rwa [heq, ← h])]
        rw [if_pos heq, hrest, List.append_nil]
      · rw [if_neg heq, ih hkeys ((List.mem_cons.1 hk).resolve_left (Ne.symm heq))]
        rfl

/-- By groups, or item by item. -/
theorem flatMap_groups_perm {key : α → Option κ} {keys : List κ} (hkeys : keys.Nodup) {l : List α}
    (hl : ∀ a ∈ l, ∀ k, key a = some k → k ∈ keys) (f : κ → α → Option β) :
    (keys.flatMap fun k => (l.filter fun a => key a == some k).filterMap (f k)).Perm
      (l.filterMap fun a => (key a).bind fun k => f k a) := by
  induction l with
  | nil => simp
  | cons a l ih =>
      have hrest := ih fun b hb => hl b (List.mem_cons_of_mem a hb)
      cases hkey : key a with
      | none => simpa [hkey] using hrest
      | some k =>
          have hcons : ∀ k', ((a :: l).filter fun a => key a == some k').filterMap (f k') =
              (if k' = k then (f k a).toList else []) ++
                (l.filter fun a => key a == some k').filterMap (f k') := by
            intro k'
            by_cases heq : k' = k
            · subst heq
              rw [if_pos rfl, List.filter_cons_of_pos (by simp [hkey]), List.filterMap_cons]
              cases f k' a <;> rfl
            · rw [if_neg heq, List.filter_cons_of_neg (by simp [hkey, Ne.symm heq])]
              rfl
          have hfirst := flatMap_single hkeys (hl a List.mem_cons_self k hkey) (f k a).toList
          have happend := List.flatMap_append_perm keys
            (fun k' => if k' = k then (f k a).toList else [])
            fun k' => (l.filter fun a => key a == some k').filterMap (f k')
          have hlast : ((a :: l).filterMap fun a => (key a).bind fun k => f k a) =
              (f k a).toList ++ l.filterMap fun a => (key a).bind fun k => f k a := by
            rw [List.filterMap_cons, hkey, Option.bind_some]
            cases f k a <;> rfl
          rw [hfirst] at happend
          simp only [hcons]
          rw [hlast]
          exact happend.symm.trans (hrest.append_left _)

/-! ### Filling a map -/

variable (key : α → κ) (start : α → γ) (merge : γ → α → γ)

/-- One item: the entry of its key is changed in its place, or added at the end. -/
def upsert (entries : List (κ × γ)) (a : α) : List (κ × γ) :=
  if key a ∈ entries.map Prod.fst then
    entries.map fun e => if e.1 = key a then (e.1, merge e.2 a) else e
  else entries ++ [(key a, start a)]

/-- The map, by the order in which its keys were added. -/
def fill (items : List α) : List (κ × γ) := items.foldl (upsert key start merge) []

/-- What the loop makes of the items of one key. -/
def collect : List α → Option γ
  | [] => none
  | a :: items => some (items.foldl merge (start a))

variable {key start merge}

theorem fill_concat (items : List α) (a : α) :
    fill key start merge (items ++ [a]) = upsert key start merge (fill key start merge items) a := by
  simp [fill]

theorem collect_concat (items : List α) (a : α) : collect start merge (items ++ [a]) =
    some ((collect start merge items).elim (start a) fun c => merge c a) := by
  cases items with
  | nil => rfl
  | cons b items => simp [collect]

theorem keys_upsert (entries : List (κ × γ)) (a : α) :
    (upsert key start merge entries a).map Prod.fst =
      if key a ∈ entries.map Prod.fst then entries.map Prod.fst
      else entries.map Prod.fst ++ [key a] := by
  unfold upsert
  split
  · rw [List.map_map]
    refine List.map_congr_left fun e _ => ?_
    by_cases h : e.1 = key a <;> simp [h]
  · simp

theorem mem_keys_fill {items : List α} {k : κ} :
    k ∈ (fill key start merge items).map Prod.fst ↔ ∃ a ∈ items, key a = k := by
  induction items using List.reverseRecOn generalizing k with
  | nil => simp [fill]
  | append_singleton items a ih =>
      have hsplit : (∃ b ∈ items ++ [a], key b = k) ↔ (∃ b ∈ items, key b = k) ∨ key a = k := by
        simp [or_and_right, exists_or]
      rw [fill_concat, keys_upsert, hsplit]
      split
      · rename_i hmem
        rw [ih]
        refine ⟨.inl, fun h => h.elim id fun hk => ?_⟩
        rw [← hk, ← ih]
        exact hmem
      · rw [List.mem_append, ih, List.mem_singleton, eq_comm]

theorem nodup_keys_fill (items : List α) : ((fill key start merge items).map Prod.fst).Nodup := by
  induction items using List.reverseRecOn with
  | nil => exact .nil
  | append_singleton items a ih =>
      rw [fill_concat, keys_upsert]
      split
      · exact ih
      · rename_i hnew
        rw [List.nodup_append]
        refine ⟨ih, List.nodup_singleton _, ?_⟩
        intro k hk k' hk' heq
        rw [heq, List.mem_singleton.1 hk'] at hk
        exact hnew hk

/-- The entry of a key is what the loop makes of its items alone. -/
theorem collect_of_mem_fill {items : List α} {k : κ} {c : γ}
    (h : (k, c) ∈ fill key start merge items) :
    collect start merge (items.filter fun a => key a = k) = some c := by
  induction items using List.reverseRecOn generalizing c with
  | nil => simp [fill] at h
  | append_singleton items a ih =>
      rw [fill_concat, upsert] at h
      rw [List.filter_append]
      by_cases hk : key a = k
      · have hlast : [a].filter (fun a => decide (key a = k)) = [a] := by simp [hk]
        rw [hlast, collect_concat]
        split at h
        · obtain ⟨⟨k', c'⟩, he, heq⟩ := List.mem_map.1 h
          split at heq
          · obtain ⟨rfl, rfl⟩ := Prod.mk.inj heq
            rw [ih he]
            rfl
          · rename_i hother
            exact absurd ((Prod.mk.inj heq).1.trans hk.symm) hother
        · rename_i hnew
          -- the first item of its key
          have hnone : items.filter (fun a => decide (key a = k)) = [] := by
            rw [List.filter_eq_nil_iff]
            intro b hb hbk
            exact hnew (mem_keys_fill.2 ⟨b, hb, (of_decide_eq_true hbk).trans hk.symm⟩)
          rcases List.mem_append.1 h with h | h
          · exact absurd (mem_keys_fill.1 (List.mem_map_of_mem h)) (by simpa using hnone)
          · obtain ⟨-, rfl⟩ := Prod.mk.inj (List.mem_singleton.1 h)
            rw [hnone]
            rfl
      · have hlast : [a].filter (fun a => decide (key a = k)) = [] := by simp [hk]
        rw [hlast, List.append_nil]
        refine ih ?_
        split at h
        · obtain ⟨e, he, heq⟩ := List.mem_map.1 h
          split at heq
          · rename_i hsame
            exact absurd (hsame.symm.trans (Prod.mk.inj heq).1) hk
          · exact heq ▸ he
        · rcases List.mem_append.1 h with h | h
          · exact h
          · exact absurd (Prod.mk.inj (List.mem_singleton.1 h)).1.symm hk

end Feloxi.Grouping
