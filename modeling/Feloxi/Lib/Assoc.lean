import Mathlib.Data.List.Induction
import Mathlib.Data.List.Nodup

/-!
# Feloxi.Lib.Assoc

Maps kept as lists of entries, where the last write of a key wins. A map built by a
run of writes is read back through the writes: `lookup_putAll`.
-/

namespace Feloxi.Assoc

variable {κ υ : Type*} [DecidableEq κ]

/-- Overwrite the entry of a key, or add one. -/
def put (key : κ) (value : υ) (m : List (κ × υ)) : List (κ × υ) :=
  m.filter (fun e => e.1 != key) ++ [(key, value)]

/-- A run of writes, from the left. -/
def putAll (m : List (κ × υ)) (writes : List (κ × υ)) : List (κ × υ) :=
  writes.foldl (fun m e => put e.1 e.2 m) m

theorem putAll_append (m first second : List (κ × υ)) :
    putAll m (first ++ second) = putAll (putAll m first) second := List.foldl_append

theorem lookup_filter_ne {m : List (κ × υ)} {key k : κ} (h : k ≠ key) :
    (m.filter fun e => e.1 != key).lookup k = m.lookup k := by
  induction m with
  | nil => rfl
  | cons e rest ih =>
      by_cases hkey : e.1 = key
      · have hk : (k == e.1) = false := by
          rw [hkey]
          exact beq_false_of_ne h
        rw [List.filter_cons_of_neg (by simp [hkey]), ih, List.lookup_cons, hk]
      · rw [List.filter_cons_of_pos (by simp [hkey]), List.lookup_cons, List.lookup_cons, ih]

theorem lookup_filter_self (m : List (κ × υ)) (key : κ) :
    (m.filter fun e => e.1 != key).lookup key = none := by
  rw [List.lookup_eq_none_iff]
  intro e he
  have hne : e.1 ≠ key := by simpa using (List.mem_filter.1 he).2
  exact bne_iff_ne.2 hne.symm

@[simp] theorem lookup_put_self (key : κ) (value : υ) (m : List (κ × υ)) :
    (put key value m).lookup key = some value := by
  rw [put, List.lookup_append, lookup_filter_self]
  simp

theorem lookup_put_of_ne {key k : κ} (h : k ≠ key) (value : υ) (m : List (κ × υ)) :
    (put key value m).lookup k = m.lookup k := by
  have hk : (k == key) = false := beq_false_of_ne h
  rw [put, List.lookup_append, lookup_filter_ne h, List.lookup_cons, hk, List.lookup_nil,
    Option.or_none]

/-- **The last write wins.** -/
theorem lookup_putAll (writes : List (κ × υ)) (k : κ) :
    (putAll [] writes).lookup k =
      (writes.filter fun e => decide (e.1 = k)).getLast?.map Prod.snd := by
  induction writes using List.reverseRecOn with
  | nil => rfl
  | append_singleton before e ih =>
      rw [putAll, List.foldl_append, List.foldl_cons, List.foldl_nil, List.filter_append, ← putAll]
      by_cases hk : e.1 = k
      · subst hk
        rw [lookup_put_self, List.filter_cons_of_pos (by simp), List.filter_nil,
          List.getLast?_append]
        rfl
      · rw [lookup_put_of_ne (Ne.symm hk), ih, List.filter_cons_of_neg (by simp [hk]),
          List.filter_nil, List.append_nil]

theorem nodup_put {key : κ} {value : υ} {m : List (κ × υ)} (h : (m.map Prod.fst).Nodup) :
    ((put key value m).map Prod.fst).Nodup := by
  rw [put, List.map_append, List.nodup_append]
  refine ⟨h.sublist (List.filter_sublist.map _), List.nodup_singleton _, ?_⟩
  intro a ha b hb hab
  obtain ⟨e, he, rfl⟩ := List.mem_map.1 ha
  have hne : e.1 ≠ key := by simpa using (List.mem_filter.1 he).2
  exact hne (hab.trans (List.mem_singleton.1 hb))

/-- A map built by writes has one entry per key. -/
theorem nodup_putAll (writes : List (κ × υ)) : ((putAll [] writes).map Prod.fst).Nodup := by
  induction writes using List.reverseRecOn with
  | nil => exact List.nodup_nil
  | append_singleton before e ih =>
      rw [putAll, List.foldl_append]
      exact nodup_put ih

theorem mem_keys_put {key k : κ} {value : υ} {m : List (κ × υ)} :
    k ∈ (put key value m).map Prod.fst ↔ k = key ∨ k ∈ m.map Prod.fst := by
  simp only [put, List.map_append, List.mem_append, List.mem_map, List.mem_filter,
    List.mem_singleton, bne_iff_ne, ne_eq]
  constructor
  · intro h
    rcases h with ⟨e, ⟨he, -⟩, rfl⟩ | ⟨e, rfl, rfl⟩
    · exact .inr ⟨e, he, rfl⟩
    · exact .inl rfl
  · intro h
    rcases h with rfl | ⟨e, he, rfl⟩
    · exact .inr ⟨_, rfl, rfl⟩
    · by_cases hkey : e.1 = key
      · exact .inr ⟨_, rfl, hkey.symm⟩
      · exact .inl ⟨e, ⟨he, hkey⟩, rfl⟩

/-- Its keys are those that were written. -/
theorem mem_keys_putAll {writes : List (κ × υ)} {k : κ} :
    k ∈ (putAll [] writes).map Prod.fst ↔ k ∈ writes.map Prod.fst := by
  induction writes using List.reverseRecOn with
  | nil => exact Iff.rfl
  | append_singleton before e ih =>
      rw [putAll, List.foldl_append, List.foldl_cons, List.foldl_nil, ← putAll, mem_keys_put, ih,
        List.map_append, List.mem_append, List.map_singleton, List.mem_singleton, or_comm]

/-! ### What is found -/

theorem isSome_lookup_iff {m : List (κ × υ)} {k : κ} :
    (m.lookup k).isSome ↔ k ∈ m.map Prod.fst := by
  rw [List.lookup_isSome_iff, List.mem_map]
  exact exists_congr fun e => and_congr_right fun _ => by rw [beq_iff_eq, eq_comm]

theorem mem_of_lookup {m : List (κ × υ)} {k : κ} {v : υ} (h : m.lookup k = some v) : (k, v) ∈ m := by
  obtain ⟨before, after, rfl, -⟩ := List.lookup_eq_some_iff.1 h
  simp

theorem lookup_of_mem {m : List (κ × υ)} (hkeys : (m.map Prod.fst).Nodup) {e : κ × υ}
    (he : e ∈ m) : m.lookup e.1 = some e.2 := by
  obtain ⟨v, hv⟩ := Option.isSome_iff_exists.1 (isSome_lookup_iff.2 (List.mem_map_of_mem he))
  rw [hv, ← List.inj_on_of_nodup_map hkeys (mem_of_lookup hv) he rfl]

theorem mem_putAll {writes : List (κ × υ)} {e : κ × υ} (h : e ∈ putAll [] writes) : e ∈ writes := by
  induction writes using List.reverseRecOn with
  | nil => exact h
  | append_singleton before w ih =>
      rw [putAll_append, putAll, List.foldl_cons, List.foldl_nil, put, List.mem_append] at h
      rcases h with h | h
      · exact List.mem_append_left _ (ih (List.mem_filter.1 h).1)
      · exact List.mem_append_right _ h

/-- Keys that are written once keep what was written. -/
theorem lookup_putAll_of_nodup {writes : List (κ × υ)} (hkeys : (writes.map Prod.fst).Nodup)
    {e : κ × υ} (he : e ∈ writes) : (putAll [] writes).lookup e.1 = some e.2 := by
  have hkey := isSome_lookup_iff.2 (mem_keys_putAll.2 (List.mem_map_of_mem he))
  obtain ⟨v, hv⟩ := Option.isSome_iff_exists.1 hkey
  have hwritten := lookup_of_mem hkeys (mem_putAll (mem_of_lookup hv))
  rw [hv, ← hwritten, lookup_of_mem hkeys he]

end Feloxi.Assoc
