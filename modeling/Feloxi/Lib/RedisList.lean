import Mathlib.Data.List.Basic

/-!
# Feloxi.Lib.RedisList

Redis lists under their commands, head first, and what the commands do to the list
read from its tail. A list filled by `lpush` and emptied by `rpop` is a queue whose
oldest value is at the tail.

The last part is about a queue whose first values go to its back: it is unchanged
only if it is one block over and over (`drop_append_take_eq_self_iff`).
-/

namespace Feloxi.RedisList

variable {α : Type*}

/-- `LPUSH`: the values go to the head, one after the other. -/
def lpush (l values : List α) : List α := values.foldl (fun l v => v :: l) l

/-- `LTRIM 0 stop`. -/
def ltrim (l : List α) (stop : Nat) : List α := l.take (stop + 1)

/-- `RPOP count`: the values from the tail, the tail first, and the list without them. -/
def rpop (l : List α) (count : Nat) : List α × List α :=
  (l.reverse.take count, l.take (l.length - count))

theorem lpush_eq (l values : List α) : lpush l values = values.reverse ++ l := by
  unfold lpush
  induction values generalizing l with
  | nil => rfl
  | cons v rest ih => rw [List.foldl_cons, ih, List.reverse_cons, List.append_assoc]; rfl

/-- Pushed values are the newest. -/
theorem reverse_lpush (l values : List α) : (lpush l values).reverse = l.reverse ++ values := by
  rw [lpush_eq, List.reverse_append, List.reverse_reverse]

/-- What a pop leaves is what comes after the popped values. -/
theorem reverse_rpop_snd (l : List α) (count : Nat) :
    (rpop l count).2.reverse = l.reverse.drop count := by
  rw [rpop, List.reverse_take, Nat.sub_sub_eq_min]
  by_cases h : count ≤ l.length
  · rw [Nat.min_eq_right h]
  · rw [Nat.min_eq_left (by omega), List.drop_eq_nil_of_le (by simp),
      List.drop_eq_nil_of_le (by rw [List.length_reverse]; omega)]

/-- A trim drops the oldest values. -/
theorem reverse_ltrim (l : List α) (stop : Nat) :
    (ltrim l stop).reverse = l.reverse.drop (l.length - (stop + 1)) := by
  rw [ltrim, List.reverse_take]

/-! ### The first values go to the back -/

/-- A block, over and over. -/
def repeats (k : Nat) (block : List α) : List α := (List.replicate k block).flatten

theorem repeats_add (i j : Nat) (block : List α) :
    repeats (i + j) block = repeats i block ++ repeats j block := by
  rw [repeats, List.replicate_add, List.flatten_append, repeats, repeats]

theorem length_repeats (k : Nat) (block : List α) :
    (repeats k block).length = k * block.length := by
  unfold repeats
  induction k with
  | zero => rw [Nat.zero_mul]; rfl
  | succ k ih =>
      rw [List.replicate_succ, List.flatten_cons, List.length_append, ih, Nat.succ_mul, Nat.add_comm]

/-- Two lists that commute are made of one block. -/
theorem exists_repeats_of_append_comm (n : Nat) (xs ys : List α) (hn : xs.length + ys.length ≤ n)
    (h : xs ++ ys = ys ++ xs) : ∃ i j block, xs = repeats i block ∧ ys = repeats j block := by
  induction n generalizing xs ys with
  | zero =>
      rw [List.eq_nil_of_length_eq_zero (by omega : xs.length = 0),
        List.eq_nil_of_length_eq_zero (by omega : ys.length = 0)]
      exact ⟨0, 0, [], rfl, rfl⟩
  | succ n ih =>
      -- the shorter list is cut off the longer one
      have hcut : ∀ (s l : List α), s ≠ [] → s.length + l.length ≤ n + 1 → s.length ≤ l.length →
          s ++ l = l ++ s → ∃ i j block, s = repeats i block ∧ l = repeats j block := by
        intro s l hs hlen hle hcomm
        obtain ⟨rest, rfl⟩ : ∃ rest, l = s ++ rest :=
          (List.prefix_of_prefix_length_le (List.prefix_append s l)
            (hcomm ▸ List.prefix_append l s) hle).imp fun _ hrest => hrest.symm
        rw [List.append_assoc, List.append_cancel_left_eq] at hcomm
        have hpos := List.length_pos_of_ne_nil hs
        rw [List.length_append] at hlen
        obtain ⟨i, j, block, hi, hj⟩ := ih s rest (by omega) hcomm
        exact ⟨i, i + j, block, hi, by rw [repeats_add, ← hi, ← hj]⟩
      by_cases hxs : xs = []
      · exact ⟨0, 1, ys, hxs, by simp [repeats]⟩
      · by_cases hys : ys = []
        · exact ⟨1, 0, xs, by simp [repeats], hys⟩
        · rcases Nat.le_total xs.length ys.length with hle | hle
          · exact hcut xs ys hxs hn hle h
          · obtain ⟨j, i, block, hj, hi⟩ := hcut ys xs hys (by omega) hle h.symm
            exact ⟨i, j, block, hi, hj⟩

/-- Two lists made of one block. -/
def SameBlock (xs ys : List α) : Prop := ∃ i j block, xs = repeats i block ∧ ys = repeats j block

theorem sameBlock_nil (ys : List α) : SameBlock [] ys := ⟨0, 1, ys, rfl, by simp [repeats]⟩

/-- **Which lists commute.** -/
theorem append_comm_iff (xs ys : List α) : xs ++ ys = ys ++ xs ↔ SameBlock xs ys := by
  constructor
  · exact exists_repeats_of_append_comm _ xs ys (Nat.le_refl _)
  · rintro ⟨i, j, block, rfl, rfl⟩
    rw [← repeats_add, Nat.add_comm, repeats_add]

/-- A queue is one block over and over, and `n` values are a whole number of blocks. -/
def Periodic (n : Nat) (queue : List α) : Prop :=
  ∃ k block, queue = repeats k block ∧ block.length ∣ n

/-- **Which queues keep their order** when their first `n` values go to the back. -/
theorem drop_append_take_eq_self_iff (n : Nat) (queue : List α) :
    queue.drop n ++ queue.take n = queue ↔ queue.length ≤ n ∨ Periodic n queue := by
  by_cases hn : queue.length ≤ n
  · rw [List.drop_eq_nil_of_le hn, List.take_of_length_le hn]
    simp [hn]
  · have hlt : n < queue.length := Nat.lt_of_not_le hn
    constructor
    · intro h
      have hcomm : queue.take n ++ queue.drop n = queue.drop n ++ queue.take n := by
        rw [List.take_append_drop, h]
      obtain ⟨i, j, block, hi, hj⟩ := (append_comm_iff _ _).1 hcomm
      refine .inr ⟨i + j, block, ?_, i, ?_⟩
      · rw [repeats_add, ← hi, ← hj, List.take_append_drop]
      · rw [Nat.mul_comm, ← length_repeats, ← hi, List.length_take, Nat.min_eq_left (by omega)]
    · intro h
      obtain ⟨k, block, rfl, i, rfl⟩ := h.resolve_left hn
      obtain ⟨j, rfl⟩ : ∃ j, k = i + j := by
        rw [length_repeats, Nat.mul_comm] at hlt
        exact Nat.exists_eq_add_of_le (Nat.le_of_lt (Nat.lt_of_mul_lt_mul_right hlt))
      have htake : (repeats (i + j) block).take (block.length * i) = repeats i block := by
        rw [repeats_add, List.take_left' (by rw [length_repeats, Nat.mul_comm])]
      have hdrop : (repeats (i + j) block).drop (block.length * i) = repeats j block := by
        rw [repeats_add, List.drop_left' (by rw [length_repeats, Nat.mul_comm])]
      rw [htake, hdrop, ← repeats_add, Nat.add_comm]

end Feloxi.RedisList
