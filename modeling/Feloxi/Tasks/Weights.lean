import Feloxi.Tasks.Cuts

/-!
# Feloxi.Tasks.Weights

Why a value that was changed never comes back by chance. Each cut of a string at a space
takes weight from a value, and so does each escape and each integer that is read back as a
float. What comes back with the weight of the original is the original.
-/

namespace Feloxi.Tasks

open PyValue (intText escape quote tupleEnd text textItems textEntries Printed print printItems
  printEntries beforeLastSpace truncate toJson toJsonItems toJsonEntries)

/-! ### The weight of a value -/

mutual

def weight : PyValue → Nat
  | .none => 0
  | .bool _ => 0
  | .int _ => 1
  | .str s => textWeight s.toList
  | .list xs => itemsWeight xs
  | .tuple xs => itemsWeight xs
  | .dict entries => entriesWeight entries

def itemsWeight : List PyValue → Nat
  | [] => 0
  | x :: xs => weight x + itemsWeight xs

def entriesWeight : List (String × PyValue) → Nat
  | [] => 0
  | (k, x) :: entries => textWeight k.toList + (weight x + entriesWeight entries)

end

mutual

def jsonWeight : Json → Nat
  | .null => 0
  | .bool _ => 0
  | .int _ => 1
  | .float _ => 0
  | .str s => textWeight s.toList
  | .arr vs => jsonsWeight vs
  | .obj entries => fieldsWeight entries

def jsonsWeight : List Json → Nat
  | [] => 0
  | v :: vs => jsonWeight v + jsonsWeight vs

def fieldsWeight : List (String × Json) → Nat
  | [] => 0
  | (k, v) :: entries => textWeight k.toList + (jsonWeight v + fieldsWeight entries)

end

/-- Not heavier, and of the same weight only if it is the same. -/
structure Lighter {α : Type} (w : α → Nat) (shown original : α) : Prop where
  le : w shown ≤ w original
  eq : w shown = w original → shown = original

theorem Lighter.refl {α : Type} (w : α → Nat) (a : α) : Lighter w a a :=
  ⟨Nat.le_refl _, fun _ => rfl⟩

/-! ### Cuts -/

theorem beforeLastSpace_append {s : List Char} (h : ' ' ∈ s) :
    ∃ rest, s = beforeLastSpace s ++ ' ' :: rest := by
  have hsplit := List.takeWhile_append_dropWhile (p := (· != ' ')) (l := s.reverse)
  have hne : s.reverse.dropWhile (· != ' ') ≠ [] := by
    rw [ne_eq, List.dropWhile_eq_nil_iff]
    intro hall
    have := hall ' ' (List.mem_reverse.2 h)
    simp at this
  obtain ⟨c, more, hdrop⟩ := List.exists_cons_of_ne_nil hne
  have hc : c = ' ' := by
    have hhead := List.head_dropWhile_not (· != ' ') hne
    simpa [hdrop] using hhead
  subst hc
  refine ⟨(s.reverse.takeWhile (· != ' ')).reverse, ?_⟩
  rw [beforeLastSpace, if_pos h, hdrop, List.tail_cons]
  calc
    s = (s.reverse.takeWhile (· != ' ') ++ s.reverse.dropWhile (· != ' ')).reverse := by
      rw [hsplit, List.reverse_reverse]
    _ = _ := by rw [hdrop, List.reverse_append, List.reverse_cons, List.append_assoc]; rfl

theorem length_le_escape (s : List Char) : s.length ≤ (escape s).length := by
  induction s with
  | nil => exact Nat.le_refl _
  | cons c s ih =>
      by_cases hc : c = '\''
      · subst hc
        rw [escape_quote, List.length_cons, List.length_cons, List.length_cons]
        omega
      · rw [escape_cons hc, List.length_cons, List.length_cons]
        omega

/-- A string that was cut and left something of the budget was cut at a space. -/
theorem truncate_lighter {budget : Nat} {s : String}
    (h : 0 < budget - (quote (truncate budget s)).length) :
    Lighter (fun s : String => textWeight s.toList) (truncate budget s) s := by
  unfold truncate at h ⊢
  split
  · rename_i hlong
    rw [if_pos hlong] at h
    have htake : (s.toList.take budget).length = budget :=
      List.length_take_of_le (by rwa [String.length_toList])
    have htext : (String.ofList (beforeLastSpace (s.toList.take budget)) ++ "...").toList =
        beforeLastSpace (s.toList.take budget) ++ ['.', '.', '.'] := by
      rw [String.toList_append, String.toList_ofList]
      rfl
    have hquote := length_le_escape (beforeLastSpace (s.toList.take budget) ++ ['.', '.', '.'])
    by_cases hspace : ' ' ∈ s.toList.take budget
    · obtain ⟨rest, hsplit⟩ := beforeLastSpace_append hspace
      have hlt : textWeight (beforeLastSpace (s.toList.take budget) ++ ['.', '.', '.']) <
          textWeight s.toList := by
        have hweight : textWeight s.toList =
            textWeight (beforeLastSpace (s.toList.take budget)) + textWeight (' ' :: rest) +
              textWeight (s.toList.drop budget) := by
          rw [← textWeight_append, ← textWeight_append, ← hsplit, List.take_append_drop]
        have hdots : textWeight ['.', '.', '.'] = 6 := rfl
        have hone : textWeight [' '] = 7 := rfl
        rw [textWeight_append, hweight, textWeight_cons ' ' rest]
        omega
      rw [← htext] at hlt
      exact ⟨Nat.le_of_lt hlt, fun heq => absurd heq (Nat.ne_of_lt hlt)⟩
    · -- without a space the cut takes all that is left
      have hwhole : beforeLastSpace (s.toList.take budget) = s.toList.take budget :=
        if_neg hspace
      rw [quote, htext, List.length_cons, List.length_append] at h
      rw [List.length_append, hwhole, htake] at hquote
      rw [hwhole] at h
      omega
  · exact Lighter.refl _ s

/-- A printed value, and what was left of the budget. -/
structure Shown {α : Type} (w : α → Nat) (budget left : Nat) (shown original : α) : Prop where
  left_le : left ≤ budget
  lighter : 0 < left → Lighter w shown original

/-- A token that is never cut. -/
theorem shown_token {α : Type} (w : α → Nat) {lead : List Char} {budget left : Nat} {u x : α}
    (h : Printed.token lead (.done x) budget = .done u left) : Shown w budget left u x := by
  obtain ⟨-, h⟩ := Printed.token_done h
  cases h
  exact ⟨Nat.sub_le budget lead.length, fun _ => Lighter.refl w _⟩

theorem shown_string {budget left : Nat} {s t : String}
    (h : Printed.string s budget = .done t left) :
    Shown (fun s : String => textWeight s.toList) budget left t s := by
  obtain ⟨-, rfl, rfl⟩ := Printed.string_done h
  exact ⟨Nat.sub_le _ _, truncate_lighter⟩

theorem Lighter.cons {x x' : PyValue} {xs xs' : List PyValue} (hx : Lighter weight x' x)
    (hxs : Lighter itemsWeight xs' xs) : Lighter itemsWeight (x' :: xs') (x :: xs) := by
  have hle := hx.le
  have hle' := hxs.le
  refine ⟨Nat.add_le_add hle hle', fun heq => ?_⟩
  rw [itemsWeight, itemsWeight] at heq
  rw [hx.eq (by omega), hxs.eq (by omega)]

theorem Lighter.entry {k k' : String} {x x' : PyValue} {entries entries' : List (String × PyValue)}
    (hk : Lighter (fun s : String => textWeight s.toList) k' k) (hx : Lighter weight x' x)
    (hentries : Lighter entriesWeight entries' entries) :
    Lighter entriesWeight ((k', x') :: entries') ((k, x) :: entries) := by
  have hle : textWeight k'.toList ≤ textWeight k.toList := hk.le
  have hle' := hx.le
  have hle'' := hentries.le
  refine ⟨Nat.add_le_add hle (Nat.add_le_add hle' hle''), fun heq => ?_⟩
  rw [entriesWeight, entriesWeight] at heq
  have hkeq : textWeight k'.toList = textWeight k.toList := by omega
  rw [hk.eq hkeq, hx.eq (by omega), hentries.eq (by omega)]

/-- Within brackets, which are printed in whole only if something is left for their end. -/
theorem shown_bracketed {α β : Type} {w : α → Nat} {g : β → Nat} {opening closing : List Char}
    {body : Nat → Printed α} {textOf : α → List Char} {budget left : Nat} {u original : α}
    (f : α → β) (hf : ∀ x, g (f x) = w x)
    (h : Printed.bracketed opening closing body textOf budget = .done u left)
    (hbody : ∀ {budget left u}, body budget = .done u left → Shown w budget left u original) :
    left ≤ budget ∧ Lighter g (f u) (f original) := by
  obtain ⟨within, hpos, hread, rfl⟩ := Printed.bracketed_done h
  obtain ⟨hle, hlighter⟩ := hbody hread
  refine ⟨by omega, ?_, fun heq => ?_⟩
  · rw [hf, hf]
    exact (hlighter hpos).le
  · rw [hf, hf] at heq
    rw [(hlighter hpos).eq heq]

/-- The elements after the first, from those of a list of their own. -/
theorem shown_itemsTail {xs us : List PyValue} {budget left : Nat}
    (h : printItems false xs budget = .done us left)
    (hitems : ∀ {budget left}, printItems true xs budget = .done us left →
      Shown itemsWeight budget left us xs) : Shown itemsWeight budget left us xs := by
  cases xs with
  | nil =>
      cases h
      exact ⟨Nat.le_refl _, fun _ => Lighter.refl _ _⟩
  | cons x xs =>
      rw [PyValue.printItems_false] at h
      obtain ⟨hle, hlighter⟩ := hitems (Printed.token_done h).2
      exact ⟨Nat.le_trans hle (Nat.sub_le _ _), hlighter⟩

theorem shown_dictTail {entries us : List (String × PyValue)} {budget left : Nat}
    (h : printEntries false entries budget = .done us left)
    (hdict : ∀ {budget left}, printEntries true entries budget = .done us left →
      Shown entriesWeight budget left us entries) :
    Shown entriesWeight budget left us entries := by
  cases entries with
  | nil =>
      cases h
      exact ⟨Nat.le_refl _, fun _ => Lighter.refl _ _⟩
  | cons entry entries =>
      rw [PyValue.printEntries_false] at h
      obtain ⟨hle, hlighter⟩ := hdict (Printed.token_done h).2
      exact ⟨Nat.le_trans hle (Nat.sub_le _ _), hlighter⟩

mutual

/-- **A value that was printed in whole** has lost weight to every cut. -/
theorem shown_print : ∀ (v : PyValue) {budget left : Nat} {u : PyValue},
    v.print budget = .done u left → Shown weight budget left u v
  | .none, _, _, _, h => shown_token weight h
  | .bool b, _, _, _, h => shown_token weight h
  | .int n, _, _, _, h => shown_token weight h
  | .str s, _, _, _, h => by
      obtain ⟨t, ht, rfl⟩ := Printed.map_done h
      obtain ⟨hle, hlighter⟩ := shown_string ht
      exact ⟨hle, fun hpos => ⟨(hlighter hpos).le, fun heq => by rw [(hlighter hpos).eq heq]⟩⟩
  | .list xs, _, _, _, h => by
      obtain ⟨us, hus, rfl⟩ := Printed.map_done h
      obtain ⟨hle, hlighter⟩ := shown_bracketed (g := weight) .list (fun _ => rfl) hus
        (shown_printItems xs)
      exact ⟨hle, fun _ => hlighter⟩
  | .tuple xs, _, _, _, h => by
      obtain ⟨us, hus, rfl⟩ := Printed.map_done h
      obtain ⟨hle, hlighter⟩ := shown_bracketed (g := weight) .tuple (fun _ => rfl) hus
        (shown_printItems xs)
      exact ⟨hle, fun _ => hlighter⟩
  | .dict entries, _, _, _, h => by
      obtain ⟨us, hus, rfl⟩ := Printed.map_done h
      obtain ⟨hle, hlighter⟩ := shown_bracketed (g := weight) .dict (fun _ => rfl) hus
        (shown_printEntries entries)
      exact ⟨hle, fun _ => hlighter⟩

theorem shown_printItems : ∀ (xs : List PyValue) {budget left : Nat} {us : List PyValue},
    printItems true xs budget = .done us left → Shown itemsWeight budget left us xs
  | [], _, _, _, h => by
      cases h
      exact ⟨Nat.le_refl _, fun _ => Lighter.refl _ _⟩
  | x :: xs, budget, left, us, h => by
      rw [PyValue.printItems_true] at h
      obtain ⟨x', middle, hx, h⟩ := Printed.andThen_done h
      obtain ⟨xs', hxs, rfl⟩ := Printed.map_done h
      have hfirst := shown_print x hx
      have hothers := shown_itemsTail hxs (shown_printItems xs)
      have hle := hothers.left_le
      refine ⟨Nat.le_trans hle hfirst.left_le, fun hpos => ?_⟩
      exact (hfirst.lighter (by omega)).cons (hothers.lighter hpos)

theorem shown_printEntries : ∀ (entries : List (String × PyValue)) {budget left : Nat}
    {us : List (String × PyValue)}, printEntries true entries budget = .done us left →
      Shown entriesWeight budget left us entries
  | [], _, _, _, h => by
      cases h
      exact ⟨Nat.le_refl _, fun _ => Lighter.refl _ _⟩
  | (k, x) :: entries, budget, left, us, h => by
      rw [PyValue.printEntries_true] at h
      obtain ⟨k', beforeColon, hk, h⟩ := Printed.andThen_done h
      obtain ⟨-, h⟩ := Printed.token_done h
      obtain ⟨x', middle, hx, h⟩ := Printed.andThen_done h
      obtain ⟨entries', hentries, rfl⟩ := Printed.map_done h
      have hkey := shown_string hk
      have hfirst := shown_print x hx
      have hothers := shown_dictTail hentries (shown_printEntries entries)
      have hkle := hkey.left_le
      have hxle := hfirst.left_le
      have hle := hothers.left_le
      refine ⟨by omega, fun hpos => ?_⟩
      exact (hkey.lighter (by omega)).entry (hfirst.lighter (by omega)) (hothers.lighter hpos)

end

/-! ### Reading back -/

mutual

/-- Every string is legible and every integer in the range of a float. -/
def readable : PyValue → Bool
  | .none => true
  | .bool _ => true
  | .int n => decide (n.natAbs < f64Limit)
  | .str s => legible s.toList
  | .list xs => readableItems xs
  | .tuple xs => readableItems xs
  | .dict entries => readableEntries entries

def readableItems : List PyValue → Bool
  | [] => true
  | x :: xs => readable x && readableItems xs

def readableEntries : List (String × PyValue) → Bool
  | [] => true
  | (k, x) :: entries => legible k.toList && (readable x && readableEntries entries)

end

mutual

/-- No string holds a backslash, and every integer is in the range of `i64`. -/
def plain : PyValue → Bool
  | .none => true
  | .bool _ => true
  | .int n => decide (IsI64 n)
  | .str s => decide ('\\' ∉ s.toList)
  | .list xs => plainItems xs
  | .tuple xs => plainItems xs
  | .dict entries => plainEntries entries

def plainItems : List PyValue → Bool
  | [] => true
  | x :: xs => plain x && plainItems xs

def plainEntries : List (String × PyValue) → Bool
  | [] => true
  | (k, x) :: entries => decide ('\\' ∉ k.toList) && (plain x && plainEntries entries)

end

theorem natAbs_lt_f64Limit {n : Int} (h : IsI64 n) : n.natAbs < f64Limit := by
  have hlimit : 2 ^ 63 < f64Limit := by
    have hpow : ∀ {m n : ℕ}, m < n → 2 ^ m < 2 ^ n := Nat.pow_lt_pow_right (by decide)
    have hsub : ∀ m n : ℕ, 63 < m → m + 1 < n → 2 ^ 63 < 2 ^ n - 2 ^ m := by
      intro m n hm hn
      have hlow := hpow hm
      have hhigh := hpow hn
      rw [Nat.two_pow_succ] at hhigh
      omega
    unfold f64Limit
    exact hsub 970 1024 (by decide) (by decide)
  have hle : n.natAbs ≤ 2 ^ 63 := by
    obtain ⟨hge, hlt⟩ := h
    omega
  exact Nat.lt_of_le_of_lt hle hlimit

theorem readInt_isSome (n : Int) : (readInt n).isSome = decide (n.natAbs < f64Limit) := by
  unfold readInt
  by_cases hrange : IsI64 n
  · rw [if_pos hrange, decide_eq_true (natAbs_lt_f64Limit hrange)]
    rfl
  · rw [if_neg hrange]
    by_cases hlimit : n.natAbs < f64Limit
    · rw [if_pos hlimit, decide_eq_true hlimit]
      rfl
    · rw [if_neg hlimit, decide_eq_false hlimit]
      rfl

theorem readStr_isSome (s : String) : (readStr s).isSome = legible s.toList := by
  unfold readStr
  cases legible s.toList <;> rfl

theorem isSome_bind_map {α β γ : Type} (x : Option α) (y : Option β) (f : α → β → γ) :
    (x.bind fun v => y.map (f v)).isSome = (x.isSome && y.isSome) := by
  cases x <;> cases y <;> rfl

mutual

/-- What is readable is read back, and nothing else. -/
theorem readBack_isSome : ∀ v : PyValue, (readBack v).isSome = readable v
  | .none => rfl
  | .bool _ => rfl
  | .int n => readInt_isSome n
  | .str s => by rw [readBack, readable, Option.isSome_map, readStr_isSome]
  | .list xs => by rw [readBack, readable, Option.isSome_map, readBackItems_isSome xs]
  | .tuple xs => by rw [readBack, readable, Option.isSome_map, readBackItems_isSome xs]
  | .dict entries => by rw [readBack, readable, Option.isSome_map, readBackEntries_isSome entries]

theorem readBackItems_isSome : ∀ xs : List PyValue, (readBackItems xs).isSome = readableItems xs
  | [] => rfl
  | x :: xs => by
      rw [readBackItems, readableItems, isSome_bind_map, readBack_isSome x,
        readBackItems_isSome xs]

theorem readBackEntries_isSome : ∀ entries : List (String × PyValue),
    (readBackEntries entries).isSome = readableEntries entries
  | [] => rfl
  | (k, x) :: entries => by
      rw [readBackEntries, readableEntries, ← readStr_isSome k, ← readBack_isSome x,
        ← readBackEntries_isSome entries]
      cases readStr k with
      | none => rfl
      | some key => exact isSome_bind_map _ _ _

end

theorem readInt_of_isI64 {n : Int} (h : IsI64 n) : readInt n = some (.int n) := if_pos h

theorem readStr_of_plain {s : String} (h : '\\' ∉ s.toList) : readStr s = some s := by
  have hlegible := legible_of_plain h
  rw [readStr, if_pos hlegible]
  rcases decoded_weight hlegible with ⟨heq, -⟩ | ⟨hmem, -⟩
  · rw [heq, String.ofList_toList]
  · exact absurd hmem h

mutual

/-- A plain value comes back as it was. -/
theorem readBack_of_plain : ∀ v : PyValue, plain v = true → readBack v = some v.toJson
  | .none, _ => rfl
  | .bool _, _ => rfl
  | .int n, h => readInt_of_isI64 (of_decide_eq_true h)
  | .str s, h => by rw [readBack, readStr_of_plain (of_decide_eq_true h)]; rfl
  | .list xs, h => by rw [readBack, readBackItems_of_plain xs h]; rfl
  | .tuple xs, h => by rw [readBack, readBackItems_of_plain xs h]; rfl
  | .dict entries, h => by rw [readBack, readBackEntries_of_plain entries h]; rfl

theorem readBackItems_of_plain : ∀ xs : List PyValue, plainItems xs = true →
    readBackItems xs = some (toJsonItems xs)
  | [], _ => rfl
  | x :: xs, h => by
      obtain ⟨hx, hxs⟩ := Bool.and_eq_true_iff.1 h
      rw [readBackItems, readBack_of_plain x hx, readBackItems_of_plain xs hxs]
      rfl

theorem readBackEntries_of_plain : ∀ entries : List (String × PyValue),
    plainEntries entries = true → readBackEntries entries = some (toJsonEntries entries)
  | [], _ => rfl
  | (k, x) :: entries, h => by
      obtain ⟨hk, h⟩ := Bool.and_eq_true_iff.1 h
      obtain ⟨hx, hentries⟩ := Bool.and_eq_true_iff.1 h
      rw [readBackEntries, readStr_of_plain (of_decide_eq_true hk), readBack_of_plain x hx,
        readBackEntries_of_plain entries hentries]
      rfl

end

/-! ### The weight of what comes back -/

theorem keys_insertEntry (key : String) (v : Json) (entries : List (String × Json)) (k : String) :
    k ∈ (Json.insertEntry key v entries).map Prod.fst ↔ k = key ∨ k ∈ entries.map Prod.fst := by
  induction entries with
  | nil => simp [Json.insertEntry]
  | cons e entries ih =>
      obtain ⟨k', v'⟩ := e
      unfold Json.insertEntry
      split
      · rename_i heq
        subst heq
        simp
      · split
        · simp
        · rw [List.map_cons, List.mem_cons, ih, List.map_cons, List.mem_cons]
          tauto

/-- Inserting an entry adds its weight, less that of the one it replaces. -/
theorem fieldsWeight_insertEntry (key : String) (v : Json) (entries : List (String × Json)) :
    fieldsWeight (Json.insertEntry key v entries) ≤ fieldsWeight ((key, v) :: entries) ∧
      (key ∉ entries.map Prod.fst →
        fieldsWeight (Json.insertEntry key v entries) = fieldsWeight ((key, v) :: entries)) := by
  induction entries with
  | nil => exact ⟨Nat.le_refl _, fun _ => rfl⟩
  | cons e entries ih =>
      obtain ⟨k', v'⟩ := e
      unfold Json.insertEntry
      by_cases hkey : key = k'
      · rw [if_pos hkey]
        refine ⟨?_, fun hnot => absurd (hkey ▸ List.mem_cons_self) hnot⟩
        simp only [fieldsWeight]
        omega
      · rw [if_neg hkey]
        by_cases hlt : key < k'
        · rw [if_pos hlt]
          exact ⟨Nat.le_refl _, fun _ => rfl⟩
        · rw [if_neg hlt]
          obtain ⟨hle, heq⟩ := ih
          simp only [fieldsWeight] at hle heq ⊢
          refine ⟨by omega, fun hnot => ?_⟩
          have := heq fun hmem => hnot (List.mem_cons_of_mem _ hmem)
          omega

/-- Entries of distinct keys are all kept. -/
theorem fieldsWeight_foldl (entries acc : List (String × Json)) :
    let all := entries.foldl (fun acc e => Json.insertEntry e.1 e.2 acc) acc
    fieldsWeight all ≤ fieldsWeight entries + fieldsWeight acc ∧
      ((entries.map Prod.fst).Nodup → (∀ k ∈ entries.map Prod.fst, k ∉ acc.map Prod.fst) →
        fieldsWeight all = fieldsWeight entries + fieldsWeight acc) := by
  induction entries generalizing acc with
  | nil => exact ⟨by simp [fieldsWeight], fun _ _ => by simp [fieldsWeight]⟩
  | cons e entries ih =>
      obtain ⟨k, v⟩ := e
      obtain ⟨hle, heq⟩ := ih (Json.insertEntry k v acc)
      obtain ⟨hle', heq'⟩ := fieldsWeight_insertEntry k v acc
      simp only [fieldsWeight] at hle' heq' ⊢
      refine ⟨Nat.le_trans hle (by omega), fun hnodup hdisjoint => ?_⟩
      rw [List.map_cons, List.nodup_cons] at hnodup
      have hfold := heq hnodup.2 fun k' hk' hmem => by
        rcases (keys_insertEntry k v acc k').1 hmem with rfl | hmem
        · exact hnodup.1 hk'
        · exact hdisjoint k' (List.mem_cons_of_mem _ hk') hmem
      have hinsert := heq' (hdisjoint k List.mem_cons_self)
      rw [List.foldl_cons, hfold, hinsert]
      omega

theorem jsonWeight_ofEntries_le (entries : List (String × Json)) :
    jsonWeight (.ofEntries entries) ≤ fieldsWeight entries := by
  have h := (fieldsWeight_foldl entries []).1
  exact h

theorem jsonWeight_ofEntries {entries : List (String × Json)}
    (h : (entries.map Prod.fst).Nodup) :
    jsonWeight (.ofEntries entries) = fieldsWeight entries :=
  (fieldsWeight_foldl entries []).2 h fun _ _ => List.not_mem_nil

theorem readInt_weight {n : Int} {v : Json} (h : readInt n = some v) :
    jsonWeight v ≤ 1 ∧ (jsonWeight v = 1 → IsI64 n) := by
  unfold readInt at h
  split at h
  · rename_i hrange
    cases h
    exact ⟨Nat.le_refl _, fun _ => hrange⟩
  · split at h
    · cases h
      exact ⟨Nat.zero_le _, nofun⟩
    · cases h

theorem readStr_weight {s t : String} (h : readStr s = some t) :
    textWeight t.toList ≤ textWeight s.toList ∧
      (textWeight t.toList = textWeight s.toList → '\\' ∉ s.toList) := by
  unfold readStr at h
  split at h
  · rename_i hlegible
    cases h
    rw [String.toList_ofList]
    rcases decoded_weight hlegible with ⟨heq, hnot⟩ | ⟨-, hlt⟩
    · rw [heq]
      exact ⟨Nat.le_refl _, fun _ => hnot⟩
    · exact ⟨Nat.le_of_lt hlt, fun heq => absurd heq (Nat.ne_of_lt hlt)⟩
  · cases h

mutual

/-- What comes back is not heavier, and as heavy only if it is plain. -/
theorem readBack_weight : ∀ (v : PyValue) {j : Json}, readBack v = some j →
    jsonWeight j ≤ weight v ∧ (jsonWeight j = weight v → plain v = true)
  | .none, _, h => by
      cases h
      exact ⟨Nat.le_refl _, fun _ => rfl⟩
  | .bool _, _, h => by
      cases h
      exact ⟨Nat.le_refl _, fun _ => rfl⟩
  | .int n, _, h => by
      obtain ⟨hle, heq⟩ := readInt_weight h
      exact ⟨hle, fun hw => decide_eq_true (heq hw)⟩
  | .str s, _, h => by
      obtain ⟨t, ht, rfl⟩ := Option.map_eq_some_iff.1 h
      obtain ⟨hle, heq⟩ := readStr_weight ht
      exact ⟨hle, fun hw => decide_eq_true (heq hw)⟩
  | .list xs, _, h => by
      obtain ⟨vs, hvs, rfl⟩ := Option.map_eq_some_iff.1 h
      exact readBackItems_weight xs hvs
  | .tuple xs, _, h => by
      obtain ⟨vs, hvs, rfl⟩ := Option.map_eq_some_iff.1 h
      exact readBackItems_weight xs hvs
  | .dict entries, _, h => by
      obtain ⟨fields, hfields, rfl⟩ := Option.map_eq_some_iff.1 h
      have hle := jsonWeight_ofEntries_le fields
      obtain ⟨hle', heq⟩ := readBackEntries_weight entries hfields
      refine ⟨Nat.le_trans hle hle', fun hw => heq ?_⟩
      rw [weight] at hw
      omega

theorem readBackItems_weight : ∀ (xs : List PyValue) {vs : List Json},
    readBackItems xs = some vs → jsonsWeight vs ≤ itemsWeight xs ∧
      (jsonsWeight vs = itemsWeight xs → plainItems xs = true)
  | [], _, h => by
      cases h
      exact ⟨Nat.le_refl _, fun _ => rfl⟩
  | x :: xs, _, h => by
      obtain ⟨v, hv, h⟩ := Option.bind_eq_some_iff.1 h
      obtain ⟨vs, hvs, rfl⟩ := Option.map_eq_some_iff.1 h
      obtain ⟨hle, heq⟩ := readBack_weight x hv
      obtain ⟨hle', heq'⟩ := readBackItems_weight xs hvs
      rw [jsonsWeight, itemsWeight]
      refine ⟨Nat.add_le_add hle hle', fun hw => ?_⟩
      rw [plainItems, heq (by omega), heq' (by omega)]
      rfl

theorem readBackEntries_weight : ∀ (entries : List (String × PyValue))
    {fields : List (String × Json)}, readBackEntries entries = some fields →
      fieldsWeight fields ≤ entriesWeight entries ∧
        (fieldsWeight fields = entriesWeight entries → plainEntries entries = true)
  | [], _, h => by
      cases h
      exact ⟨Nat.le_refl _, fun _ => rfl⟩
  | (k, x) :: entries, _, h => by
      obtain ⟨key, hk, h⟩ := Option.bind_eq_some_iff.1 h
      obtain ⟨v, hv, h⟩ := Option.bind_eq_some_iff.1 h
      obtain ⟨fields, hfields, rfl⟩ := Option.map_eq_some_iff.1 h
      obtain ⟨hkle, hkeq⟩ := readStr_weight hk
      obtain ⟨hle, heq⟩ := readBack_weight x hv
      obtain ⟨hle', heq'⟩ := readBackEntries_weight entries hfields
      rw [fieldsWeight, entriesWeight]
      refine ⟨by omega, fun hw => ?_⟩
      rw [plainEntries, decide_eq_true (hkeq (by omega)), heq (by omega), heq' (by omega)]
      rfl

end

/-! ### The weight of the original -/

mutual

/-- No dict has a key twice. -/
def distinctKeys : PyValue → Bool
  | .none => true
  | .bool _ => true
  | .int _ => true
  | .str _ => true
  | .list xs => distinctKeysItems xs
  | .tuple xs => distinctKeysItems xs
  | .dict entries => decide (entries.map Prod.fst).Nodup && distinctKeysEntries entries

def distinctKeysItems : List PyValue → Bool
  | [] => true
  | x :: xs => distinctKeys x && distinctKeysItems xs

def distinctKeysEntries : List (String × PyValue) → Bool
  | [] => true
  | (_, x) :: entries => distinctKeys x && distinctKeysEntries entries

end

theorem keys_toJsonEntries (entries : List (String × PyValue)) :
    (toJsonEntries entries).map Prod.fst = entries.map Prod.fst := by
  induction entries with
  | nil => rfl
  | cons e entries ih =>
      obtain ⟨k, x⟩ := e
      rw [toJsonEntries, List.map_cons, List.map_cons, ih]

mutual

theorem jsonWeight_toJson : ∀ v : PyValue, distinctKeys v = true → jsonWeight v.toJson = weight v
  | .none, _ => rfl
  | .bool _, _ => rfl
  | .int _, _ => rfl
  | .str _, _ => rfl
  | .list xs, h => jsonsWeight_toJson xs h
  | .tuple xs, h => jsonsWeight_toJson xs h
  | .dict entries, h => by
      obtain ⟨hkeys, hentries⟩ := Bool.and_eq_true_iff.1 h
      have hnodup : ((toJsonEntries entries).map Prod.fst).Nodup := by
        rw [keys_toJsonEntries]
        exact of_decide_eq_true hkeys
      rw [toJson, jsonWeight_ofEntries hnodup, weight]
      exact fieldsWeight_toJson entries hentries

theorem jsonsWeight_toJson : ∀ xs : List PyValue, distinctKeysItems xs = true →
    jsonsWeight (toJsonItems xs) = itemsWeight xs
  | [], _ => rfl
  | x :: xs, h => by
      obtain ⟨hx, hxs⟩ := Bool.and_eq_true_iff.1 h
      rw [toJsonItems, jsonsWeight, itemsWeight, jsonWeight_toJson x hx,
        jsonsWeight_toJson xs hxs]

theorem fieldsWeight_toJson : ∀ entries : List (String × PyValue),
    distinctKeysEntries entries = true →
      fieldsWeight (toJsonEntries entries) = entriesWeight entries
  | [], _ => rfl
  | (k, x) :: entries, h => by
      obtain ⟨hx, hentries⟩ := Bool.and_eq_true_iff.1 h
      rw [toJsonEntries, fieldsWeight, entriesWeight, jsonWeight_toJson x hx,
        fieldsWeight_toJson entries hentries]

end

/-- **No change goes unseen**: a value comes back from what was shown of it only if it was
shown as it is, and is plain. -/
theorem readBack_eq_toJson_iff {u v : PyValue} (hshown : Lighter weight u v)
    (hdistinct : distinctKeys v = true) :
    readBack u = some v.toJson ↔ u = v ∧ plain v = true := by
  constructor
  · intro h
    obtain ⟨hle, heq⟩ := readBack_weight u h
    rw [jsonWeight_toJson v hdistinct] at hle heq
    have hsame : u = v := hshown.eq (Nat.le_antisymm hshown.le hle)
    subst hsame
    exact ⟨rfl, heq rfl⟩
  · rintro ⟨rfl, hplain⟩
    exact readBack_of_plain u hplain

end Feloxi.Tasks
