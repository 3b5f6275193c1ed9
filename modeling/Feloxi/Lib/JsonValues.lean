import Feloxi.Lib.Json
import Feloxi.Lib.JsonText
import Mathlib.Data.List.Pairwise
import Mathlib.Data.String.Basic

/-!
# Feloxi.Lib.JsonValues

Values as trees and back. A tree is rebuilt by a change of its numbers and of the order of the
entries in its objects (`JsonTree.rebuild`); since a map keeps its entries sorted, only the numbers
can make a value another one (`ofTree_rebuild_eq_iff`).
-/

namespace Feloxi

open JsonText (Entries JsonTree Numeral)

namespace JsonText.JsonTree

variable {ν μ : Type}

/-! ### Rebuilding -/

mutual
/-- The numbers replaced, and the entries of each object put in order. -/
def rebuild (number : ν → JsonTree μ) (order : Entries (JsonTree μ) → Entries (JsonTree μ)) :
    JsonTree ν → JsonTree μ
  | .null => .null
  | .bool b => .bool b
  | .num n => number n
  | .str s => .str s
  | .arr xs => .arr (rebuildItems number order xs)
  | .obj entries => .obj (order (rebuildEntries number order entries))
def rebuildItems (number : ν → JsonTree μ)
    (order : Entries (JsonTree μ) → Entries (JsonTree μ)) : List (JsonTree ν) → List (JsonTree μ)
  | [] => []
  | x :: xs => rebuild number order x :: rebuildItems number order xs
def rebuildEntries (number : ν → JsonTree μ)
    (order : Entries (JsonTree μ) → Entries (JsonTree μ)) :
    Entries (JsonTree ν) → Entries (JsonTree μ)
  | [] => []
  | (key, x) :: entries => (key, rebuild number order x) :: rebuildEntries number order entries
end

section Rebuilding

variable (number : ν → JsonTree μ) (order : Entries (JsonTree μ) → Entries (JsonTree μ))

@[simp] theorem rebuildItems_eq (xs : List (JsonTree ν)) :
    rebuildItems number order xs = xs.map (rebuild number order) := by
  induction xs with
  | nil => rfl
  | cons x xs ih => simp [rebuildItems, ih]

@[simp] theorem rebuildEntries_eq (entries : Entries (JsonTree ν)) :
    rebuildEntries number order entries = entries.map fun e => (e.1, e.2.rebuild number order) := by
  induction entries with
  | nil => rfl
  | cons e entries ih => simp [rebuildEntries, ih]

end Rebuilding

theorem depthEntries_eq (entries : Entries (JsonTree ν)) :
    depthEntries entries = (entries.map fun e => e.2.depth).foldr max 0 := by
  induction entries with
  | nil => rfl
  | cons e entries ih => simp [depthEntries, ih]

theorem depthEntries_perm {entries entries' : Entries (JsonTree ν)}
    (h : entries.Perm entries') : depthEntries entries = depthEntries entries' := by
  rw [depthEntries_eq, depthEntries_eq]
  exact (h.map _).foldr_eq' (fun x _ y _ z => by omega) 0

end JsonText.JsonTree

namespace Json

/-! ### Maps -/

/-- Entries of distinct keys can be inserted in any order. -/
theorem insertEntry_comm {k k' : String} (h : k ≠ k') (v v' : Json) (entries : Entries Json) :
    insertEntry k v (insertEntry k' v' entries) = insertEntry k' v' (insertEntry k v entries) := by
  induction entries with
  | nil => rcases lt_or_gt_of_ne h with hk | hk <;> grind [insertEntry]
  | cons e rest ih =>
      obtain ⟨l, u⟩ := e
      -- wherever the two keys lie around the first of the entries
      rcases lt_trichotomy k l with hl | hl | hl <;>
        rcases lt_trichotomy k' l with hl' | hl' | hl' <;> grind [insertEntry]

/-- Of two entries of one key the later one stays. -/
theorem insertEntry_insertEntry (k : String) (v v' : Json) (entries : Entries Json) :
    insertEntry k v (insertEntry k v' entries) = insertEntry k v entries := by
  induction entries with
  | nil => simp [insertEntry]
  | cons e rest ih =>
      obtain ⟨l, u⟩ := e
      rcases lt_trichotomy k l with hl | hl | hl <;> grind [insertEntry]

/-- An entry whose key is not among those behind it can as well come last. -/
theorem foldl_insertEntry_comm {k : String} {entries : Entries Json}
    (h : ∀ e ∈ entries, e.1 ≠ k) (v : Json) (before : Entries Json) :
    entries.foldl (fun acc e => insertEntry e.1 e.2 acc) (insertEntry k v before) =
      insertEntry k v (entries.foldl (fun acc e => insertEntry e.1 e.2 acc) before) := by
  induction entries generalizing before with
  | nil => rfl
  | cons e rest ih =>
      obtain ⟨he, hrest⟩ := List.forall_mem_cons.1 h
      rw [List.foldl_cons, List.foldl_cons, insertEntry_comm he, ih hrest]

theorem get_ofEntries_of_mem {entries : Entries Json} (h : (entries.map Prod.fst).Nodup)
    {e : String × Json} (he : e ∈ entries) : (ofEntries entries).get e.1 = some e.2 := by
  obtain ⟨before, more, heq⟩ := List.append_of_mem he
  rw [heq, List.map_append, List.map_cons] at h
  have hmore := (List.nodup_cons.1 (List.nodup_append.1 h).2.1).1
  rw [heq]
  refine get_ofEntries before e.1 e.2 fun e' he' hkey => hmore ?_
  rw [← hkey]
  exact List.mem_map_of_mem he'

theorem isSome_find?_foldl (entries before : Entries Json) (k : String) :
    ((entries.foldl (fun acc e => insertEntry e.1 e.2 acc) before).find? fun e => e.1 = k).isSome ↔
      k ∈ entries.map Prod.fst ∨ (before.find? fun e => e.1 = k).isSome := by
  induction entries generalizing before with
  | nil => simp
  | cons e rest ih =>
      rw [List.foldl_cons, ih]
      by_cases hk : k = e.1
      · simp [hk, find?_insertEntry_self]
      · simp [hk, find?_insertEntry_ne hk]

/-- A map has the keys of its entries. -/
theorem isSome_get_ofEntries {entries : Entries Json} {k : String} :
    ((ofEntries entries).get k).isSome ↔ k ∈ entries.map Prod.fst := by
  rw [ofEntries, get, Option.isSome_map, isSome_find?_foldl]
  simp

/-- An entry of a key above all others goes to the end. -/
theorem insertEntry_last {key : String} {value : Json} {entries : Entries Json}
    (h : ∀ e ∈ entries, e.1 < key) :
    insertEntry key value entries = entries ++ [(key, value)] := by
  induction entries with
  | nil => rfl
  | cons e rest ih =>
      obtain ⟨k, v⟩ := e
      have hk : k < key := h (k, v) List.mem_cons_self
      rw [insertEntry, if_neg (ne_of_gt hk), if_neg (lt_asymm hk),
        ih fun e he => h e (List.mem_cons_of_mem _ he)]
      rfl

theorem foldl_insertEntry_sorted {entries : Entries Json}
    (h : entries.Pairwise fun a b => a.1 < b.1) (before : Entries Json)
    (hbefore : ∀ a ∈ before, ∀ b ∈ entries, a.1 < b.1) :
    entries.foldl (fun acc e => insertEntry e.1 e.2 acc) before = before ++ entries := by
  induction entries generalizing before with
  | nil => simp
  | cons e rest ih =>
      obtain ⟨he, hrest⟩ := List.pairwise_cons.1 h
      rw [List.foldl_cons, insertEntry_last fun a ha => hbefore a ha e List.mem_cons_self,
        ih hrest]
      · simp
      · intro a ha b hb
        rcases List.mem_append.1 ha with ha | ha
        · exact hbefore a ha b (List.mem_cons_of_mem _ hb)
        · rw [List.mem_singleton.1 ha]
          exact he b hb

/-- **A map holds its entries sorted**, whatever order they come in. -/
theorem ofEntries_perm {entries entries' : Entries Json} (hperm : entries'.Perm entries)
    (h : entries.Pairwise fun a b => a.1 < b.1) : ofEntries entries' = .obj entries := by
  have hdistinct : ∀ a ∈ entries, ∀ b ∈ entries, a ≠ b → a.1 ≠ b.1 := by
    intro a ha b hb hne
    have hsymm : Std.Symm fun a b : String × Json => a.1 ≠ b.1 := ⟨fun _ _ h => h.symm⟩
    exact (h.imp fun hlt => ne_of_lt hlt).forall ha hb hne
  have hfold := hperm.symm.foldl_eq' (f := fun acc e => insertEntry e.1 e.2 acc)
    (fun a ha b hb acc => by
      by_cases heq : a = b
      · rw [heq]
      · exact (insertEntry_comm (hdistinct a ha b hb heq) a.2 b.2 acc).symm) []
  rw [ofEntries, ← hfold, foldl_insertEntry_sorted h [] fun _ hmem => absurd hmem List.not_mem_nil]
  rfl

/-- A new key takes its place among the others. -/
theorem insertEntry_perm {key : String} {entries : Entries Json}
    (h : key ∉ entries.map Prod.fst) (value : Json) :
    (insertEntry key value entries).Perm ((key, value) :: entries) := by
  induction entries with
  | nil => rfl
  | cons e rest ih =>
      obtain ⟨k, v⟩ := e
      rw [List.map_cons, List.mem_cons, not_or] at h
      rw [insertEntry, if_neg h.1]
      split
      · rfl
      · exact ((ih h.2).cons (k, v)).trans (List.Perm.swap (key, value) (k, v) rest)

/-- **A map holds the entries it is made of**, if their keys are distinct. -/
theorem ofEntries_eq_obj {entries : Entries Json} (h : (entries.map Prod.fst).Nodup) :
    ∃ kept, ofEntries entries = .obj kept ∧ kept.Perm entries := by
  have hfold : ∀ before : Entries Json, ((before ++ entries).map Prod.fst).Nodup →
      (entries.foldl (fun acc e => insertEntry e.1 e.2 acc) before).Perm (before ++ entries) := by
    clear h
    induction entries with
    | nil => simp
    | cons e rest ih =>
        intro before hnodup
        have hperm : (e :: before ++ rest).Perm (before ++ e :: rest) := List.perm_middle.symm
        have hkeys := ((hperm.map Prod.fst).nodup_iff).2 hnodup
        have he : e.1 ∉ before.map Prod.fst := by
          simp only [List.cons_append, List.map_cons, List.map_append, List.nodup_cons,
            List.mem_append, not_or] at hkeys
          exact hkeys.1.1
        have hinsert := (insertEntry_perm he e.2).append_right rest
        rw [List.foldl_cons]
        exact (ih _ (((hinsert.map Prod.fst).nodup_iff).2 hkeys)).trans (hinsert.trans hperm)
  exact ⟨_, rfl, hfold [] h⟩

/-! ### Values and trees -/

mutual
/-- A value as it is written; how a float is written is left open. -/
def toTree (floatText : F64 → Numeral) : Json → JsonTree Numeral
  | .null => .null
  | .bool b => .bool b
  | .int n => .num (.ofInt n)
  | .float x => .num (floatText x)
  | .str s => .str s
  | .arr xs => .arr (toTreeItems floatText xs)
  | .obj entries => .obj (toTreeEntries floatText entries)
def toTreeItems (floatText : F64 → Numeral) : List Json → List (JsonTree Numeral)
  | [] => []
  | x :: xs => toTree floatText x :: toTreeItems floatText xs
def toTreeEntries (floatText : F64 → Numeral) : Entries Json → Entries (JsonTree Numeral)
  | [] => []
  | (key, x) :: entries => (key, toTree floatText x) :: toTreeEntries floatText entries
end

/-- `to_string`. -/
def display (floatText : F64 → Numeral) (v : Json) : String :=
  String.ofList (v.toTree floatText).print

theorem display_ne_empty (floatText : F64 → Numeral) (v : Json) : v.display floatText ≠ "" := by
  obtain ⟨c, s, hcons, -⟩ := (v.toTree floatText).print_cons
  rw [display, ne_eq, String.ofList_eq_empty_iff, hcons]
  exact List.cons_ne_nil c s

/-- The integer that a numeral is read as: it is written as one, fits 64 bits, and is not a
negative zero. -/
def whole? (n : Numeral) : Option Int :=
  n.int?.filter fun i => decide (-(2 ^ 63) ≤ i ∧ i < 2 ^ 64) && !(n.neg && i == 0)

/-- A number that is read: how a float is read is left open. -/
def ofNumeral (readFloat : Numeral → F64) (n : Numeral) : Json :=
  match whole? n with
  | some i => .int i
  | none => .float (readFloat n)

mutual
/-- The value that a text with this tree is read as. -/
def ofTree (readFloat : Numeral → F64) : JsonTree Numeral → Json
  | .null => .null
  | .bool b => .bool b
  | .num n => ofNumeral readFloat n
  | .str s => .str s
  | .arr xs => .arr (ofTreeItems readFloat xs)
  | .obj entries => ofEntries (ofTreeEntries readFloat entries)
def ofTreeItems (readFloat : Numeral → F64) : List (JsonTree Numeral) → List Json
  | [] => []
  | x :: xs => ofTree readFloat x :: ofTreeItems readFloat xs
def ofTreeEntries (readFloat : Numeral → F64) : Entries (JsonTree Numeral) → Entries Json
  | [] => []
  | (key, x) :: entries => (key, ofTree readFloat x) :: ofTreeEntries readFloat entries
end

@[simp] theorem toTreeItems_eq (floatText : F64 → Numeral) (xs : List Json) :
    toTreeItems floatText xs = xs.map (toTree floatText) := by
  induction xs with
  | nil => rfl
  | cons x xs ih => simp [toTreeItems, ih]

@[simp] theorem toTreeEntries_eq (floatText : F64 → Numeral) (entries : Entries Json) :
    toTreeEntries floatText entries = entries.map fun e => (e.1, e.2.toTree floatText) := by
  induction entries with
  | nil => rfl
  | cons e entries ih => simp [toTreeEntries, ih]

@[simp] theorem ofTreeItems_eq (readFloat : Numeral → F64) (xs : List (JsonTree Numeral)) :
    ofTreeItems readFloat xs = xs.map (ofTree readFloat) := by
  induction xs with
  | nil => rfl
  | cons x xs ih => simp [ofTreeItems, ih]

@[simp] theorem ofTreeEntries_eq (readFloat : Numeral → F64)
    (entries : Entries (JsonTree Numeral)) :
    ofTreeEntries readFloat entries = entries.map fun e => (e.1, ofTree readFloat e.2) := by
  induction entries with
  | nil => rfl
  | cons e entries ih => simp [ofTreeEntries, ih]

/-! ### What a value is made of -/

mutual
/-- The levels of arrays and objects. -/
def levels : Json → Nat
  | .arr xs => levelsItems xs + 1
  | .obj entries => levelsEntries entries + 1
  | _ => 0
def levelsItems : List Json → Nat
  | [] => 0
  | x :: xs => max x.levels (levelsItems xs)
def levelsEntries : Entries Json → Nat
  | [] => 0
  | (_, x) :: entries => max x.levels (levelsEntries entries)
end

/-- A number in a value. -/
inductive Number where
  | int (n : Int)
  | float (x : F64)
  deriving DecidableEq

def Number.toJson : Number → Json
  | .int n => .int n
  | .float x => .float x

mutual
def numbers : Json → List Number
  | .int n => [.int n]
  | .float x => [.float x]
  | .arr xs => numbersItems xs
  | .obj entries => numbersEntries entries
  | _ => []
def numbersItems : List Json → List Number
  | [] => []
  | x :: xs => x.numbers ++ numbersItems xs
def numbersEntries : Entries Json → List Number
  | [] => []
  | (_, x) :: entries => x.numbers ++ numbersEntries entries
end

mutual
/-- The entries of each object are sorted by key. -/
def Ordered : Json → Prop
  | .arr xs => OrderedItems xs
  | .obj entries => (entries.Pairwise fun a b => a.1 < b.1) ∧ OrderedEntries entries
  | _ => True
def OrderedItems : List Json → Prop
  | [] => True
  | x :: xs => x.Ordered ∧ OrderedItems xs
def OrderedEntries : Entries Json → Prop
  | [] => True
  | (_, x) :: entries => x.Ordered ∧ OrderedEntries entries
end

section Reading

variable (floatText : F64 → Numeral) (readFloat : Numeral → F64)

mutual
/-- **A value is read as it was written**, if its numbers are. -/
theorem ofTree_toTree : ∀ v : Json, v.Ordered →
    (∀ x ∈ v.numbers, ofTree readFloat (x.toJson.toTree floatText) = x.toJson) →
    ofTree readFloat (v.toTree floatText) = v
  | .null, _, _ => rfl
  | .bool _, _, _ => rfl
  | .int n, _, h => h (.int n) List.mem_cons_self
  | .float x, _, h => h (.float x) List.mem_cons_self
  | .str _, _, _ => rfl
  | .arr xs, hordered, h => by
      rw [toTree, ofTree, ofTreeItems_toTreeItems xs hordered h]
  | .obj entries, hordered, h => by
      rw [toTree, ofTree, ofTreeEntries_toTreeEntries entries hordered.2 h]
      exact ofEntries_perm (List.Perm.refl entries) hordered.1
theorem ofTreeItems_toTreeItems : ∀ xs : List Json, OrderedItems xs →
    (∀ x ∈ numbersItems xs, ofTree readFloat (x.toJson.toTree floatText) = x.toJson) →
    ofTreeItems readFloat (toTreeItems floatText xs) = xs
  | [], _, _ => rfl
  | x :: xs, hordered, h => by
      rw [numbersItems, List.forall_mem_append] at h
      rw [toTreeItems, ofTreeItems, ofTree_toTree x hordered.1 h.1,
        ofTreeItems_toTreeItems xs hordered.2 h.2]
theorem ofTreeEntries_toTreeEntries : ∀ entries : Entries Json, OrderedEntries entries →
    (∀ x ∈ numbersEntries entries, ofTree readFloat (x.toJson.toTree floatText) = x.toJson) →
    ofTreeEntries readFloat (toTreeEntries floatText entries) = entries
  | [], _, _ => rfl
  | (key, x) :: entries, hordered, h => by
      rw [numbersEntries, List.forall_mem_append] at h
      rw [toTreeEntries, ofTreeEntries, ofTree_toTree x hordered.1 h.1,
        ofTreeEntries_toTreeEntries entries hordered.2 h.2]
end

end Reading

/-! ### Through another program -/

/-- A program that reads a text and writes it again. -/
structure Passage (μ : Type) where
  read : Numeral → μ
  order : Entries (JsonTree μ) → Entries (JsonTree μ)
  write : μ → JsonTree Numeral
  order_perm : ∀ entries, (entries.map Prod.fst).Nodup → (order entries).Perm entries
  write_depth : ∀ x, (write x).depth = 0

namespace Passage

variable {μ : Type} (p : Passage μ) (floatText : F64 → Numeral) (readFloat : Numeral → F64)

/-- What the program writes of a text. -/
def pass (t : JsonTree Numeral) : JsonTree Numeral :=
  (t.rebuild (fun n => .num (p.read n)) p.order).rebuild p.write id

/-- What becomes of a value that is written, passed on and read. -/
def carry (v : Json) : Json := ofTree readFloat (p.pass (v.toTree floatText))

theorem pass_arr (xs : List Json) :
    p.pass ((Json.arr xs).toTree floatText) =
      .arr (xs.map fun x => p.pass (x.toTree floatText)) := by
  simp [pass, toTree, JsonTree.rebuild]

theorem pass_obj {entries : Entries Json} (h : entries.Pairwise fun a b => a.1 < b.1) :
    ∃ passed, p.pass ((Json.obj entries).toTree floatText) = .obj passed ∧
      passed.Perm (entries.map fun e => (e.1, p.pass (e.2.toTree floatText))) := by
  let read : Entries (JsonTree μ) := entries.map fun e =>
    (e.1, (e.2.toTree floatText).rebuild (fun n => .num (p.read n)) p.order)
  have hnodup : (read.map Prod.fst).Nodup := by
    rw [List.map_map]
    exact List.pairwise_map.2 (h.imp fun hlt => ne_of_lt hlt)
  refine ⟨(p.order read).map fun e => (e.1, e.2.rebuild p.write id), ?_, ?_⟩
  · simp [pass, toTree, JsonTree.rebuild, read, Function.comp_def]
  · have hperm := (p.order_perm read hnodup).map fun e => (e.1, e.2.rebuild p.write id)
    simpa [read, pass, Function.comp_def] using hperm

mutual
/-- The levels stay. -/
theorem depth_pass : ∀ v : Json, v.Ordered → (p.pass (v.toTree floatText)).depth = v.levels
  | .null, _ => rfl
  | .bool _, _ => rfl
  | .int _, _ => p.write_depth _
  | .float _, _ => p.write_depth _
  | .str _, _ => rfl
  | .arr xs, h => by
      rw [pass_arr, JsonTree.depth, depthItems_pass xs h]
      rfl
  | .obj entries, h => by
      obtain ⟨passed, hpass, hperm⟩ := p.pass_obj floatText h.1
      rw [hpass, JsonTree.depth, JsonTree.depthEntries_perm hperm, depthEntries_pass entries h.2]
      rfl
theorem depthItems_pass : ∀ xs : List Json, OrderedItems xs →
    JsonTree.depthItems (xs.map fun x => p.pass (x.toTree floatText)) = levelsItems xs
  | [], _ => rfl
  | x :: xs, h => by
      have hx := depth_pass x h.1
      have hxs := depthItems_pass xs h.2
      simp [JsonTree.depthItems, levelsItems, hx, hxs]
theorem depthEntries_pass : ∀ entries : Entries Json, OrderedEntries entries →
    JsonTree.depthEntries (entries.map fun e => (e.1, p.pass (e.2.toTree floatText))) =
      levelsEntries entries
  | [], _ => rfl
  | (key, x) :: entries, h => by
      have hx := depth_pass x h.1
      have hentries := depthEntries_pass entries h.2
      simp [JsonTree.depthEntries, levelsEntries, hx, hentries]
end

theorem carry_arr (xs : List Json) :
    p.carry floatText readFloat (.arr xs) = .arr (xs.map (p.carry floatText readFloat)) := by
  rw [carry, pass_arr]
  simp [ofTree, carry, Function.comp_def]

theorem carry_obj {entries : Entries Json} (h : entries.Pairwise fun a b => a.1 < b.1) :
    p.carry floatText readFloat (.obj entries) =
      .obj (entries.map fun e => (e.1, p.carry floatText readFloat e.2)) := by
  obtain ⟨passed, hpass, hperm⟩ := p.pass_obj floatText h
  rw [carry, hpass]
  show ofEntries (ofTreeEntries readFloat passed) = _
  refine ofEntries_perm ?_ ?_
  · rw [ofTreeEntries_eq]
    simpa [carry, Function.comp_def] using hperm.map fun e => (e.1, ofTree readFloat e.2)
  · exact List.pairwise_map.2 h

mutual
/-- **A value comes back as it was exactly if its numbers do.** -/
theorem carry_eq_iff : ∀ v : Json, v.Ordered →
    (p.carry floatText readFloat v = v ↔
      ∀ x ∈ v.numbers, p.carry floatText readFloat x.toJson = x.toJson)
  | .null, _ => by simp [numbers, carry, pass, toTree, ofTree, JsonTree.rebuild]
  | .bool _, _ => by simp [numbers, carry, pass, toTree, ofTree, JsonTree.rebuild]
  | .int _, _ => by simp [numbers, Number.toJson]
  | .float _, _ => by simp [numbers, Number.toJson]
  | .str _, _ => by simp [numbers, carry, pass, toTree, ofTree, JsonTree.rebuild]
  | .arr xs, h => by
      rw [carry_arr, Json.arr.injEq]
      exact carryItems_eq_iff xs h
  | .obj entries, h => by
      rw [carry_obj p floatText readFloat h.1, Json.obj.injEq]
      exact carryEntries_eq_iff entries h.2
theorem carryItems_eq_iff : ∀ xs : List Json, OrderedItems xs →
    (xs.map (p.carry floatText readFloat) = xs ↔
      ∀ x ∈ numbersItems xs, p.carry floatText readFloat x.toJson = x.toJson)
  | [], _ => by simp [numbersItems]
  | x :: xs, h => by
      have hx := carry_eq_iff x h.1
      have hxs := carryItems_eq_iff xs h.2
      simp [numbersItems, hx, hxs, or_imp, forall_and]
theorem carryEntries_eq_iff : ∀ entries : Entries Json, OrderedEntries entries →
    ((entries.map fun e => (e.1, p.carry floatText readFloat e.2)) = entries ↔
      ∀ x ∈ numbersEntries entries, p.carry floatText readFloat x.toJson = x.toJson)
  | [], _ => by simp [numbersEntries]
  | (key, x) :: entries, h => by
      have hx := carry_eq_iff x h.1
      have hentries := carryEntries_eq_iff entries h.2
      simp [numbersEntries, hx, hentries, or_imp, forall_and]
end

end Passage

end Json

end Feloxi
