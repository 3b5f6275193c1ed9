import Feloxi.Lib.F64

/-!
# Feloxi.Lib.Json

JSON values as `serde_json` holds them. Integers and floats are told apart, and
the entries of an object are kept sorted by key, as in the ordered map behind
`serde_json::Map`.
-/

namespace Feloxi

/-- A JSON value. -/
inductive Json where
  | null
  | bool (b : Bool)
  | int (n : Int)
  | float (x : F64)
  | str (s : String)
  | arr (xs : List Json)
  | obj (entries : List (String × Json))
deriving Repr

namespace Json

instance : Inhabited Json := ⟨.null⟩

mutual
/-- Equality of values, decided by recursion on the first. -/
def decEq : (a b : Json) → Decidable (a = b)
  | .null, b => by cases b <;> first | exact isTrue rfl | exact isFalse (by simp)
  | .bool x, b => match b with
    | .bool y => decidable_of_iff (x = y) (by simp)
    | .null | .int _ | .float _ | .str _ | .arr _ | .obj _ => isFalse (by simp)
  | .int x, b => match b with
    | .int y => decidable_of_iff (x = y) (by simp)
    | .null | .bool _ | .float _ | .str _ | .arr _ | .obj _ => isFalse (by simp)
  | .float x, b => match b with
    | .float y => decidable_of_iff (x = y) (by simp)
    | .null | .bool _ | .int _ | .str _ | .arr _ | .obj _ => isFalse (by simp)
  | .str x, b => match b with
    | .str y => decidable_of_iff (x = y) (by simp)
    | .null | .bool _ | .int _ | .float _ | .arr _ | .obj _ => isFalse (by simp)
  | .arr xs, b => match b with
    | .arr ys => match decEqList xs ys with
      | isTrue h => isTrue (h ▸ rfl)
      | isFalse h => isFalse (by simpa using h)
    | .null | .bool _ | .int _ | .float _ | .str _ | .obj _ => isFalse (by simp)
  | .obj xs, b => match b with
    | .obj ys => match decEqEntries xs ys with
      | isTrue h => isTrue (h ▸ rfl)
      | isFalse h => isFalse (by simpa using h)
    | .null | .bool _ | .int _ | .float _ | .str _ | .arr _ => isFalse (by simp)
/-- Equality of arrays, element by element. -/
def decEqList : (xs ys : List Json) → Decidable (xs = ys)
  | [], [] => isTrue rfl
  | [], _ :: _ => isFalse (by simp)
  | _ :: _, [] => isFalse (by simp)
  | x :: xs, y :: ys => match decEq x y, decEqList xs ys with
    | isTrue h, isTrue h' => isTrue (by rw [h, h'])
    | isFalse h, _ => isFalse (fun e => h (List.cons.inj e).1)
    | _, isFalse h' => isFalse (fun e => h' (List.cons.inj e).2)
/-- Equality of objects, entry by entry. -/
def decEqEntries : (xs ys : List (String × Json)) → Decidable (xs = ys)
  | [], [] => isTrue rfl
  | [], _ :: _ => isFalse (by simp)
  | _ :: _, [] => isFalse (by simp)
  | (k, x) :: xs, (l, y) :: ys =>
    if hk : k = l then
      match decEq x y, decEqEntries xs ys with
      | isTrue h, isTrue h' => isTrue (by rw [hk, h, h'])
      | isFalse h, _ => isFalse (fun e => h (Prod.mk.inj (List.cons.inj e).1).2)
      | _, isFalse h' => isFalse (fun e => h' (List.cons.inj e).2)
    else isFalse (fun e => hk (Prod.mk.inj (List.cons.inj e).1).1)
end

instance : DecidableEq Json := decEq

/-- Insert an entry at its place in key order, replacing one of the same key. -/
def insertEntry (key : String) (value : Json) : List (String × Json) → List (String × Json)
  | [] => [(key, value)]
  | (k, v) :: rest =>
    if key = k then (key, value) :: rest
    else if key < k then (key, value) :: (k, v) :: rest
    else (k, v) :: insertEntry key value rest

/-- `json!({ ... })`: the entries inserted one after the other. -/
def ofEntries (entries : List (String × Json)) : Json :=
  .obj (entries.foldl (fun acc e => insertEntry e.1 e.2 acc) [])

/-- `value["key"] = v` and `as_object_mut().insert`: sets an entry of an object,
and leaves any other value alone. -/
def set (target : Json) (key : String) (value : Json) : Json :=
  match target with
  | .obj entries => .obj (insertEntry key value entries)
  | other => other

/-- `value.get("key")`. -/
def get (key : String) : Json → Option Json
  | .obj entries => (entries.find? (fun e => e.1 = key)).map Prod.snd
  | _ => none

/-- `as_str`. -/
def asStr : Json → Option String
  | .str s => some s
  | _ => none

/-- `as_bool`. -/
def asBool : Json → Option Bool
  | .bool b => some b
  | _ => none

/-- `as_i64`. -/
def asI64 : Json → Option Int
  | .int n => if -(2 ^ 63) ≤ n ∧ n < 2 ^ 63 then some n else none
  | _ => none

/-- `as_u64`. -/
def asU64 : Json → Option Nat
  | .int n => if 0 ≤ n ∧ n < 2 ^ 64 then some n.toNat else none
  | _ => none

/-- `as_array`. -/
def asArray : Json → Option (List Json)
  | .arr xs => some xs
  | _ => none

/-- `as_f64`: any number. -/
def asF64 : Json → Option F64
  | .int n => some (.fin n)
  | .float x => some x
  | _ => none

/-! ### Reading back an inserted entry -/

theorem find?_insertEntry_self (key : String) (value : Json) (entries : List (String × Json)) :
    (insertEntry key value entries).find? (fun e => e.1 = key) = some (key, value) := by
  induction entries with
  | nil => simp [insertEntry]
  | cons e rest ih =>
      obtain ⟨k, v⟩ := e
      unfold insertEntry
      by_cases hk : key = k
      · simp [hk]
      · by_cases hlt : key < k
        · simp [hk, hlt]
        · rw [if_neg hk, if_neg hlt, List.find?_cons_of_neg (by simpa using Ne.symm hk)]
          exact ih

theorem find?_insertEntry_ne {key other : String} (h : other ≠ key) (value : Json)
    (entries : List (String × Json)) :
    (insertEntry key value entries).find? (fun e => e.1 = other) =
      entries.find? (fun e => e.1 = other) := by
  induction entries with
  | nil => simp [insertEntry, Ne.symm h]
  | cons e rest ih =>
      obtain ⟨k, v⟩ := e
      unfold insertEntry
      by_cases hk : key = k
      · subst hk
        simp [List.find?_cons_of_neg, Ne.symm h]
      · by_cases hlt : key < k
        · rw [if_neg hk, if_pos hlt, List.find?_cons_of_neg (by simpa using Ne.symm h)]
        · rw [if_neg hk, if_neg hlt]
          by_cases ho : k = other
          · simp [ho]
          · rw [List.find?_cons_of_neg (by simpa using ho),
              List.find?_cons_of_neg (by simpa using ho), ih]

theorem find?_foldl_insertEntry_ne {key : String} {more : List (String × Json)}
    (h : ∀ e ∈ more, e.1 ≠ key) (entries : List (String × Json)) :
    (more.foldl (fun acc e => insertEntry e.1 e.2 acc) entries).find? (fun e => e.1 = key) =
      entries.find? (fun e => e.1 = key) := by
  induction more generalizing entries with
  | nil => rfl
  | cons e rest ih =>
      rw [List.foldl_cons, ih (fun e he => h e (List.mem_cons_of_mem _ he))]
      exact find?_insertEntry_ne (Ne.symm (h e List.mem_cons_self)) e.2 entries

theorem get_ofEntries_of_not_mem {key : String} {entries : List (String × Json)}
    (h : ∀ e ∈ entries, e.1 ≠ key) : (ofEntries entries).get key = none := by
  rw [ofEntries, get, find?_foldl_insertEntry_ne h]
  rfl

/-- The last entry of a key is the one read back. -/
theorem get_ofEntries (before : List (String × Json)) (key : String) (value : Json)
    {more : List (String × Json)} (h : ∀ e ∈ more, e.1 ≠ key) :
    (ofEntries (before ++ (key, value) :: more)).get key = some value := by
  simp only [ofEntries, get, List.foldl_append, List.foldl_cons]
  rw [find?_foldl_insertEntry_ne h, find?_insertEntry_self]
  rfl

end Json

end Feloxi
