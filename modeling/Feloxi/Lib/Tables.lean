import Mathlib.Data.List.Pairwise

/-!
# Feloxi.Lib.Tables

Tables whose rows keep their unique constraints: two rows that `clash` cannot both be
stored, so inserting the second fails. What a column of bounded length stores is
`storeVarchar`.
-/

namespace Feloxi.Tables

/-- A table. -/
structure Table (ι : Type) (clash : ι → ι → Bool) where
  rows : List ι
  distinct : rows.Pairwise fun a b => clash a b = false

namespace Table

variable {ι : Type} {clash : ι → ι → Bool}

def empty : Table ι clash := ⟨[], List.Pairwise.nil⟩

/-- `INSERT`: `none` if the row violates a unique constraint. -/
def insert (t : Table ι clash) (row : ι) : Option (Table ι clash) :=
  if h : ∀ r ∈ t.rows, clash r row = false then
    some ⟨t.rows ++ [row], List.pairwise_append.2 ⟨t.distinct, List.pairwise_singleton _ _, by
      intro a ha b hb
      rw [List.mem_singleton.1 hb]
      exact h a ha⟩⟩
  else none

/-- `UPDATE` of columns such that no row comes to clash with another. -/
def update (t : Table ι clash) (f : ι → ι)
    (hf : ∀ a b, clash a b = false → clash (f a) (f b) = false) : Table ι clash :=
  ⟨t.rows.map f, by
    rw [List.pairwise_map]
    exact t.distinct.imp fun {a b} h => hf a b h⟩

/-- `DELETE`. -/
def delete (t : Table ι clash) (p : ι → Bool) : Table ι clash :=
  ⟨t.rows.filter fun r => !p r, t.distinct.filter _⟩

@[simp] theorem rows_empty : (empty : Table ι clash).rows = [] := rfl

@[simp] theorem rows_update (t : Table ι clash) (f : ι → ι)
    (hf : ∀ a b, clash a b = false → clash (f a) (f b) = false) : (t.update f hf).rows = t.rows.map f := rfl

@[simp] theorem rows_delete (t : Table ι clash) (p : ι → Bool) :
    (t.delete p).rows = t.rows.filter fun r => !p r := rfl

/-- An insert adds its row, which clashes with no other. -/
theorem insert_eq_some {t t' : Table ι clash} {row : ι} :
    t.insert row = some t' ↔
      (∀ r ∈ t.rows, clash r row = false) ∧ t'.rows = t.rows ++ [row] := by
  unfold insert
  constructor
  · intro h
    split at h
    · rename_i hfree
      exact ⟨hfree, by rw [← Option.some.inj h]⟩
    · cases h
  · intro ⟨hfree, hrows⟩
    rw [dif_pos hfree]
    cases t'
    simp only [Option.some.injEq, mk.injEq]
    exact hrows.symm

/-- Rows that clash are one row. -/
theorem eq_of_clash (hsymm : ∀ a b, clash a b = clash b a) {t : Table ι clash} {a b : ι}
    (ha : a ∈ t.rows) (hb : b ∈ t.rows) (h : clash a b = true) : a = b := by
  by_contra hne
  have : Std.Symm fun x y : ι => clash x y = false := ⟨fun x y hxy => (hsymm y x).trans hxy⟩
  have hfree := t.distinct.forall ha hb hne
  rw [hfree] at h
  cases h

/-- The only row that satisfies `p` is the one found. -/
theorem find?_eq_some (hsymm : ∀ a b, clash a b = clash b a) {t : Table ι clash} {p : ι → Bool}
    (hp : ∀ a b, p a = true → p b = true → clash a b = true) {row : ι} :
    t.rows.find? p = some row ↔ row ∈ t.rows ∧ p row = true := by
  constructor
  · intro h
    exact ⟨List.mem_of_find?_eq_some h, List.find?_some h⟩
  · intro ⟨hmem, hrow⟩
    cases hfind : t.rows.find? p with
    | none => exact absurd hrow (by simpa using List.find?_eq_none.1 hfind row hmem)
    | some other =>
        have hother : p other = true := List.find?_some hfind
        rw [eq_of_clash hsymm (List.mem_of_find?_eq_some hfind) hmem (hp other row hother hrow)]

end Table

/-! ### Columns -/

/-- A `TEXT` value; no text with a NUL character can be stored. -/
def storeText (s : String) : Option String := if s.toList.contains '\x00' then none else some s

/-- A `VARCHAR(n)` value: what is longer is an error, unless the rest is blank. -/
def storeVarchar (n : Nat) (s : String) : Option String :=
  (storeText s).bind fun s =>
    if s.toList.length ≤ n then some s
    else if (s.toList.drop n).all (· == ' ') then some (String.ofList (s.toList.take n))
    else none

end Feloxi.Tables
