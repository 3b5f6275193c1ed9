import Feloxi.Lib.Tables
import Mathlib.Data.List.Forall2
import Mathlib.Data.List.Nodup

/-!
# Feloxi.Lib.Sweeps

A sweep over a table reads a snapshot of the rows and rewrites them one by one, each by its key.
It ends at the first failure, so a part of the rows may be rewritten; a later sweep takes up the
others.
-/

namespace Feloxi.Sweeps

open Tables (Table)

/-- Row by row: where a relation between old and new rows is a property of the old ones. -/
theorem forall₂_iff_of_forall₂ {α β : Type*} {R S : α → β → Prop} {p : α → Prop} {l : List α}
    {l' : List β} (h : List.Forall₂ S l l') (hiff : ∀ a ∈ l, ∀ b, S a b → (R a b ↔ p a)) :
    List.Forall₂ R l l' ↔ ∀ a ∈ l, p a := by
  induction h with
  | nil => simp
  | cons hab _ ih =>
      obtain ⟨hfirst, hrest⟩ := List.forall_mem_cons.1 hiff
      rw [List.forall₂_cons, List.forall_mem_cons, hfirst _ hab, ih hrest]

/-- The new row of an old one. -/
theorem exists_mem_zip_of_forall₂ {α β : Type*} {R : α → β → Prop} {l : List α} {l' : List β}
    (h : List.Forall₂ R l l') {a : α} (ha : a ∈ l) : ∃ b, (a, b) ∈ l.zip l' ∧ R a b := by
  induction h with
  | nil => cases ha
  | cons hab _ ih =>
      rcases List.mem_cons.1 ha with rfl | ha
      · exact ⟨_, List.mem_cons_self, hab⟩
      · obtain ⟨b, hb, hR⟩ := ih ha
        exact ⟨b, List.mem_cons_of_mem _ hb, hR⟩

/-- How a write comes out. -/
inductive Write (ε : Type) where
  | done
  | refused (e : ε)
  /-- It was made, but the answer got lost. -/
  | lost (e : ε)

variable {ρ κ ε : Type}

/-- An update that keeps the key of a row. -/
abbrev Update (key : ρ → κ) := {f : ρ → ρ // ∀ row, key (f row) = key row}

/-- What a sweep does with a row it reads: `none` if there is nothing to do. -/
structure Sweep (key : ρ → κ) (ε : Type) where
  plan : ρ → Except ε (Option (Update key))
  write : ρ → Write ε

variable {key : ρ → κ}

/-- What becomes of a row that the sweep gets to. -/
def Sweep.visit (s : Sweep key ε) (row : ρ) : ρ :=
  match s.plan row with
  | .ok (some u) => u.1 row
  | _ => row

theorem Sweep.key_visit (s : Sweep key ε) (row : ρ) : key (s.visit row) = key row := by
  unfold visit
  split
  · rename_i u _
    exact u.2 row
  · rfl

theorem Sweep.visit_of_some {s : Sweep key ε} {row : ρ} {u : Update key}
    (h : s.plan row = .ok (some u)) : s.visit row = u.1 row := by
  rw [visit, h]

theorem Sweep.visit_of_none {s : Sweep key ε} {row : ρ} (h : s.plan row = .ok none) :
    s.visit row = row := by
  rw [visit, h]

/-! ### Tables with a key -/

variable [DecidableEq κ]

abbrev Keyed (key : ρ → κ) := Table ρ fun a b => decide (key a = key b)

/-- `UPDATE … WHERE key = k`. -/
def put (t : Keyed key) (k : κ) (u : Update key) : Keyed key :=
  t.update (fun row => if key row = k then u.1 row else row) fun a b h => by
    have hkey : ∀ row, key (if key row = k then u.1 row else row) = key row := by
      intro row
      split
      · exact u.2 row
      · rfl
    rwa [hkey, hkey]

theorem eq_of_key {t : Keyed key} {a b : ρ} (ha : a ∈ t.rows) (hb : b ∈ t.rows)
    (h : key a = key b) : a = b :=
  Table.eq_of_clash (fun _ _ => by simp only [eq_comm]) ha hb (decide_eq_true h)

theorem nodup_keys (t : Keyed key) : (t.rows.map key).Nodup :=
  List.pairwise_map.2 (t.distinct.imp of_decide_eq_false)

/-! ### Runs -/

namespace Sweep

variable {s : Sweep key ε}

def run (s : Sweep key ε) : List ρ → Keyed key → Except ε Unit × Keyed key
  | [], t => (.ok (), t)
  | row :: rest, t =>
    match s.plan row with
    | .error e => (.error e, t)
    | .ok none => run s rest t
    | .ok (some u) =>
      match s.write row with
      | .done => run s rest (put t (key row) u)
      | .refused e => (.error e, t)
      | .lost e => (.error e, put t (key row) u)

/-- The rows after the sweep got to those in `seen`. -/
def after (s : Sweep key ε) (seen rows : List ρ) : List ρ :=
  rows.map fun row => if key row ∈ seen.map key then s.visit row else row

theorem after_nil (rows : List ρ) : s.after [] rows = rows := by
  simp [after]

theorem after_one (row : ρ) (rows : List ρ) :
    s.after [row] rows = rows.map fun r => if key r = key row then s.visit r else r := by
  simp [after]

theorem rows_put {t : Keyed key} {row : ρ} (hrow : row ∈ t.rows) {u : Update key}
    (h : s.plan row = .ok (some u)) : (put t (key row) u).rows = s.after [row] t.rows := by
  rw [put, Table.rows_update, after_one]
  refine List.map_congr_left fun r hr => ?_
  by_cases hkey : key r = key row
  · rw [if_pos hkey, if_pos hkey, eq_of_key hr hrow hkey, visit_of_some h]
  · rw [if_neg hkey, if_neg hkey]

/-- The rows seen one after the other. -/
theorem after_cons {row : ρ} {seen : List ρ} (hrow : key row ∉ seen.map key) (rows : List ρ) :
    s.after (row :: seen) rows = s.after seen (s.after [row] rows) := by
  rw [after_one, after, after, List.map_map]
  refine List.map_congr_left fun r _ => ?_
  by_cases hkey : key r = key row
  · have hseen : key (s.visit r) ∉ seen.map key := by
      rwa [s.key_visit, hkey]
    rw [Function.comp_apply, if_pos hkey, if_neg hseen, if_pos (by simp [hkey])]
  · simp [hkey]

/-- A row with nothing to do stays as it is. -/
theorem after_one_of_none {t : Keyed key} {row : ρ} (hrow : row ∈ t.rows)
    (h : s.plan row = .ok none) : s.after [row] t.rows = t.rows := by
  rw [after_one]
  refine (List.map_congr_left fun r hr => ?_).trans (List.map_id t.rows)
  by_cases hkey : key r = key row
  · rw [if_pos hkey, eq_of_key hr hrow hkey, visit_of_none h]
    rfl
  · rw [if_neg hkey]
    rfl

/-- A sweep gets to the rows at the head of its snapshot, and leaves the others as they are. -/
theorem run_rows {snapshot : List ρ} {t : Keyed key} (hsub : ∀ row ∈ snapshot, row ∈ t.rows)
    (hkeys : (snapshot.map key).Nodup) :
    ∃ seen, seen <+: snapshot ∧ (∀ row ∈ seen, ∃ u, s.plan row = .ok u) ∧
      (s.run snapshot t).2.rows = s.after seen t.rows ∧
      ((s.run snapshot t).1 = .ok () → seen = snapshot) := by
  induction snapshot generalizing t with
  | nil => exact ⟨[], List.nil_prefix, by simp, (after_nil t.rows).symm, fun _ => rfl⟩
  | cons row rest ih =>
      have hrow := hsub row List.mem_cons_self
      obtain ⟨hnew, hrest⟩ := List.nodup_cons.1 hkeys
      have hstop : ∀ e : ε, ∃ seen, seen <+: row :: rest ∧
          (∀ r ∈ seen, ∃ u, s.plan r = .ok u) ∧ t.rows = s.after seen t.rows ∧
          ((.error e : Except ε Unit) = .ok () → seen = row :: rest) :=
        fun e => ⟨[], List.nil_prefix, by simp, (after_nil t.rows).symm, fun h => by cases h⟩
      -- the sweep goes on with `t'`, the table after it got to the row
      have hgo : ∀ t' : Keyed key, (∃ u, s.plan row = .ok u) → t'.rows = s.after [row] t.rows →
          ∃ seen, seen <+: row :: rest ∧ (∀ r ∈ seen, ∃ u, s.plan r = .ok u) ∧
            (s.run rest t').2.rows = s.after seen t.rows ∧
            ((s.run rest t').1 = .ok () → seen = row :: rest) := by
        intro t' hplan ht'
        have hsub' : ∀ r ∈ rest, r ∈ t'.rows := by
          intro r hr
          have hne : key r ≠ key row := fun heq => hnew (heq ▸ List.mem_map_of_mem hr)
          rw [ht', after]
          exact List.mem_map.2 ⟨r, hsub r (List.mem_cons_of_mem _ hr), by simp [hne]⟩
        obtain ⟨seen, hseen, hplans, hrows, hall⟩ := ih hsub' hrest
        refine ⟨row :: seen, List.cons_prefix_cons.2 ⟨rfl, hseen⟩, ?_, ?_, ?_⟩
        · exact List.forall_mem_cons.2 ⟨hplan, hplans⟩
        · rw [hrows, ht', ← after_cons]
          exact fun hmem => hnew ((hseen.map key).subset hmem)
        · exact fun hok => by rw [hall hok]
      cases hplan : s.plan row with
      | error e => simpa only [run, hplan] using hstop e
      | ok u =>
          cases u with
          | none =>
              simp only [run, hplan]
              exact hgo t ⟨_, hplan⟩ (after_one_of_none hrow hplan).symm
          | some u =>
              have hput := rows_put hrow hplan
              cases hwrite : s.write row with
              | done =>
                  simp only [run, hplan, hwrite]
                  exact hgo _ ⟨_, hplan⟩ hput
              | refused e => simpa only [run, hplan, hwrite] using hstop e
              | lost e =>
                  simp only [run, hplan, hwrite]
                  exact ⟨[row], by simp, by simpa using ⟨_, hplan⟩, hput, fun h => by cases h⟩

/-- A completed sweep got to every row. -/
theorem run_ok {snapshot : List ρ} {t t' : Keyed key} (hperm : snapshot.Perm t.rows)
    (h : s.run snapshot t = (.ok (), t')) :
    t'.rows = t.rows.map s.visit ∧ ∀ row ∈ t.rows, ∃ u, s.plan row = .ok u := by
  obtain ⟨seen, -, hplans, hrows, hall⟩ :=
    s.run_rows (fun row => hperm.mem_iff.1) ((hperm.map key).nodup_iff.2 (nodup_keys t))
  rw [h] at hrows hall
  obtain rfl := hall rfl
  refine ⟨?_, fun row hrow => hplans row (hperm.mem_iff.2 hrow)⟩
  rw [hrows, after]
  refine List.map_congr_left fun row hrow => if_pos ?_
  exact List.mem_map_of_mem (hperm.mem_iff.2 hrow)

/-- With nothing to do for any row, a sweep does nothing. -/
theorem run_of_none {snapshot : List ρ} (t : Keyed key)
    (h : ∀ row ∈ snapshot, s.plan row = .ok none) : s.run snapshot t = (.ok (), t) := by
  induction snapshot with
  | nil => rfl
  | cons row rest ih =>
      rw [run, h row List.mem_cons_self]
      exact ih fun r hr => h r (List.mem_cons_of_mem row hr)

/-- A sweep whose plans and writes succeed gets through. -/
theorem run_completes {snapshot : List ρ} (t : Keyed key)
    (hplans : ∀ row ∈ snapshot, ∃ u, s.plan row = .ok u)
    (hwrites : ∀ row ∈ snapshot, s.write row = .done) : (s.run snapshot t).1 = .ok () := by
  induction snapshot generalizing t with
  | nil => rfl
  | cons row rest ih =>
      obtain ⟨⟨plan, hplan⟩, hplans⟩ := List.forall_mem_cons.1 hplans
      obtain ⟨hwrite, hwrites⟩ := List.forall_mem_cons.1 hwrites
      cases plan with
      | none =>
          simp only [run, hplan]
          exact ih t hplans hwrites
      | some u =>
          simp only [run, hplan, hwrite]
          exact ih _ hplans hwrites

/-- A sweep keeps what every visit keeps, also one that fails. -/
theorem run_preserves {I : ρ → ρ → Prop} {snapshot originals : List ρ} {t : Keyed key}
    (hvisit : ∀ original row, I original row → (∃ u, s.plan row = .ok u) → I original (s.visit row))
    (hperm : snapshot.Perm t.rows) (h : List.Forall₂ I originals t.rows) :
    List.Forall₂ I originals (s.run snapshot t).2.rows := by
  obtain ⟨seen, hseen, hplans, hrows, -⟩ :=
    s.run_rows (fun row => hperm.mem_iff.1) ((hperm.map key).nodup_iff.2 (nodup_keys t))
  rw [hrows, after, List.forall₂_map_right_iff, List.forall₂_iff_zip]
  rw [List.forall₂_iff_zip] at h
  refine ⟨h.1, fun {original row} hpair => ?_⟩
  have hrow : row ∈ t.rows := (List.of_mem_zip hpair).2
  split
  · rename_i hkey
    obtain ⟨row', hrow', hkey⟩ := List.mem_map.1 hkey
    obtain rfl := eq_of_key (hperm.mem_iff.1 (hseen.subset hrow')) hrow hkey
    exact hvisit original row' (h.2 hpair) (hplans row' hrow')
  · exact h.2 hpair

end Sweep

end Feloxi.Sweeps
