import Feloxi.Lib.Grouping
import Feloxi.Web.Fingerprint
import Mathlib.Algebra.GroupWithZero.Nat
import Mathlib.Data.List.Sort

/-!
# Feloxi.Web.FailureGroups

Failures folded by fingerprint (`mergeFailureGroups` in `apps/web/src/lib/fingerprint.ts`). Each
group says of its rows what it should, in whatever order they come. Counts and times are integers
that numbers hold exactly.
-/

namespace Feloxi.Web

open Grouping

/-! ### Rows and groups -/

/-- A row of `get_failure_groups`. -/
structure FailureGroupRow where
  exception : String
  count : Nat
  firstSeen : Nat
  lastSeen : Nat
  taskNames : List String
  latestTaskId : String
  latestTraceback : String
  /-- `arrayDistinct`. -/
  distinctNames : taskNames.Nodup
  deriving Repr, DecidableEq

structure MergedFailureGroup where
  fingerprint : ExceptionFingerprint
  count : Nat
  firstSeen : Nat
  lastSeen : Nat
  taskNames : List String
  latestTaskId : String
  /-- The newest raw exception text, for tooltips. -/
  exampleText : String
  /-- Traceback of the newest occurrence. -/
  traceback : String
  samples : List String
  /-- How many distinct raw messages were folded into this group. -/
  variants : Nat
  deriving Repr, DecidableEq

/-! ### The loop -/

def keyOf (row : FailureGroupRow) : String := (fingerprint row.exception).key

/-- The first row of a key. -/
def newGroup (row : FailureGroupRow) : MergedFailureGroup :=
  { fingerprint := fingerprint row.exception, count := row.count, firstSeen := row.firstSeen,
    lastSeen := row.lastSeen, taskNames := row.taskNames, latestTaskId := row.latestTaskId,
    exampleText := row.exception, traceback := row.latestTraceback, samples := [row.exception],
    variants := 1 }

def addName (names : List String) (n : String) : List String :=
  if n ∈ names then names else names ++ [n]

/-- What a row with a newer failure replaces. -/
def mergeNewest (cur : MergedFailureGroup) (row : FailureGroupRow) : MergedFailureGroup :=
  if row.lastSeen > cur.lastSeen then
    { cur with
      lastSeen := row.lastSeen, latestTaskId := row.latestTaskId, exampleText := row.exception,
      traceback := row.latestTraceback, samples := row.exception :: cur.samples }
  else { cur with samples := cur.samples ++ [row.exception] }

/-- Another row of the key. -/
def mergeRow (cur : MergedFailureGroup) (row : FailureGroupRow) : MergedFailureGroup :=
  let newest := mergeNewest cur row
  { newest with
    count := cur.count + row.count, variants := cur.variants + 1,
    firstSeen := min cur.firstSeen row.firstSeen, samples := newest.samples.take 3,
    taskNames := row.taskNames.foldl addName cur.taskNames }

/-- `b.count - a.count || b.last_seen - a.last_seen`. -/
def Before (a b : MergedFailureGroup) : Prop :=
  b.count < a.count ∨ a.count = b.count ∧ b.lastSeen ≤ a.lastSeen

instance : DecidableRel Before := fun _ _ => inferInstanceAs (Decidable (_ ∨ _))

def mergeFailureGroups (rows : List FailureGroupRow) : List MergedFailureGroup :=
  ((fill keyOf newGroup mergeRow rows).map Prod.snd).insertionSort Before

/-! ### What a group says of its rows -/

structure IsMerged (part : List FailureGroupRow) (g : MergedFailureGroup) : Prop where
  count : g.count = (part.map (·.count)).sum
  variants : g.variants = part.length
  firstSeen : (∃ row ∈ part, row.firstSeen = g.firstSeen) ∧
    ∀ row ∈ part, g.firstSeen ≤ row.firstSeen
  lastSeen : ∀ row ∈ part, row.lastSeen ≤ g.lastSeen
  newest : ∃ row ∈ part, row.lastSeen = g.lastSeen ∧ row.latestTaskId = g.latestTaskId ∧
    row.exception = g.exampleText ∧ row.latestTraceback = g.traceback
  distinctNames : g.taskNames.Nodup
  taskNames : ∀ n, n ∈ g.taskNames ↔ ∃ row ∈ part, n ∈ row.taskNames

theorem isMerged_newGroup (row : FailureGroupRow) : IsMerged [row] (newGroup row) where
  count := by simp [newGroup]
  variants := rfl
  firstSeen := by simp [newGroup]
  lastSeen := by simp [newGroup]
  newest := ⟨row, List.mem_singleton_self row, rfl, rfl, rfl, rfl⟩
  distinctNames := row.distinctNames
  taskNames := by simp [newGroup]

theorem mem_addNames {names more : List String} {n : String} :
    n ∈ more.foldl addName names ↔ n ∈ names ∨ n ∈ more := by
  induction more generalizing names with
  | nil => simp
  | cons m more ih =>
      rw [List.foldl_cons, ih, addName]
      split
      · rename_i hmem
        by_cases heq : n = m
        · simp [heq, hmem]
        · simp [heq]
      · simp [or_assoc]

theorem nodup_addNames {names more : List String} (h : names.Nodup) :
    (more.foldl addName names).Nodup := by
  induction more generalizing names with
  | nil => exact h
  | cons m more ih =>
      rw [List.foldl_cons]
      refine ih ?_
      rw [addName]
      split
      · exact h
      · rename_i hnew
        rw [List.nodup_append]
        refine ⟨h, List.nodup_singleton _, fun a ha b hb heq => ?_⟩
        exact hnew (by rwa [← List.mem_singleton.1 hb, ← heq])

/-- What the newest row changes. -/
theorem mergeNewest_cases (cur : MergedFailureGroup) (row : FailureGroupRow) :
    (cur.lastSeen < row.lastSeen ∧ (mergeRow cur row).lastSeen = row.lastSeen ∧
      (mergeRow cur row).latestTaskId = row.latestTaskId ∧
      (mergeRow cur row).exampleText = row.exception ∧
      (mergeRow cur row).traceback = row.latestTraceback) ∨
    (row.lastSeen ≤ cur.lastSeen ∧ (mergeRow cur row).lastSeen = cur.lastSeen ∧
      (mergeRow cur row).latestTaskId = cur.latestTaskId ∧
      (mergeRow cur row).exampleText = cur.exampleText ∧
      (mergeRow cur row).traceback = cur.traceback) := by
  by_cases h : row.lastSeen > cur.lastSeen
  · left
    simp only [mergeRow, mergeNewest, if_pos h]
    exact ⟨h, trivial, trivial, trivial, trivial⟩
  · right
    simp only [mergeRow, mergeNewest, if_neg h]
    exact ⟨Nat.le_of_not_gt h, trivial, trivial, trivial, trivial⟩

theorem IsMerged.mergeRow {part : List FailureGroupRow} {g : MergedFailureGroup}
    (h : IsMerged part g) (row : FailureGroupRow) :
    IsMerged (part ++ [row]) (mergeRow g row) where
  count := by simp [Web.mergeRow, h.count]
  variants := by simp [Web.mergeRow, h.variants]
  firstSeen := by
    obtain ⟨⟨first, hfirst, heq⟩, hle⟩ := h.firstSeen
    constructor
    · rcases Nat.le_total g.firstSeen row.firstSeen with hmin | hmin
      · exact ⟨first, List.mem_append_left _ hfirst, heq.trans (Nat.min_eq_left hmin).symm⟩
      · exact ⟨row, by simp, (Nat.min_eq_right hmin).symm⟩
    · intro r hr
      rcases List.mem_append.1 hr with hr | hr
      · exact (Nat.min_le_left _ _).trans (hle r hr)
      · exact List.mem_singleton.1 hr ▸ Nat.min_le_right _ _
  lastSeen := by
    intro r hr
    have hold : r ∈ part → r.lastSeen ≤ g.lastSeen := h.lastSeen r
    rcases mergeNewest_cases g row with ⟨hlt, heq, -⟩ | ⟨hle, heq, -⟩ <;> rw [heq] <;>
      rcases List.mem_append.1 hr with hr | hr
    · exact (hold hr).trans (Nat.le_of_lt hlt)
    · exact List.mem_singleton.1 hr ▸ Nat.le_refl _
    · exact hold hr
    · exact List.mem_singleton.1 hr ▸ hle
  newest := by
    rcases mergeNewest_cases g row with
      ⟨-, hlast, hid, htext, htrace⟩ | ⟨-, hlast, hid, htext, htrace⟩
    · exact ⟨row, by simp, hlast.symm, hid.symm, htext.symm, htrace.symm⟩
    · obtain ⟨r, hr, hlast', hid', htext', htrace'⟩ := h.newest
      exact ⟨r, List.mem_append_left _ hr, hlast'.trans hlast.symm, hid'.trans hid.symm,
        htext'.trans htext.symm, htrace'.trans htrace.symm⟩
  distinctNames := nodup_addNames h.distinctNames
  taskNames := by
    intro n
    rw [Web.mergeRow, mem_addNames, h.taskNames]
    simp [or_and_right, exists_or]

/-- Whatever order the rows come in. -/
theorem isMerged_of_collect {part : List FailureGroupRow} {g : MergedFailureGroup}
    (h : collect newGroup mergeRow part = some g) : IsMerged part g := by
  induction part using List.reverseRecOn generalizing g with
  | nil => cases h
  | append_singleton part row ih =>
      rw [collect_concat] at h
      cases hpart : collect newGroup mergeRow part with
      | none =>
          cases part with
          | nil => exact Option.some.inj h ▸ isMerged_newGroup row
          | cons first rest => cases hpart
      | some cur =>
          rw [hpart] at h
          exact Option.some.inj h ▸ (ih hpart).mergeRow row

theorem fingerprint_mergeRow (cur : MergedFailureGroup) (row : FailureGroupRow) :
    (mergeRow cur row).fingerprint = cur.fingerprint := by
  simp only [mergeRow, mergeNewest]
  split <;> rfl

theorem fingerprint_foldl (rest : List FailureGroupRow) (g : MergedFailureGroup) :
    (rest.foldl mergeRow g).fingerprint = g.fingerprint := by
  induction rest generalizing g with
  | nil => rfl
  | cons row rest ih => rw [List.foldl_cons, ih, fingerprint_mergeRow]

/-! ### The map and its order -/

/-- A group is stored under the key of its fingerprint. -/
theorem key_of_mem_fill {rows : List FailureGroupRow} {k : String} {g : MergedFailureGroup}
    (h : (k, g) ∈ fill keyOf newGroup mergeRow rows) : g.fingerprint.key = k := by
  have hcollect := collect_of_mem_fill h
  cases hpart : rows.filter fun row => keyOf row = k with
  | nil =>
      rw [hpart] at hcollect
      cases hcollect
  | cons first rest =>
      have hfirst : first ∈ rows.filter fun row => keyOf row = k := hpart ▸ List.mem_cons_self
      rw [hpart] at hcollect
      rw [← Option.some.inj hcollect, fingerprint_foldl]
      exact of_decide_eq_true (List.mem_filter.1 hfirst).2

theorem mergeFailureGroups_perm (rows : List FailureGroupRow) :
    (mergeFailureGroups rows).Perm ((fill keyOf newGroup mergeRow rows).map Prod.snd) :=
  List.perm_insertionSort _ _

theorem keys_fill_eq (rows : List FailureGroupRow) :
    ((fill keyOf newGroup mergeRow rows).map Prod.snd).map (·.fingerprint.key) =
      (fill keyOf newGroup mergeRow rows).map Prod.fst := by
  rw [List.map_map]
  exact List.map_congr_left fun e he => key_of_mem_fill he

/-- A group has the rows of its key. -/
theorem collect_of_mem {rows : List FailureGroupRow} {g : MergedFailureGroup}
    (h : g ∈ mergeFailureGroups rows) :
    collect newGroup mergeRow (rows.filter fun row => keyOf row = g.fingerprint.key) = some g := by
  obtain ⟨⟨k, g'⟩, he, rfl⟩ := List.mem_map.1 ((mergeFailureGroups_perm rows).mem_iff.1 h)
  rw [key_of_mem_fill he]
  exact collect_of_mem_fill he

theorem mem_keys_mergeFailureGroups (rows : List FailureGroupRow) (k : String) :
    k ∈ (mergeFailureGroups rows).map (·.fingerprint.key) ↔ ∃ row ∈ rows, keyOf row = k := by
  rw [((mergeFailureGroups_perm rows).map _).mem_iff, keys_fill_eq]
  exact mem_keys_fill

theorem pairwise_mergeFailureGroups (rows : List FailureGroupRow) :
    (mergeFailureGroups rows).Pairwise Before := by
  have htotal : Std.Total Before := ⟨fun a b => by unfold Before; omega⟩
  have htrans : IsTrans MergedFailureGroup Before := ⟨fun a b c => by unfold Before; omega⟩
  exact List.pairwise_insertionSort Before _

end Feloxi.Web
