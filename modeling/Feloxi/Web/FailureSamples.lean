import Feloxi.Lib.Ranking
import Feloxi.Web.FailureGroups

/-!
# Feloxi.Web.FailureSamples

The raw messages that a failure group shows (`MergedFailureGroup.samples`). Only the newest message
is put in front, any other goes to the back, and three are kept: a row that comes behind a newer and
an older one is out of order, or left out.
-/

namespace Feloxi.Web

open Grouping Ranking

/-- `a` failed after `b`. -/
def Newer (a b : FailureGroupRow) : Prop := b.lastSeen < a.lastSeen

instance : DecidableRel Newer := fun _ _ => inferInstanceAs (Decidable (_ < _))

theorem Newer.asymm (a b : FailureGroupRow) (h : Newer a b) : ¬ Newer b a := Nat.lt_asymm h

theorem newer_or_newer {rows : List FailureGroupRow} (hseen : (rows.map (·.lastSeen)).Nodup) :
    ∀ a ∈ rows, ∀ b ∈ rows, a ≠ b → Newer a b ∨ Newer b a := by
  intro a ha b hb hne
  have hne' : a.lastSeen ≠ b.lastSeen := fun h => hne (List.inj_on_of_nodup_map hseen ha hb h)
  exact (Nat.lt_or_gt_of_ne hne').symm

/-! ### What is wanted -/

/-- From the newest on. -/
def newestFirst (part : List FailureGroupRow) : List FailureGroupRow :=
  part.insertionSort fun a b => b.lastSeen ≤ a.lastSeen

/-- "Up to three distinct raw messages folded into the group, newest first." -/
def newestSamples (rows : List FailureGroupRow) (key : String) : List String :=
  ((newestFirst (rows.filter fun row => keyOf row = key)).take 3).map (·.exception)

theorem newestFirst_perm (part : List FailureGroupRow) : (newestFirst part).Perm part :=
  List.perm_insertionSort _ _

theorem pairwise_newestFirst {part : List FailureGroupRow}
    (hseen : (part.map (·.lastSeen)).Nodup) : (newestFirst part).Pairwise Newer := by
  have htotal : Std.Total fun a b : FailureGroupRow => b.lastSeen ≤ a.lastSeen :=
    ⟨fun a b => Nat.le_total _ _⟩
  have htrans : IsTrans FailureGroupRow fun a b => b.lastSeen ≤ a.lastSeen :=
    ⟨fun a b c hab hbc => Nat.le_trans hbc hab⟩
  have hle : (newestFirst part).Pairwise fun a b => b.lastSeen ≤ a.lastSeen :=
    List.pairwise_insertionSort _ part
  have hne : (newestFirst part).Pairwise fun a b => a.lastSeen ≠ b.lastSeen :=
    List.pairwise_map.1 (((newestFirst_perm part).map _).nodup_iff.2 hseen)
  exact (hle.and hne).imp fun h => Nat.lt_of_le_of_ne h.1 (Ne.symm h.2)

/-- Whatever order the rows come in. -/
theorem newestSamples_perm {rows rows' : List FailureGroupRow} (h : rows.Perm rows')
    (hseen : (rows.map (·.lastSeen)).Nodup) (key : String) :
    newestSamples rows key = newestSamples rows' key := by
  have hparts := h.filter fun row => keyOf row = key
  have hsub : (rows.filter fun row => keyOf row = key).Sublist rows := List.filter_sublist
  have hseen' := hseen.sublist (hsub.map _)
  have hperm := (newestFirst_perm _).trans (hparts.trans (newestFirst_perm _).symm)
  have heq := hperm.eq_of_pairwise (fun a b _ _ hab hba => absurd hba (Newer.asymm a b hab))
    (pairwise_newestFirst hseen') (pairwise_newestFirst ((hparts.map _).nodup_iff.1 hseen'))
  rw [newestSamples, newestSamples, heq]

/-! ### What the loop keeps -/

theorem samples_mergeRow (cur : MergedFailureGroup) (row : FailureGroupRow) :
    (mergeRow cur row).samples = (if row.lastSeen > cur.lastSeen then row.exception :: cur.samples
      else cur.samples ++ [row.exception]).take 3 := by
  simp only [mergeRow, mergeNewest]
  split <;> rfl

/-- The samples, before they are cut, are grown from the rows. -/
theorem samples_of_collect {part : List FailureGroupRow} {g : MergedFailureGroup}
    (h : collect newGroup mergeRow part = some g) :
    g.samples = ((grow Newer part).take 3).map (·.exception) := by
  induction part using List.reverseRecOn generalizing g with
  | nil => cases h
  | append_singleton part row ih =>
      rw [collect_concat] at h
      cases hpart : collect newGroup mergeRow part with
      | none =>
          cases part with
          | nil => exact Option.some.inj h ▸ rfl
          | cons first rest => cases hpart
      | some cur =>
          rw [hpart] at h
          have hmerged := isMerged_of_collect hpart
          have hnewest : row.lastSeen > cur.lastSeen ↔ ∀ y ∈ grow Newer part, Newer row y := by
            simp only [(grow_perm part).mem_iff]
            constructor
            · intro hgt y hy
              exact Nat.lt_of_le_of_lt (hmerged.lastSeen y hy) hgt
            · intro hall
              obtain ⟨y, hy, hseen, -⟩ := hmerged.newest
              exact hseen ▸ hall y hy
          have hg : mergeRow cur row = g := Option.some.inj h
          simp only [← hg, samples_mergeRow, hnewest, ih hpart, grow_concat, take_place]
          split <;> simp only [List.map_take, List.map_cons, List.map_append, List.map_nil]

/-- For the rows of one group. -/
theorem samples_eq_iff {part : List FailureGroupRow} {g : MergedFailureGroup}
    (h : collect newGroup mergeRow part = some g) (hexc : (part.map (·.exception)).Nodup)
    (hseen : (part.map (·.lastSeen)).Nodup) :
    g.samples = ((newestFirst part).take 3).map (·.exception) ↔
      ∀ x ∈ part, (part.filter fun y => Newer y x).length < 3 → ∀ y ∈ part, Newer x y →
        ¬ (Ahead part y x ∧ ∃ z, Newer z x ∧ Ahead part z x) := by
  have hsorted := pairwise_newestFirst hseen
  have hperm : (grow Newer part).Perm (newestFirst part) :=
    (grow_perm part).trans (newestFirst_perm part).symm
  have hinj : ∀ a ∈ (grow Newer part).take 3, ∀ b ∈ (newestFirst part).take 3,
      a.exception = b.exception → a = b := by
    intro a ha b hb heq
    have ha' : a ∈ part := (grow_perm part).mem_iff.1 (List.mem_of_mem_take ha)
    have hb' : b ∈ part := (newestFirst_perm part).mem_iff.1 (List.mem_of_mem_take hb)
    exact List.inj_on_of_nodup_map hexc ha' hb' heq
  have hnewer : ∀ x, ((newestFirst part).filter fun y => Newer y x).length =
      (part.filter fun y => Newer y x).length :=
    fun x => ((newestFirst_perm part).filter _).length_eq
  have hnodup : part.Nodup := List.Nodup.of_map _ hseen
  rw [samples_of_collect h, map_inj_on hinj, take_eq_take_iff Newer.asymm hsorted hperm]
  constructor
  · intro hall x hx hfew y hy hxy
    have hx' : x ∈ newestFirst part := (newestFirst_perm part).mem_iff.2 hx
    have hfirst := (mem_take_iff Newer.asymm hsorted hx' 3).2 (by rwa [hnewer])
    have hahead := hall x hfirst y ((newestFirst_perm part).mem_iff.2 hy) hxy
    exact (ahead_grow_iff Newer.asymm (newer_or_newer hseen) hnodup hx hy hxy).1 hahead
  · intro hall x hfirst y hy hxy
    have hx' : x ∈ newestFirst part := List.mem_of_mem_take hfirst
    have hx : x ∈ part := (newestFirst_perm part).mem_iff.1 hx'
    have hy : y ∈ part := (newestFirst_perm part).mem_iff.1 hy
    have hfew := (mem_take_iff Newer.asymm hsorted hx' 3).1 hfirst
    rw [hnewer] at hfew
    exact (ahead_grow_iff Newer.asymm (newer_or_newer hseen) hnodup hx hy hxy).2
      (hall x hx hfew y hy hxy)

/-- **Failure samples.** Every group shows its newest messages, the newest first, exactly when no
row that is among the three newest of its key comes behind both a newer and an older one. -/
theorem samples_newest_iff (rows : List FailureGroupRow)
    (hexc : (rows.map (·.exception)).Nodup) (hseen : (rows.map (·.lastSeen)).Nodup) :
    (∀ g ∈ mergeFailureGroups rows, g.samples = newestSamples rows g.fingerprint.key) ↔
      ∀ newer x older, Ahead rows newer x → Ahead rows older x →
        keyOf newer = keyOf x → keyOf older = keyOf x → Newer newer x → Newer x older →
        3 ≤ (rows.filter fun row => keyOf row = keyOf x ∧ Newer row x).length := by
  have hsub : ∀ k, (rows.filter fun row => keyOf row = k).Sublist rows :=
    fun k => List.filter_sublist
  have hgroup (g : MergedFailureGroup) (hg : g ∈ mergeFailureGroups rows) :=
    samples_eq_iff (collect_of_mem hg) (hexc.sublist ((hsub _).map _))
      (hseen.sublist ((hsub _).map _))
  have hcount : ∀ x k, ((rows.filter fun row => keyOf row = k).filter fun y => Newer y x).length =
      (rows.filter fun row => keyOf row = k ∧ Newer row x).length := by
    intro x k
    rw [List.filter_filter]
    simp [and_comm]
  constructor
  · intro hall newer x older hnewer holder hknewer hkolder hlt hgt
    have hx : x ∈ rows := hnewer.right
    obtain ⟨g, hg, hk⟩ := List.mem_map.1 ((mem_keys_mergeFailureGroups rows _).2 ⟨x, hx, rfl⟩)
    by_contra hfew
    refine (hgroup g hg).1 (hall g hg) x ?_ ?_ older ?_ hgt ⟨?_, newer, hlt, ?_⟩
    · exact List.mem_filter.2 ⟨hx, decide_eq_true hk.symm⟩
    · rw [hcount, hk]
      exact Nat.lt_of_not_le hfew
    · exact List.mem_filter.2 ⟨holder.left, decide_eq_true (hkolder.trans hk.symm)⟩
    · exact ahead_filter.2 ⟨holder, decide_eq_true (hkolder.trans hk.symm), decide_eq_true hk.symm⟩
    · exact ahead_filter.2 ⟨hnewer, decide_eq_true (hknewer.trans hk.symm), decide_eq_true hk.symm⟩
  · intro hcond g hg
    refine (hgroup g hg).2 fun x hx hfew older hy hgt h => ?_
    obtain ⟨holder, newer, hlt, hnewer⟩ := h
    obtain ⟨holder, hkolder, hkx⟩ := ahead_filter.1 holder
    obtain ⟨hnewer, hknewer, -⟩ := ahead_filter.1 hnewer
    have hkx := of_decide_eq_true hkx
    have hmany := hcond newer x older hnewer holder ((of_decide_eq_true hknewer).trans hkx.symm)
      ((of_decide_eq_true hkolder).trans hkx.symm) hlt hgt
    rw [hcount, ← hkx] at hfew
    exact Nat.not_le_of_lt hfew hmany

/-! ### Four failures of one kind -/

/-- A group of the server, with the number of its failures. -/
def failureRow (exception : String) (count lastSeen : Nat) : FailureGroupRow :=
  { exception, count, firstSeen := lastSeen, lastSeen, taskNames := ["app.sync"],
    latestTaskId := "t", latestTraceback := "", distinctNames := List.nodup_singleton _ }

/-- In the order of their counts. -/
def fourTimeouts : List FailureGroupRow :=
  [failureRow "Timeout: job 4444" 9 4, failureRow "Timeout: job 1111" 8 1,
    failureRow "Timeout: job 2222" 7 2, failureRow "Timeout: job 3333" 6 3]

theorem samples_newest_iff_sample :
    (∀ g ∈ mergeFailureGroups fourTimeouts.reverse,
      g.samples = newestSamples fourTimeouts.reverse g.fingerprint.key) ↔
      ∀ newer x older, Ahead fourTimeouts.reverse newer x → Ahead fourTimeouts.reverse older x →
        keyOf newer = keyOf x → keyOf older = keyOf x → Newer newer x → Newer x older →
        3 ≤ (fourTimeouts.reverse.filter fun row => keyOf row = keyOf x ∧ Newer row x).length :=
  samples_newest_iff fourTimeouts.reverse (by decide) (by decide)

/-- The second newest message is not among the three. -/
theorem second_newest_left_out :
    (fourTimeouts.map (·.exception)).Nodup ∧ (fourTimeouts.map (·.lastSeen)).Nodup ∧
      (mergeFailureGroups fourTimeouts).map (·.samples) =
        [["Timeout: job 4444", "Timeout: job 1111", "Timeout: job 2222"]] ∧
      (mergeFailureGroups fourTimeouts).map
          (fun g => newestSamples fourTimeouts g.fingerprint.key) =
        [["Timeout: job 4444", "Timeout: job 3333", "Timeout: job 2222"]] ∧
      (mergeFailureGroups fourTimeouts.reverse).map (·.samples) =
        [["Timeout: job 4444", "Timeout: job 3333", "Timeout: job 2222"]] := by
  decide +kernel

end Feloxi.Web
