import Feloxi.Views.RetryTree

/-!
# Feloxi.Views.RetryLinks

The shape of a retry chain, whatever the parents say: no task twice, one name, and the parent of
each row in front of it. The two walks share the tasks that they have visited, and so the invariant.
-/

namespace Feloxi.Views

open Pipeline (TaskEventRow)
open Queries

namespace ClickHouse

variable {ch : ClickHouse} {tenantId : Uuid} {taskName : String}

/-! ### Parents -/

/-- A row with its parent among those above it. A task that was found below the empty id, by events
whose `parent_id` is empty, has none: `MERGED_TASK_SELECT` leaves empty ids out. -/
def HasParent (ch : ClickHouse) (tenantId : Uuid) (above : List TaskEventRow)
    (row : TaskEventRow) : Prop :=
  (∃ parent ∈ above, row.parentId = some parent.taskId) ∨
    row.parentId = none ∧ (∃ parent ∈ above, parent.taskId = "") ∧
      ∃ event ∈ ch.eventsOf tenantId row.taskId, event.parentId = some ""

/-- Every row but the first. -/
def ParentsAbove (ch : ClickHouse) (tenantId : Uuid) (chain : List TaskEventRow) : Prop :=
  ∀ above row below, chain = above ++ row :: below → above ≠ [] → HasParent ch tenantId above row

theorem HasParent.mono {above above' : List TaskEventRow} {row : TaskEventRow}
    (h : HasParent ch tenantId above row) (hsub : above ⊆ above') :
    HasParent ch tenantId above' row := by
  rcases h with ⟨parent, hparent, hid⟩ | ⟨hnone, ⟨parent, hparent, hempty⟩, hevent⟩
  · exact .inl ⟨parent, hsub hparent, hid⟩
  · exact .inr ⟨hnone, ⟨parent, hsub hparent, hempty⟩, hevent⟩

theorem parentsAbove_singleton (row : TaskEventRow) : ParentsAbove ch tenantId [row] := by
  intro above row' below heq hne
  have hlength := congrArg List.length heq
  have hpos := List.length_pos_of_ne_nil hne
  simp only [List.length_append, List.length_cons, List.length_nil] at hlength
  omega

/-- One step up. -/
theorem parentsAbove_cons {p current : TaskEventRow} {rest : List TaskEventRow}
    (h : ParentsAbove ch tenantId (current :: rest)) (hp : current.parentId = some p.taskId) :
    ParentsAbove ch tenantId (p :: current :: rest) := by
  intro above row below heq hne
  obtain ⟨first, above, rfl⟩ := List.exists_cons_of_ne_nil hne
  obtain ⟨rfl, hrest⟩ := List.cons.inj heq
  by_cases hnil : above = []
  · subst hnil
    obtain ⟨rfl, -⟩ := List.cons.inj hrest
    exact .inl ⟨p, List.mem_cons_self, hp⟩
  · exact (h above row below hrest hnil).mono (List.subset_cons_self p above)

/-- One level down. -/
theorem parentsAbove_append {chain next : List TaskEventRow} (h : ParentsAbove ch tenantId chain)
    (hnext : ∀ row ∈ next, HasParent ch tenantId chain row) :
    ParentsAbove ch tenantId (chain ++ next) := by
  intro above row below heq hne
  rcases List.append_eq_append_iff.1 heq with ⟨more, rfl, hmore⟩ | ⟨more, rfl, hmore⟩
  · exact (hnext row (by simp [hmore])).mono (List.subset_append_left chain more)
  · cases more with
    | nil =>
        rw [List.append_nil] at hnext
        exact hnext row (by rw [List.nil_append] at hmore; simp [← hmore])
    | cons first more =>
        obtain ⟨rfl, -⟩ := List.cons.inj hmore
        exact h above row more rfl hne

/-- What the children of a level say of their parents. -/
theorem hasParent_of_child {parents : List String} {chain : List TaskEventRow}
    (hparents : ∀ id ∈ parents, ∃ parent ∈ chain, parent.taskId = id) {row : TaskEventRow}
    (hrow : row ∈ ch.getChildrenByParentIds tenantId parents taskName) :
    HasParent ch tenantId chain row := by
  have hmerged := (mem_getChildrenByParentIds.1 hrow).1
  have hmerge := isMerge_of_mergedTask hmerged
  have hselected : ∀ event ∈ (ch.eventsOf tenantId row.taskId).filter (fun event =>
      event.parentId.any parents.contains), ∃ pid ∈ parents, event.parentId = some pid := by
    intro event hevent
    obtain ⟨pid, hpid, hmem⟩ := (Option.any_eq_true _ _).1 (List.mem_filter.1 hevent).2
    exact ⟨pid, List.contains_iff_mem.1 hmem, hpid⟩
  rcases argMaxIf_cases millis (·.parentId) isId none _ with ⟨event, hevent, hid⟩ | ⟨hnone, hempty⟩
  · obtain ⟨pid, hpid, heq⟩ := hselected event hevent
    obtain ⟨parent, hparent, rfl⟩ := hparents pid hpid
    exact .inl ⟨parent, hparent, hmerge.parentId.trans (hid.trans heq)⟩
  · -- no event has a parent with an id, so that the level has the empty one
    obtain ⟨event, hevent, -⟩ := hmerge.taskId
    obtain ⟨pid, hpid, heq⟩ := hselected event hevent
    have hzero : pid = "" := by
      have hnot := hempty event hevent
      rw [heq] at hnot
      simpa [isId] using hnot
    subst hzero
    exact .inr ⟨hmerge.parentId.trans hnone, hparents "" hpid, event, List.mem_of_mem_filter hevent,
      heq⟩

/-! ### The walks -/

/-- What both walks keep. -/
structure ChainInv (ch : ClickHouse) (tenantId : Uuid) (taskName : String)
    (chain : List TaskEventRow) (visited : List String) : Prop where
  nodup : (chain.map (·.taskId)).Nodup
  visited : ∀ row ∈ chain, row.taskId ∈ visited
  named : ∀ row ∈ chain, row.taskName = taskName
  parents : ParentsAbove ch tenantId chain

/-- A parent that was not visited goes in front. -/
theorem ChainInv.cons {current p : TaskEventRow} {rest : List TaskEventRow} {visited : List String}
    (h : ChainInv ch tenantId taskName (current :: rest) visited) (hnew : p.taskId ∉ visited)
    (hname : p.taskName = taskName) (hparent : current.parentId = some p.taskId) :
    ChainInv ch tenantId taskName (p :: current :: rest) (p.taskId :: visited) where
  nodup := by
    refine List.nodup_cons.2 ⟨fun hmem => hnew ?_, h.nodup⟩
    obtain ⟨row, hrow, hid⟩ := List.mem_map.1 hmem
    have hid : row.taskId = p.taskId := hid
    exact hid ▸ h.visited row hrow
  visited := by
    intro row hrow
    rcases List.mem_cons.1 hrow with rfl | hrow
    · exact List.mem_cons_self
    · exact List.mem_cons_of_mem _ (h.visited row hrow)
  named := by
    intro row hrow
    rcases List.mem_cons.1 hrow with rfl | hrow
    · exact hname
    · exact h.named row hrow
  parents := parentsAbove_cons h.parents hparent

/-- Children that were not visited go behind. -/
theorem ChainInv.append {chain : List TaskEventRow} {visited parents : List String}
    (h : ChainInv ch tenantId taskName chain visited)
    (hparents : ∀ id ∈ parents, ∃ parent ∈ chain, parent.taskId = id) :
    ChainInv ch tenantId taskName
      (chain ++ (fresh (ch.getChildrenByParentIds tenantId parents taskName) visited).1)
      (fresh (ch.getChildrenByParentIds tenantId parents taskName) visited).2 where
  nodup := by
    rw [List.map_append, List.nodup_append]
    refine ⟨h.nodup, nodup_fresh _ _, ?_⟩
    intro id hold id' hnew heq
    obtain ⟨row, hrow, rfl⟩ := List.mem_map.1 hold
    obtain ⟨child, hchild, rfl⟩ := List.mem_map.1 hnew
    exact (mem_fresh hchild).2 (heq ▸ h.visited row hrow)
  visited := by
    intro row hrow
    rw [mem_fresh_visited]
    rcases List.mem_append.1 hrow with hrow | hrow
    · exact .inl (h.visited row hrow)
    · exact .inr ⟨row, (mem_fresh hrow).1, rfl⟩
  named := by
    intro row hrow
    rcases List.mem_append.1 hrow with hrow | hrow
    · exact h.named row hrow
    · exact (mem_getChildrenByParentIds.1 (mem_fresh hrow).1).2
  parents := parentsAbove_append h.parents fun _ hrow =>
    hasParent_of_child hparents (mem_fresh hrow).1

/-- The rows of the walk up, from the root down. -/
theorem walkUp_chainInv (depth : Nat) {current : TaskEventRow} {ancestors : List TaskEventRow}
    {visited : List String}
    (h : ChainInv ch tenantId taskName (current :: ancestors.reverse) visited) :
    ChainInv ch tenantId taskName
      ((ch.walkUp tenantId taskName depth current ancestors visited).1 ::
        (ch.walkUp tenantId taskName depth current ancestors visited).2.1.reverse)
      (ch.walkUp tenantId taskName depth current ancestors visited).2.2 := by
  induction depth generalizing current ancestors visited with
  | zero => exact h
  | succ depth ih =>
      rw [walkUp]
      split
      · exact h
      · rename_i pid hpid
        split
        · exact h
        · rename_i hnew
          split
          · exact h
          · rename_i p hp
            split
            · rename_i hname
              obtain rfl := taskId_of_getTaskLatest hp
              refine ih ?_
              rw [List.reverse_append]
              exact h.cons (fun hmem => hnew (.inr hmem)) hname hpid
            · exact h

theorem walkDown_chainInv (depth : Nat) {parents visited : List String} {chain : List TaskEventRow}
    (h : ChainInv ch tenantId taskName chain visited)
    (hparents : ∀ id ∈ parents, ∃ parent ∈ chain, parent.taskId = id) :
    ∃ visited', ChainInv ch tenantId taskName
      (ch.walkDown tenantId taskName depth parents chain visited) visited' := by
  induction depth generalizing parents chain visited with
  | zero => exact ⟨visited, h⟩
  | succ depth ih =>
      rw [walkDown]
      split
      · exact ⟨visited, h⟩
      · refine ih (h.append hparents) fun id hid => ?_
        obtain ⟨row, hrow, rfl⟩ := List.mem_map.1 hid
        exact ⟨row, List.mem_append_right _ hrow, rfl⟩

/-- The task that the walk up starts from is in what it gives. -/
theorem mem_walkUp_of_mem (depth : Nat) {current row : TaskEventRow}
    {ancestors : List TaskEventRow} {visited : List String} (h : row ∈ current :: ancestors) :
    row ∈ (ch.walkUp tenantId taskName depth current ancestors visited).1 ::
      (ch.walkUp tenantId taskName depth current ancestors visited).2.1 := by
  induction depth generalizing current ancestors visited with
  | zero => exact h
  | succ depth ih =>
      rw [walkUp]
      split
      · exact h
      · split
        · exact h
        · split
          · exact h
          · split
            · refine ih (List.mem_cons_of_mem _ ?_)
              rcases List.mem_cons.1 h with rfl | h
              · exact List.mem_append_right _ List.mem_cons_self
              · exact List.mem_append_left _ h
            · exact h

/-- **Retry chains.** The chain of a task has it, no task twice and one name, and every row but the
first comes behind its parent. -/
theorem getRetryChain_wellFormed (ch : ClickHouse) (tenantId : Uuid) (taskId : String)
    (hevent : ∃ event ∈ ch.taskEvents, event.tenantId = tenantId ∧ event.taskId = taskId) :
    ((ch.getRetryChain tenantId taskId).map (·.taskId)).Nodup ∧
      ∃ current, ch.getTaskLatest tenantId taskId = some current ∧ current.taskId = taskId ∧
        current ∈ ch.getRetryChain tenantId taskId ∧
        (∀ row ∈ ch.getRetryChain tenantId taskId, row.taskName = current.taskName) ∧
        ParentsAbove ch tenantId (ch.getRetryChain tenantId taskId) := by
  obtain ⟨event, hevent⟩ := hevent
  obtain ⟨current, hcurrent⟩ := exists_mergedTask (mem_eventsOf.2 hevent)
  rw [← getTaskLatest_eq] at hcurrent
  have hstart : ChainInv ch tenantId current.taskName [current] [current.taskId] :=
    ⟨List.nodup_singleton _, by simp, by simp, parentsAbove_singleton current⟩
  have htask := taskId_of_getTaskLatest hcurrent
  have hup : ChainInv ch tenantId current.taskName _ _ :=
    @walkUp_chainInv ch tenantId current.taskName MAX_DEPTH current [] [current.taskId] hstart
  have hin : current ∈ _ := @mem_walkUp_of_mem ch tenantId current.taskName MAX_DEPTH current
    current [] [current.taskId] List.mem_cons_self
  rw [getRetryChain, hcurrent]
  dsimp only
  generalize ch.walkUp tenantId current.taskName MAX_DEPTH current [] [current.taskId] = up
    at hup hin
  have hleaf : ∀ id ∈ [leafId up.1 up.2.1.reverse],
      ∃ parent ∈ up.1 :: up.2.1.reverse, parent.taskId = id := by
    intro id hid
    rw [List.mem_singleton.1 hid, leafId_eq]
    exact ⟨_, List.getLast_mem _, rfl⟩
  obtain ⟨visited, hdown⟩ := walkDown_chainInv MAX_DEPTH hup hleaf
  have hmem : current ∈ up.1 :: up.2.1.reverse := by
    rwa [List.mem_cons, List.mem_reverse, ← List.mem_cons]
  exact ⟨hdown.nodup, current, rfl, htask, mem_walkDown_of_mem hmem, hdown.named, hdown.parents⟩

end ClickHouse

theorem getRetryChain_wellFormed_sample :
    ((retriesInLine.getRetryChain 7 "b").map (·.taskId)).Nodup :=
  (ClickHouse.getRetryChain_wellFormed retriesInLine 7 "b" (by decide)).1

/-- A retry of `a` with the empty id, and one of it. -/
def emptyId : ClickHouse :=
  sampleDb [retryEvent "a" none 1000, retryEvent "" (some "a") 2000, retryEvent "b" (some "") 3000]
    (by decide)

/-- The last row has no parent. -/
theorem parent_not_above :
    (∃ event ∈ emptyId.taskEvents, event.tenantId = 7 ∧ event.taskId = "a") ∧
      (emptyId.getRetryChain 7 "a").map (·.taskId) = ["a", "", "b"] ∧
      ∃ row ∈ (emptyId.getRetryChain 7 "a").tail, ∀ parent ∈ emptyId.getRetryChain 7 "a",
        row.parentId ≠ some parent.taskId := by decide

end Feloxi.Views
