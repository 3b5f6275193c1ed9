import Feloxi.Lib.Assoc
import Feloxi.Lib.Forests
import Feloxi.Views.RetryChain
import Feloxi.Views.TaskList

/-!
# Feloxi.Views.RetryTree

The retries of one task as a forest, and which of them the chain of a task has: the way down to
the task, and all that is below it.
-/

namespace Feloxi.Views

open Forests
open Pipeline (TaskEventRow)
open Queries

/-- The retries of a task, `tasks`, among the tasks of a tenant: they have one name, and every event
of a retry carries the parent. What else they are linked to has another name. -/
structure RetryForest (ch : ClickHouse) (tenantId : Uuid) (taskName : String) (tasks : String → Prop)
    (parent : String → Option String) (depth : String → Nat) : Prop where
  taskId : ∀ id, tasks id → id ≠ ""
  stored : ∀ id, tasks id → ∃ event, event ∈ ch.eventsOf tenantId id
  named : ∀ id, tasks id → ∀ event ∈ ch.eventsOf tenantId id, event.taskName = taskName
  parentId : ∀ id p, parent id = some p → ∀ event ∈ ch.eventsOf tenantId id, event.parentId = some p
  linked : ∀ id p, parent id = some p → tasks id ∧ tasks p
  root : ∀ id, tasks id → parent id = none → ∀ event ∈ ch.eventsOf tenantId id,
    ∀ p, event.parentId = some p → ∀ event' ∈ ch.eventsOf tenantId p, event'.taskName ≠ taskName
  other : ∀ event ∈ ch.taskEvents, event.tenantId = tenantId → ¬ tasks event.taskId →
    ∀ p, event.parentId = some p → tasks p → event.taskName ≠ taskName
  layered : Layered parent depth
  depth_le : ∀ id, depth id ≤ ClickHouse.MAX_DEPTH

namespace RetryForest

variable {ch : ClickHouse} {tenantId : Uuid} {taskName : String} {tasks : String → Prop}
  {parent : String → Option String} {depth : String → Nat}

/-! ### Rows -/

/-- A row of a retry. -/
structure IsRow (ch : ClickHouse) (tenantId : Uuid) (taskName : String)
    (parent : String → Option String) (row : TaskEventRow) : Prop where
  named : row.taskName = taskName
  parentId : ∀ p, parent row.taskId = some p → row.parentId = some p
  root : parent row.taskId = none → ∀ p, row.parentId = some p →
    ∀ row', ch.getTaskLatest tenantId p = some row' → row'.taskName ≠ taskName

/-- Events of other names are merged to another name. -/
theorem taskName_ne {events : List TaskEventRow} {row : TaskEventRow}
    (hrow : mergedTask events = some row) (h : ∀ event ∈ events, event.taskName ≠ taskName) :
    row.taskName ≠ taskName := by
  have hmerge := isMerge_of_mergedTask hrow
  rw [hmerge.taskName]
  rcases argMaxIf_cases millis (·.taskName) isText "" events with ⟨event, hevent, heq⟩ | ⟨heq, hnone⟩
  · exact fun hname => h event hevent (heq.symm.trans hname)
  · obtain ⟨event, hevent, -⟩ := hmerge.taskId
    have hempty := hnone event hevent
    rw [isText, bne_eq_false_iff_eq] at hempty
    exact fun hname => h event hevent (hempty.trans (heq.symm.trans hname))

/-- A row that is merged from events of a retry. -/
theorem isRow_of_mergedTask (forest : RetryForest ch tenantId taskName tasks parent depth)
    {id : String} (hid : tasks id) {cond : TaskEventRow → Bool} {row : TaskEventRow}
    (hrow : mergedTask ((ch.eventsOf tenantId id).filter cond) = some row) :
    row.taskId = id ∧ IsRow ch tenantId taskName parent row := by
  have hmerge := isMerge_of_mergedTask hrow
  obtain ⟨event, hevent, htask⟩ := hmerge.taskId
  have hne := List.ne_nil_of_mem hevent
  have hrowId : row.taskId = id :=
    htask.trans (ClickHouse.mem_eventsOf.1 (List.mem_of_mem_filter hevent)).2.2
  refine ⟨hrowId, ?_, fun p hp => ?_, fun hroot p hp row' hrow' => ?_⟩
  · refine hmerge.taskName.trans (argMaxIf_of_forall_eq (fun e he => ?_) hne fun h => ?_)
    · exact forest.named id hid e (List.mem_of_mem_filter he)
    · rw [isText, bne_eq_false_iff_eq] at h
      exact h.symm
  · rw [hrowId] at hp
    refine hmerge.parentId.trans (argMaxIf_of_forall_eq (fun e he => ?_) hne fun h => ?_)
    · exact forest.parentId id p hp e (List.mem_of_mem_filter he)
    · have hempty : p ≠ "" := forest.taskId p (forest.linked id p hp).2
      simp [isId, hempty] at h
  · rw [hrowId] at hroot
    rw [ClickHouse.getTaskLatest_eq] at hrow'
    rw [hmerge.parentId] at hp
    rcases argMaxIf_cases millis (·.parentId) isId none
      ((ch.eventsOf tenantId id).filter cond) with ⟨e, he, heq⟩ | ⟨heq, -⟩
    · have hcarried : e.parentId = some p := heq.symm.trans hp
      exact taskName_ne hrow' (forest.root id hid hroot e (List.mem_of_mem_filter he) p hcarried)
    · cases heq.symm.trans hp

theorem exists_latest (forest : RetryForest ch tenantId taskName tasks parent depth) {id : String}
    (hid : tasks id) :
    ∃ row, ch.getTaskLatest tenantId id = some row ∧ row.taskId = id ∧
      IsRow ch tenantId taskName parent row := by
  obtain ⟨event, hevent⟩ := forest.stored id hid
  obtain ⟨row, hrow⟩ := exists_mergedTask hevent
  refine ⟨row, (ClickHouse.getTaskLatest_eq id).trans hrow, ?_⟩
  have hall : (ch.eventsOf tenantId id).filter (fun _ => true) = ch.eventsOf tenantId id :=
    List.filter_true _
  exact forest.isRow_of_mergedTask hid (hall ▸ hrow)

/-- The children of some retries are the tasks whose parents are among them. -/
theorem exists_child_iff (forest : RetryForest ch tenantId taskName tasks parent depth)
    {parents : List String} (hparents : ∀ p ∈ parents, tasks p) {id : String} :
    (∃ row ∈ ch.getChildrenByParentIds tenantId parents taskName, row.taskId = id) ↔
      ∃ p ∈ parents, parent id = some p := by
  constructor
  · rintro ⟨row, hrow, rfl⟩
    obtain ⟨hmerged, hname⟩ := ClickHouse.mem_getChildrenByParentIds.1 hrow
    have hcarries : ∀ event ∈ (ch.eventsOf tenantId row.taskId).filter
        (fun event => event.parentId.any parents.contains),
        event ∈ ch.eventsOf tenantId row.taskId ∧ ∃ p ∈ parents, event.parentId = some p := by
      intro event hevent
      rw [List.mem_filter, Option.any_eq_true] at hevent
      obtain ⟨hevent, p, hp, hmem⟩ := hevent
      exact ⟨hevent, p, List.contains_iff_mem.1 hmem, hp⟩
    obtain ⟨event, hevent, -⟩ := (isMerge_of_mergedTask hmerged).taskId
    obtain ⟨hevent, p, hp, hcarried⟩ := hcarries event hevent
    by_cases hid : tasks row.taskId
    · cases hparent : parent row.taskId with
      | none =>
          -- the parent of a root has another name, so it is no retry
          obtain ⟨event', hevent'⟩ := forest.stored p (hparents p hp)
          exact absurd (forest.named p (hparents p hp) event' hevent')
            (forest.root _ hid hparent event hevent p hcarried event' hevent')
      | some p' =>
          have hsame := (forest.parentId _ p' hparent event hevent).symm.trans hcarried
          exact ⟨p, hp, hsame⟩
    · refine absurd hname (taskName_ne hmerged fun e he => ?_)
      obtain ⟨he, p', hp', hcarried'⟩ := hcarries e he
      obtain ⟨hstored, htenant, htask⟩ := ClickHouse.mem_eventsOf.1 he
      exact forest.other e hstored htenant (htask ▸ hid) p' hcarried' (hparents p' hp')
  · rintro ⟨p, hp, hparent⟩
    have hall : (ch.eventsOf tenantId id).filter
        (fun event => event.parentId.any parents.contains) = ch.eventsOf tenantId id := by
      refine List.filter_eq_self.2 fun event hevent => ?_
      rw [forest.parentId id p hparent event hevent, Option.any_some]
      exact List.contains_iff_mem.2 hp
    obtain ⟨event, hevent⟩ := forest.stored id (forest.linked id p hparent).1
    obtain ⟨row, hrow⟩ := exists_mergedTask hevent
    rw [← hall] at hrow
    obtain ⟨hid, hfields⟩ := forest.isRow_of_mergedTask (forest.linked id p hparent).1 hrow
    exact ⟨row, ClickHouse.mem_getChildrenByParentIds.2 ⟨by rw [hid]; exact hrow, hfields.named⟩,
      hid⟩

/-! ### The way up -/

/-- Where the walk up is: the rows from `current` down to `q` are a way, and were visited. -/
structure Climbing (ch : ClickHouse) (tenantId : Uuid) (taskName : String)
    (parent : String → Option String) (q : String) (current : TaskEventRow)
    (ancestors : List TaskEventRow) (visited : List String) : Prop where
  way : IsWay parent (current.taskId :: ancestors.reverse.map (·.taskId))
  last : (current.taskId :: ancestors.reverse.map (·.taskId)).getLast (List.cons_ne_nil _ _) = q
  isRow : IsRow ch tenantId taskName parent current
  visited : ∀ id, id ∈ visited ↔ id ∈ current.taskId :: ancestors.reverse.map (·.taskId)

/-- One step up. -/
theorem Climbing.step {q : String} {current p : TaskEventRow} {ancestors : List TaskEventRow}
    {visited : List String} (h : Climbing ch tenantId taskName parent q current ancestors visited)
    (hstep : parent current.taskId = some p.taskId) (hp : IsRow ch tenantId taskName parent p) :
    Climbing ch tenantId taskName parent q p (ancestors ++ [current]) (p.taskId :: visited) := by
  have hrows : (ancestors ++ [current]).reverse.map (·.taskId) =
      current.taskId :: ancestors.reverse.map (·.taskId) := by
    rw [List.reverse_concat, List.map_cons]
  exact {
    way := hrows ▸ List.isChain_cons_cons.2 ⟨hstep, h.way⟩
    last := by
      simp only [hrows]
      rw [List.getLast_cons (List.cons_ne_nil _ _), h.last]
    isRow := hp
    visited := by
      intro id
      rw [hrows, List.mem_cons, List.mem_cons, h.visited] }

/-- Nothing below on the way is the parent of the row that was reached. -/
theorem Climbing.parent_notMem {q : String} {current : TaskEventRow}
    {ancestors : List TaskEventRow} {visited : List String}
    (h : Climbing ch tenantId taskName parent q current ancestors visited) (hdepth : Layered parent depth) {pid : String}
    (hparent : parent current.taskId = some pid) : pid ∉ visited := by
  rw [h.visited, List.mem_cons]
  have hone := hdepth _ _ hparent
  have hbelow := (List.pairwise_cons.1 (h.way.pairwise hdepth)).1
  rintro (rfl | hmem)
  · omega
  · have hlt := hbelow pid hmem
    omega

/-- By induction on the depth that is left: the way up goes to a root. -/
theorem walkUp_climbing (forest : RetryForest ch tenantId taskName tasks parent depth) {q : String}
    {n : Nat} {current : TaskEventRow} {ancestors : List TaskEventRow} {visited : List String}
    (h : Climbing ch tenantId taskName parent q current ancestors visited) (hdepth : depth current.taskId ≤ n) :
    parent (ch.walkUp tenantId taskName n current ancestors visited).1.taskId = none ∧
      Climbing ch tenantId taskName parent q (ch.walkUp tenantId taskName n current ancestors visited).1
        (ch.walkUp tenantId taskName n current ancestors visited).2.1
        (ch.walkUp tenantId taskName n current ancestors visited).2.2 := by
  induction n generalizing current ancestors visited with
  | zero =>
      refine ⟨?_, h⟩
      cases hparent : parent current.taskId with
      | none => exact hparent
      | some p =>
          have hone := forest.layered _ _ hparent
          omega
  | succ n ih =>
      cases hparent : parent current.taskId with
      | none =>
          rw [ClickHouse.walkUp_of_stop (h.isRow.root hparent)]
          exact ⟨hparent, h⟩
      | some pid =>
          have hone := forest.layered _ _ hparent
          have htask := (forest.linked _ _ hparent).2
          obtain ⟨p, hread, rfl, hp⟩ := forest.exists_latest htask
          rw [ClickHouse.walkUp_of_some (h.isRow.parentId _ hparent) (forest.taskId _ htask)
            (h.parent_notMem forest.layered hparent) hread hp.named]
          exact ih (h.step hparent hp) (by omega)

/-! ### The way down -/

/-- Where the walk down is: the chain has what is above `q`, and what is below it down to
`k` levels. -/
structure Descending (parent : String → Option String) (depth : String → Nat) (q : String) (k : Nat)
    (levelParents : List String) (chain : List TaskEventRow) (visited : List String) : Prop where
  level : ∀ id, id ∈ levelParents ↔ Above parent q id ∧ depth id = depth q + k
  shown : ∀ id, id ∈ chain.map (·.taskId) ↔
    Above parent id q ∨ (Above parent q id ∧ depth id ≤ depth q + k)
  visited : ∀ id, id ∈ visited ↔ id ∈ chain.map (·.taskId)
  nodup : (chain.map (·.taskId)).Nodup
  sorted : (chain.map (·.taskId)).Pairwise fun a b => depth a ≤ depth b

variable {q : String} {k : Nat} {levelParents visited : List String} {chain : List TaskEventRow}

theorem Descending.depth_le (h : Descending parent depth q k levelParents chain visited)
    (hdepth : Layered parent depth) {id : String} (hid : id ∈ chain.map (·.taskId)) :
    depth id ≤ depth q + k := by
  rcases (h.shown id).1 hid with habove | ⟨-, hle⟩
  · have hle := habove.depth_le hdepth
    omega
  · exact hle

/-- What is below a retry is a retry. -/
theorem tasks_of_above (forest : RetryForest ch tenantId taskName tasks parent depth)
    (hq : tasks q) {id : String} (h : Above parent q id) : tasks id := by
  rcases above_iff.1 h with rfl | ⟨p, hparent, -⟩
  · exact hq
  · exact (forest.linked id p hparent).1

/-- The next level is all new. -/
theorem Descending.mem_fresh_iff (forest : RetryForest ch tenantId taskName tasks parent depth)
    (hq : tasks q) (h : Descending parent depth q k levelParents chain visited) {id : String} :
    id ∈ (ClickHouse.fresh (ch.getChildrenByParentIds tenantId levelParents taskName)
        visited).1.map (·.taskId) ↔ Above parent q id ∧ depth id = depth q + (k + 1) := by
  have hparents : ∀ p ∈ levelParents, tasks p :=
    fun p hp => forest.tasks_of_above hq ((h.level p).1 hp).1
  constructor
  · intro hmem
    obtain ⟨c, hc, rfl⟩ := List.mem_map.1 hmem
    obtain ⟨p, hp, hparent⟩ := (forest.exists_child_iff hparents).1 ⟨c, (ClickHouse.mem_fresh hc).1, rfl⟩
    obtain ⟨habove, hlevel⟩ := (h.level p).1 hp
    have hone := forest.layered _ _ hparent
    exact ⟨habove.trans (above_parent hparent), by omega⟩
  · rintro ⟨habove, hlevel⟩
    rcases above_iff.1 habove with rfl | ⟨p, hparent, hp⟩
    · omega
    · have hone := forest.layered _ _ hparent
      obtain ⟨c, hc, rfl⟩ := (forest.exists_child_iff hparents).2
        ⟨p, (h.level p).2 ⟨hp, by omega⟩, hparent⟩
      have hnew : c.taskId ∉ visited := fun hmem => by
        have hle := h.depth_le forest.layered ((h.visited _).1 hmem)
        omega
      obtain ⟨c', hc', hid⟩ := ClickHouse.exists_fresh hc hnew
      exact List.mem_map.2 ⟨c', hc', hid⟩

theorem Descending.step (forest : RetryForest ch tenantId taskName tasks parent depth)
    (hq : tasks q) (h : Descending parent depth q k levelParents chain visited) {next : List TaskEventRow × List String}
    (hnext : next = ClickHouse.fresh (ch.getChildrenByParentIds tenantId levelParents taskName)
      visited) :
    Descending parent depth q (k + 1) (next.1.map (·.taskId)) (chain ++ next.1) next.2 := by
  have hlevel : ∀ id, id ∈ next.1.map (·.taskId) ↔
      Above parent q id ∧ depth id = depth q + (k + 1) := fun id => hnext ▸ h.mem_fresh_iff forest hq
  refine ⟨hlevel, fun id => ?_, fun id => ?_, ?_, ?_⟩
  · rw [List.map_append, List.mem_append, h.shown, hlevel, or_assoc]
    refine or_congr_right ⟨?_, ?_⟩
    · rintro (⟨habove, hle⟩ | ⟨habove, heq⟩)
      · exact ⟨habove, by omega⟩
      · exact ⟨habove, by omega⟩
    · rintro ⟨habove, hle⟩
      by_cases heq : depth id = depth q + (k + 1)
      · exact .inr ⟨habove, heq⟩
      · exact .inl ⟨habove, by omega⟩
  · rw [List.map_append, List.mem_append, hnext, ClickHouse.mem_fresh_visited, h.visited]
    constructor
    · rintro (hold | ⟨c, hc, rfl⟩)
      · exact .inl hold
      · by_cases hold : c.taskId ∈ visited
        · exact .inl ((h.visited _).1 hold)
        · obtain ⟨c', hc', hid⟩ := ClickHouse.exists_fresh hc hold
          exact .inr (List.mem_map.2 ⟨c', hc', hid⟩)
    · refine Or.imp_right fun hmem => ?_
      obtain ⟨c, hc, rfl⟩ := List.mem_map.1 hmem
      exact ⟨c, (ClickHouse.mem_fresh hc).1, rfl⟩
  · rw [List.map_append, List.nodup_append]
    refine ⟨h.nodup, hnext ▸ ClickHouse.nodup_fresh _ _, fun a ha b hb hab => ?_⟩
    have hle := h.depth_le forest.layered ha
    have heq := ((hlevel b).1 hb).2
    rw [hab] at hle
    omega
  · rw [List.map_append, List.pairwise_append]
    refine ⟨h.sorted, List.pairwise_of_forall_mem_list fun a ha b hb => ?_, fun a ha b hb => ?_⟩
    · rw [((hlevel a).1 ha).2, ((hlevel b).1 hb).2]
    · have hle := h.depth_le forest.layered ha
      have heq := ((hlevel b).1 hb).2
      omega

/-- By induction on the levels that are left: all below `q` is shown in the end. -/
theorem walkDown_descending (forest : RetryForest ch tenantId taskName tasks parent depth) {n : Nat}
    (hq : tasks q) (h : Descending parent depth q k levelParents chain visited)
    (hdepth : ∀ id, depth id ≤ depth q + k + n) :
    ((ch.walkDown tenantId taskName n levelParents chain visited).map (·.taskId)).Nodup ∧
      (∀ id, id ∈ (ch.walkDown tenantId taskName n levelParents chain visited).map (·.taskId) ↔
        Above parent id q ∨ Above parent q id) ∧
      ((ch.walkDown tenantId taskName n levelParents chain visited).map (·.taskId)).Pairwise
        fun a b => depth a ≤ depth b := by
  induction n generalizing k levelParents chain visited with
  | zero =>
      refine ⟨h.nodup, fun id => (h.shown id).trans (or_congr_right ?_), h.sorted⟩
      exact ⟨fun hid => hid.1, fun hid => ⟨hid, hdepth id⟩⟩
  | succ n ih =>
      rw [ClickHouse.walkDown]
      split
      · rename_i hempty
        refine ⟨h.nodup, fun id => (h.shown id).trans (or_congr_right ?_), h.sorted⟩
        refine ⟨fun hid => hid.1, fun hid => ⟨hid, ?_⟩⟩
        -- a deeper task would have one above it on the level that is empty
        by_contra hdeep
        obtain ⟨x, hx, hlevel⟩ := hid.exists_at forest.layered
          (Nat.le_add_right (depth q) (k + 1)) (by omega)
        have hmem := (h.mem_fresh_iff forest hq).2 ⟨hx, hlevel⟩
        rw [List.isEmpty_iff.1 hempty] at hmem
        cases hmem
      · exact ih (h.step forest hq rfl) fun id => by
          have hle := hdepth id
          omega

/-! ### The chain -/

/-- The chain of a task has every task above and below it once, and none before one that is less
deep. -/
theorem getRetryChain_line (forest : RetryForest ch tenantId taskName tasks parent depth)
    (hq : tasks q) :
    ((ch.getRetryChain tenantId q).map (·.taskId)).Nodup ∧
      (∀ id, id ∈ (ch.getRetryChain tenantId q).map (·.taskId) ↔
        Above parent id q ∨ Above parent q id) ∧
      ((ch.getRetryChain tenantId q).map (·.taskId)).Pairwise fun a b => depth a ≤ depth b := by
  obtain ⟨current, hread, hid, hcurrent⟩ := forest.exists_latest hq
  subst hid
  have hstart : Climbing ch tenantId taskName parent current.taskId current [] [current.taskId] :=
    ⟨.singleton _, rfl, hcurrent, fun id => Iff.rfl⟩
  have hup := forest.walkUp_climbing hstart (forest.depth_le current.taskId)
  unfold ClickHouse.getRetryChain
  rw [hread]
  dsimp only
  rw [hcurrent.named]
  generalize ch.walkUp tenantId taskName ClickHouse.MAX_DEPTH current [] [current.taskId] = up at hup
  obtain ⟨hroot, hway⟩ := hup
  have habove : ∀ id, id ∈ (up.1 :: up.2.1.reverse).map (·.taskId) ↔ Above parent id current.taskId :=
    fun id => hway.way.mem_iff hroot hway.last
  have hleaf : ClickHouse.leafId up.1 up.2.1.reverse = current.taskId := by
    rw [ClickHouse.leafId_eq, ← hway.last]
    simp only [← List.map_cons, List.getLast_map]
  have hstrict := hway.way.pairwise forest.layered
  have hline : Descending parent depth current.taskId 0
      [ClickHouse.leafId up.1 up.2.1.reverse] (up.1 :: up.2.1.reverse) up.2.2 := {
    level := by
      intro id
      rw [hleaf, List.mem_singleton]
      constructor
      · rintro rfl
        exact ⟨.refl _, rfl⟩
      · exact fun h => (h.1.eq_of_depth forest.layered (by omega)).symm
    shown := by
      intro id
      rw [habove]
      refine ⟨.inl, fun h => h.elim (fun h => h) fun h => ?_⟩
      have hle := h.1.depth_le forest.layered
      exact h.1.eq_of_depth forest.layered (by omega) ▸ .refl _
    visited := hway.visited
    nodup := hstrict.imp (S := fun a b => a ≠ b) fun h heq => Nat.ne_of_lt h (congrArg depth heq)
    sorted := hstrict.imp Nat.le_of_lt }
  exact forest.walkDown_descending hq hline fun id => by
    have hle := forest.depth_le id
    omega

/-- **The chain of a task.** It has exactly the tasks of the tree, each once and none before its
parent, exactly if neither the task nor one above it has a sibling. -/
theorem getRetryChain_tree_iff (forest : RetryForest ch tenantId taskName tasks parent depth)
    (hq : tasks q) :
    (((ch.getRetryChain tenantId q).map (·.taskId)).Nodup ∧
        (∀ id, id ∈ (ch.getRetryChain tenantId q).map (·.taskId) ↔ SameTree parent q id) ∧
        ((ch.getRetryChain tenantId q).map (·.taskId)).Pairwise fun a b => parent a ≠ some b) ↔
      OnlyWay parent q := by
  obtain ⟨hnodup, hline, hsorted⟩ := forest.getRetryChain_line hq
  rw [← sameTree_line_iff forest.layered]
  constructor
  · rintro ⟨-, htree, -⟩ t ht
    exact (hline t).1 ((htree t).2 ht)
  · intro hall
    refine ⟨hnodup, fun id => (hline id).trans ⟨sameTree_of_line, hall id⟩, hsorted.imp ?_⟩
    intro a b hle hparent
    have hone := forest.layered _ _ hparent
    omega

end RetryForest

/-! ### Samples -/

/-- An event of the retry `id` of `parent`, at `t` milliseconds. -/
def retryEvent (id : String) (parent : Option String) (t : Int) : TaskEventRow :=
  { sampleEvent id t with state := "RETRY", eventType := "task-retried", parentId := parent }

/-- A task is retried once at most. -/
theorem onlyWay_of_nodup {links : List (String × String)} (h : (links.map (·.2)).Nodup)
    (q : String) : OnlyWay (fun id => links.lookup id) q := by
  intro c p _ hc s hs
  have hsame := List.inj_on_of_nodup_map h (Assoc.mem_of_lookup hs) (Assoc.mem_of_lookup hc) rfl
  exact congrArg Prod.fst hsame

/-- Retries that are listed with their parents. -/
theorem retryForest_of_links {events : List TaskEventRow}
    {h : ∀ event ∈ events, Tasks.IsI64 (millis event)} (ids : List String)
    (links : List (String × String)) {depth : String → Nat}
    (hids : ∀ id ∈ ids, id ≠ "" ∧ (sampleDb events h).eventsOf 7 id ≠ [])
    (hevents : ∀ event ∈ events, event.taskId ∈ ids ∧ event.taskName = "tasks.add" ∧
      event.parentId = links.lookup event.taskId)
    (hlinks : ∀ link ∈ links, link.1 ∈ ids ∧ link.2 ∈ ids ∧ depth link.1 = depth link.2 + 1)
    (hdepth : ∀ id, depth id ≤ 50) :
    RetryForest (sampleDb events h) 7 "tasks.add" (· ∈ ids) (fun id => links.lookup id) depth where
  taskId id hid := (hids id hid).1
  stored id hid := List.exists_mem_of_ne_nil _ (hids id hid).2
  named _ _ event hevent := (hevents event (ClickHouse.mem_eventsOf.1 hevent).1).2.1
  parentId id p hparent event hevent := by
    obtain ⟨hmem, -, htask⟩ := ClickHouse.mem_eventsOf.1 hevent
    rw [(hevents event hmem).2.2, htask, hparent]
  linked _ _ hparent :=
    have hlink := hlinks _ (Assoc.mem_of_lookup hparent)
    ⟨hlink.1, hlink.2.1⟩
  root id _ hparent event hevent p hp := by
    obtain ⟨hmem, -, htask⟩ := ClickHouse.mem_eventsOf.1 hevent
    rw [(hevents event hmem).2.2, htask, hparent] at hp
    cases hp
  other event hevent _ hother := absurd (hevents event hevent).1 hother
  layered _ _ hparent := (hlinks _ (Assoc.mem_of_lookup hparent)).2.2
  depth_le := hdepth

/-- `b` is a retry of `a`, and `c` of `b`. -/
def retriesInLine : ClickHouse :=
  sampleDb [retryEvent "a" none 1000, retryEvent "b" (some "a") 2000, retryEvent "c" (some "b") 3000]
    (by decide)

theorem retryForest_line : RetryForest retriesInLine 7 "tasks.add" (· ∈ ["a", "b", "c"])
    (fun id => [("b", "a"), ("c", "b")].lookup id)
    (fun id => if id = "a" then 0 else if id = "b" then 1 else 2) :=
  retryForest_of_links ["a", "b", "c"] [("b", "a"), ("c", "b")] (by decide) (by decide) (by decide)
    fun id => by
    split
    · decide
    · split <;> decide

theorem getRetryChain_tree_iff_sample :
    ((retriesInLine.getRetryChain 7 "b").map (·.taskId)).Nodup ∧
      (∀ id, id ∈ (retriesInLine.getRetryChain 7 "b").map (·.taskId) ↔
        SameTree (fun id => [("b", "a"), ("c", "b")].lookup id) "b" id) ∧
      ((retriesInLine.getRetryChain 7 "b").map (·.taskId)).Pairwise
        fun a b => [("b", "a"), ("c", "b")].lookup a ≠ some b :=
  (retryForest_line.getRetryChain_tree_iff (by decide)).2
    (onlyWay_of_nodup (by decide) "b")

/-- `b` and `c` are both retries of `a`. -/
def retriesOfOne : ClickHouse :=
  sampleDb [retryEvent "a" none 1000, retryEvent "b" (some "a") 2000, retryEvent "c" (some "a") 3000]
    (by decide)

theorem retryForest_ofOne : RetryForest retriesOfOne 7 "tasks.add" (· ∈ ["a", "b", "c"])
    (fun id => [("b", "a"), ("c", "a")].lookup id) (fun id => if id = "a" then 0 else 1) :=
  retryForest_of_links ["a", "b", "c"] [("b", "a"), ("c", "a")] (by decide) (by decide) (by decide)
    fun id => by
    split <;> decide

/-- The chain of the one does not have the other. -/
theorem chain_misses_sibling :
    RetryForest retriesOfOne 7 "tasks.add" (· ∈ ["a", "b", "c"])
        (fun id => [("b", "a"), ("c", "a")].lookup id) (fun id => if id = "a" then 0 else 1) ∧
      (retriesOfOne.getRetryChain 7 "b").map (·.taskId) = ["a", "b"] ∧
      (retriesOfOne.getRetryChain 7 "a").map (·.taskId) = ["a", "b", "c"] ∧
      SameTree (fun id => [("b", "a"), ("c", "a")].lookup id) "b" "c" :=
  ⟨retryForest_ofOne, by decide, by decide, "a", above_parent rfl, above_parent rfl⟩

end Feloxi.Views
