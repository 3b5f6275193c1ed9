import Feloxi.Views.Merged

/-!
# Feloxi.Views.RetryChain

The chain of retries of a task (`get_retry_chain` in `crates/db/src/clickhouse/task_events.rs`):
up from the task by `parent_id`, then down from the lowest task of the way up, level by level.
-/

namespace Feloxi.Views

open Pipeline (TaskEventRow)

namespace ClickHouse

variable (ch : ClickHouse) (tenantId : Uuid)

def MAX_DEPTH : Nat := 50

/-- The walk up: the root that is reached, the tasks below it from the bottom up, and
what was visited. -/
def walkUp (taskName : String) :
    Nat → TaskEventRow → List TaskEventRow → List String →
      TaskEventRow × List TaskEventRow × List String
  | 0, current, ancestors, visited => (current, ancestors, visited)
  | depth + 1, current, ancestors, visited =>
    match current.parentId with
    | none => (current, ancestors, visited)
    | some pid =>
      if pid = "" ∨ pid ∈ visited then (current, ancestors, visited)
      else
        match ch.getTaskLatest tenantId pid with
        | none => (current, ancestors, visited)
        | some p =>
          if p.taskName = taskName then
            walkUp taskName depth p (ancestors ++ [current]) (p.taskId :: visited)
          else (current, ancestors, visited)

/-- `filter(|c| visited.insert(..))`. -/
def fresh : List TaskEventRow → List String → List TaskEventRow × List String
  | [], visited => ([], visited)
  | c :: children, visited =>
    if c.taskId ∈ visited then fresh children visited
    else
      let rest := fresh children (c.taskId :: visited)
      (c :: rest.1, rest.2)

/-- The walk down, level by level. -/
def walkDown (taskName : String) :
    Nat → List String → List TaskEventRow → List String → List TaskEventRow
  | 0, _, chain, _ => chain
  | depth + 1, levelParents, chain, visited =>
    let next := fresh (ch.getChildrenByParentIds tenantId levelParents taskName) visited
    if next.1.isEmpty then chain
    else walkDown taskName depth (next.1.map (·.taskId)) (chain ++ next.1) next.2

/-- `ancestors.last().map_or(..)`. -/
def leafId (root : TaskEventRow) (ancestors : List TaskEventRow) : String :=
  (ancestors.getLast?.map (·.taskId)).getD root.taskId

def getRetryChain (taskId : String) : List TaskEventRow :=
  match ch.getTaskLatest tenantId taskId with
  | none => []
  | some current =>
    let taskName := current.taskName
    let up := ch.walkUp tenantId taskName MAX_DEPTH current [] [current.taskId]
    let ancestors := up.2.1.reverse
    ch.walkDown tenantId taskName MAX_DEPTH [leafId up.1 ancestors] (up.1 :: ancestors) up.2.2

/-! ### What the walks read -/

variable {ch tenantId}

theorem taskId_of_getTaskLatest {taskId : String} {row : TaskEventRow}
    (h : ch.getTaskLatest tenantId taskId = some row) : row.taskId = taskId := by
  rw [getTaskLatest_eq] at h
  obtain ⟨event, hevent, htask⟩ := (isMerge_of_mergedTask h).taskId
  rw [htask, (mem_eventsOf.1 hevent).2.2]

theorem mem_fresh {children : List TaskEventRow} {visited : List String} {c : TaskEventRow}
    (h : c ∈ (fresh children visited).1) : c ∈ children ∧ c.taskId ∉ visited := by
  induction children generalizing visited with
  | nil => cases h
  | cons d children ih =>
      rw [fresh] at h
      split at h
      · exact ⟨List.mem_cons_of_mem d (ih h).1, (ih h).2⟩
      · rename_i hd
        rcases List.mem_cons.1 h with rfl | h
        · exact ⟨List.mem_cons_self, hd⟩
        · exact ⟨List.mem_cons_of_mem d (ih h).1, fun hc => (ih h).2 (List.mem_cons_of_mem _ hc)⟩

theorem mem_fresh_visited {children : List TaskEventRow} {visited : List String} {id : String} :
    id ∈ (fresh children visited).2 ↔ id ∈ visited ∨ ∃ c ∈ children, c.taskId = id := by
  induction children generalizing visited with
  | nil => simp [fresh]
  | cons d children ih =>
      rw [fresh]
      split
      · rename_i hd
        rw [ih]
        constructor
        · rintro (h | ⟨c, hc, rfl⟩)
          · exact .inl h
          · exact .inr ⟨c, List.mem_cons_of_mem d hc, rfl⟩
        · rintro (h | ⟨c, hc, rfl⟩)
          · exact .inl h
          · rcases List.mem_cons.1 hc with rfl | hc
            · exact .inl hd
            · exact .inr ⟨c, hc, rfl⟩
      · simp only [ih, List.mem_cons]
        constructor
        · rintro ((rfl | h) | ⟨c, hc, rfl⟩)
          · exact .inr ⟨d, .inl rfl, rfl⟩
          · exact .inl h
          · exact .inr ⟨c, .inr hc, rfl⟩
        · rintro (h | ⟨c, rfl | hc, rfl⟩)
          · exact .inl (.inr h)
          · exact .inl (.inl rfl)
          · exact .inr ⟨c, hc, rfl⟩

/-- A task that was not visited is fresh, under its id. -/
theorem exists_fresh {children : List TaskEventRow} {visited : List String} {c : TaskEventRow}
    (hc : c ∈ children) (hnew : c.taskId ∉ visited) :
    ∃ c' ∈ (fresh children visited).1, c'.taskId = c.taskId := by
  induction children generalizing visited with
  | nil => cases hc
  | cons d children ih =>
      rw [fresh]
      split
      · rename_i hd
        rcases List.mem_cons.1 hc with rfl | hc
        · exact absurd hd hnew
        · exact ih hc hnew
      · by_cases hsame : d.taskId = c.taskId
        · exact ⟨d, List.mem_cons_self, hsame⟩
        · rcases List.mem_cons.1 hc with rfl | hc
          · exact absurd rfl hsame
          · obtain ⟨c', hc', hid⟩ := ih hc fun hmem => by
              rcases List.mem_cons.1 hmem with h | h
              · exact hsame h.symm
              · exact hnew h
            exact ⟨c', List.mem_cons_of_mem d hc', hid⟩

/-- The walk up ends at a row without a parent of the same name. -/
theorem walkUp_of_stop {taskName : String} {depth : Nat} {current : TaskEventRow}
    {ancestors : List TaskEventRow} {visited : List String}
    (h : ∀ pid, current.parentId = some pid → ∀ p, ch.getTaskLatest tenantId pid = some p →
      p.taskName ≠ taskName) :
    ch.walkUp tenantId taskName depth current ancestors visited = (current, ancestors, visited) := by
  cases depth with
  | zero => rfl
  | succ depth =>
      rw [walkUp]
      split
      · rfl
      · rename_i pid hpid
        split
        · rfl
        · split
          · rfl
          · rename_i p hp
            exact if_neg (h pid hpid p hp)

theorem walkUp_of_some {taskName : String} {depth : Nat} {current p : TaskEventRow}
    {ancestors : List TaskEventRow} {visited : List String} {pid : String}
    (h : current.parentId = some pid) (hpid : pid ≠ "") (hnew : pid ∉ visited)
    (hp : ch.getTaskLatest tenantId pid = some p) (hname : p.taskName = taskName) :
    ch.walkUp tenantId taskName (depth + 1) current ancestors visited =
      ch.walkUp tenantId taskName depth p (ancestors ++ [current]) (p.taskId :: visited) := by
  rw [walkUp, h]
  dsimp only
  rw [if_neg (not_or.2 ⟨hpid, hnew⟩), hp]
  exact if_pos hname

theorem nodup_fresh (children : List TaskEventRow) (visited : List String) :
    ((fresh children visited).1.map (·.taskId)).Nodup := by
  induction children generalizing visited with
  | nil => exact .nil
  | cons c children ih =>
      rw [fresh]
      split
      · exact ih visited
      · refine List.nodup_cons.2 ⟨fun hmem => ?_, ih _⟩
        obtain ⟨d, hd, hid⟩ := List.mem_map.1 hmem
        exact (mem_fresh hd).2 (hid ▸ List.mem_cons_self)

/-- What the walk up keeps: `P` of the rows, and that their ids are visited. -/
theorem walkUp_invariant {P : TaskEventRow → Prop}
    (hread : ∀ pid p, ch.getTaskLatest tenantId pid = some p → P p) (taskName : String)
    (depth : Nat) {current : TaskEventRow} {ancestors : List TaskEventRow} {visited : List String}
    (h : ∀ row ∈ current :: ancestors, P row ∧ row.taskId ∈ visited) :
    ∀ row ∈ (ch.walkUp tenantId taskName depth current ancestors visited).1 ::
        (ch.walkUp tenantId taskName depth current ancestors visited).2.1,
      P row ∧ row.taskId ∈ (ch.walkUp tenantId taskName depth current ancestors visited).2.2 := by
  induction depth generalizing current ancestors visited with
  | zero => exact h
  | succ depth ih =>
      rw [walkUp]
      split
      · exact h
      · split
        · exact h
        · split
          · exact h
          · rename_i p hp
            split
            · refine ih fun row hrow => ?_
              rcases List.mem_cons.1 hrow with rfl | hrow
              · exact ⟨hread _ _ hp, List.mem_cons_self⟩
              · have hold : row ∈ current :: ancestors := by
                  rcases List.mem_append.1 hrow with hrow | hrow
                  · exact List.mem_cons_of_mem _ hrow
                  · exact List.mem_singleton.1 hrow ▸ List.mem_cons_self
                exact ⟨(h row hold).1, List.mem_cons_of_mem _ (h row hold).2⟩
            · exact h

/-- The walk down adds to the chain. -/
theorem mem_walkDown_of_mem {taskName : String} {depth : Nat} {levelParents : List String}
    {chain : List TaskEventRow} {visited : List String} {row : TaskEventRow} (h : row ∈ chain) :
    row ∈ ch.walkDown tenantId taskName depth levelParents chain visited := by
  induction depth generalizing levelParents chain visited with
  | zero => exact h
  | succ depth ih =>
      rw [walkDown]
      split
      · exact h
      · exact ih (List.mem_append_left _ h)

/-- The children of the first level are added, unless they were visited. -/
theorem mem_walkDown_of_child {taskName : String} {depth : Nat} {levelParents : List String}
    {chain : List TaskEventRow} {visited : List String} {row : TaskEventRow}
    (h : row ∈ ch.getChildrenByParentIds tenantId levelParents taskName)
    (hnew : row.taskId ∉ visited) :
    row ∈ ch.walkDown tenantId taskName (depth + 1) levelParents chain visited := by
  obtain ⟨c, hc, hid⟩ := exists_fresh h hnew
  have hsame : c = row := by
    have hchild := (mem_getChildrenByParentIds.1 (mem_fresh hc).1).1
    rw [hid, (mem_getChildrenByParentIds.1 h).1] at hchild
    exact (Option.some.inj hchild).symm
  subst hsame
  rw [walkDown]
  split
  · rename_i hempty
    rw [List.isEmpty_iff.1 hempty] at hc
    cases hc
  · exact mem_walkDown_of_mem (List.mem_append_right _ hc)

/-- It adds children of tasks other than themselves, if the parents it starts from are visited. -/
theorem mem_walkDown {taskName : String} {depth : Nat} {levelParents : List String}
    {chain : List TaskEventRow} {visited : List String} (hlevel : ∀ id ∈ levelParents, id ∈ visited)
    {row : TaskEventRow}
    (h : row ∈ ch.walkDown tenantId taskName depth levelParents chain visited) :
    row ∈ chain ∨ ∃ parents, row.taskId ∉ parents ∧
      row ∈ ch.getChildrenByParentIds tenantId parents taskName := by
  induction depth generalizing levelParents chain visited with
  | zero => exact .inl h
  | succ depth ih =>
      rw [walkDown] at h
      split at h
      · exact .inl h
      · refine Or.elim (ih (fun id hid => ?_) h) (fun h => ?_) .inr
        · obtain ⟨c, hc, rfl⟩ := List.mem_map.1 hid
          exact mem_fresh_visited.2 (.inr ⟨c, (mem_fresh hc).1, rfl⟩)
        · rcases List.mem_append.1 h with h | h
          · exact .inl h
          · obtain ⟨hchild, hnew⟩ := mem_fresh h
            exact .inr ⟨levelParents, fun hmem => hnew (hlevel _ hmem), hchild⟩

theorem leafId_eq (root : TaskEventRow) (ancestors : List TaskEventRow) :
    leafId root ancestors =
      ((root :: ancestors).getLast (List.cons_ne_nil root ancestors)).taskId := by
  unfold leafId
  cases ancestors using List.reverseRecOn with
  | nil => rfl
  | append_singleton ancestors last => simp

/-- Every row of a chain is the latest row of its task, or merged from the events that carry
some parents other than the task itself. -/
theorem mem_getRetryChain {taskId : String} {row : TaskEventRow}
    (h : row ∈ ch.getRetryChain tenantId taskId) :
    ch.getTaskLatest tenantId row.taskId = some row ∨
      ∃ parents taskName, row.taskId ∉ parents ∧
        row ∈ ch.getChildrenByParentIds tenantId parents taskName := by
  unfold getRetryChain at h
  split at h
  · cases h
  · rename_i current hcurrent
    have hread : ∀ pid p, ch.getTaskLatest tenantId pid = some p →
        ch.getTaskLatest tenantId p.taskId = some p := by
      intro pid p hp
      rwa [taskId_of_getTaskLatest hp]
    have hstart : ∀ row ∈ [current],
        ch.getTaskLatest tenantId row.taskId = some row ∧ row.taskId ∈ [current.taskId] := by
      intro row hrow
      obtain rfl := List.mem_singleton.1 hrow
      exact ⟨hread _ _ hcurrent, List.mem_cons_self⟩
    have hup := walkUp_invariant hread current.taskName MAX_DEPTH hstart
    dsimp only at h
    generalize ch.walkUp tenantId current.taskName MAX_DEPTH current [] [current.taskId] = up
      at h hup
    have hrows : ∀ row ∈ up.1 :: up.2.1.reverse,
        ch.getTaskLatest tenantId row.taskId = some row ∧ row.taskId ∈ up.2.2 := by
      intro row hrow
      refine hup row ?_
      rwa [List.mem_cons, List.mem_reverse, ← List.mem_cons] at hrow
    have hleaf : ∀ id ∈ [leafId up.1 up.2.1.reverse], id ∈ up.2.2 := by
      intro id hid
      rw [List.mem_singleton.1 hid, leafId_eq]
      exact (hrows _ (List.getLast_mem _)).2
    rcases mem_walkDown hleaf h with hchain | ⟨parents, hparents, hchild⟩
    · exact .inl (hrows row hchain).1
    · exact .inr ⟨parents, current.taskName, hparents, hchild⟩

end ClickHouse

end Feloxi.Views
