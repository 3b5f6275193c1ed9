import Feloxi.Views.TaskEvents

/-!
# Feloxi.Views.Merged

Tasks as they are merged from their events (`MERGED_TASK_SELECT` in
`crates/db/src/clickhouse/task_events.rs`): one by one, by workflow and by parent. Each of the
three queries selects other events of a task before it merges them.
-/

namespace Feloxi.Views

open Pipeline (TaskEventRow)
open Queries

/-! ### Merging -/

/-- `x != ''`. -/
def isText (s : String) : Bool := s != ""

/-- `x IS NOT NULL AND x != ''`. -/
def isId (id : Option String) : Bool := id.isSome && id != some ""

/-- `argMaxIf(x, ts, x != '')`. -/
def latestText (f : TaskEventRow → String) : List TaskEventRow → String :=
  argMaxIf millis f isText ""

/-- `argMaxIf(x, ts, x IS NOT NULL AND x != '')`. -/
def latestId (f : TaskEventRow → Option String) : List TaskEventRow → Option String :=
  argMaxIf millis f isId none

/-- `MERGED_TASK_SELECT`, of the events of one task; `any` takes the first value that it reads. -/
def mergedTask (events : List TaskEventRow) : Option TaskEventRow := do
  let first ← events.head?
  let last ← argMax millis events
  return {
    tenantId := first.tenantId
    eventId := last.eventId
    taskId := first.taskId
    taskName := latestText (·.taskName) events
    queue := latestText (·.queue) events
    workerId := latestText (·.workerId) events
    state := last.state
    eventType := last.eventType
    timestamp := last.timestamp
    args := latestText (·.args) events
    kwargs := latestText (·.kwargs) events
    result := latestText (·.result) events
    exception := latestText (·.exception) events
    traceback := latestText (·.traceback) events
    runtime := last.runtime
    retries := (events.map (·.retries)).foldr max 0
    rootId := latestId (·.rootId) events
    parentId := latestId (·.parentId) events
    groupId := latestId (·.groupId) events
    chordId := latestId (·.chordId) events
    agentId := first.agentId
    brokerType := latestText (·.brokerType) events }

/-- `SELECT {MERGED_TASK_SELECT} ... GROUP BY task_id`. -/
def mergedTasks (rows : List TaskEventRow) : List TaskEventRow :=
  (groupsBy (·.taskId) rows).filterMap mergedTask

/-- What a merged row says of the events that it is merged from. -/
structure IsMerge (events : List TaskEventRow) (row : TaskEventRow) : Prop where
  newest : ∃ last, argMax millis events = some last ∧ row.state = last.state ∧
    row.runtime = last.runtime ∧ row.timestamp = last.timestamp
  taskId : ∃ event ∈ events, row.taskId = event.taskId
  taskName : row.taskName = latestText (·.taskName) events
  args : row.args = latestText (·.args) events
  parentId : row.parentId = latestId (·.parentId) events
  groupId : row.groupId = latestId (·.groupId) events
  chordId : row.chordId = latestId (·.chordId) events

theorem exists_mergedTask {events : List TaskEventRow} {event : TaskEventRow}
    (h : event ∈ events) : ∃ row, mergedTask events = some row := by
  cases events with
  | nil => cases h
  | cons first rest =>
      cases hlast : argMax millis (first :: rest) with
      | none => cases argMax_eq_none.1 hlast
      | some last =>
          unfold mergedTask
          rw [hlast]
          exact ⟨_, rfl⟩

theorem isMerge_of_mergedTask {events : List TaskEventRow} {row : TaskEventRow}
    (h : mergedTask events = some row) : IsMerge events row := by
  unfold mergedTask at h
  obtain ⟨first, hfirst, h⟩ := Option.bind_eq_some_iff.1 h
  obtain ⟨last, hlast, h⟩ := Option.bind_eq_some_iff.1 h
  cases h
  exact {
    newest := ⟨last, hlast, rfl, rfl, rfl⟩
    taskId := ⟨first, List.mem_of_head? hfirst, rfl⟩
    taskName := rfl
    args := rfl
    parentId := rfl
    groupId := rfl
    chordId := rfl }

theorem mem_mergedTasks {rows : List TaskEventRow} {row : TaskEventRow} :
    row ∈ mergedTasks rows ↔
      mergedTask (rows.filter fun r => decide (r.taskId = row.taskId)) = some row := by
  rw [mergedTasks, List.mem_filterMap]
  constructor
  · rintro ⟨part, hpart, hrow⟩
    obtain ⟨r, -, rfl⟩ := mem_groupsBy.1 hpart
    obtain ⟨event, hevent, htask⟩ := (isMerge_of_mergedTask hrow).taskId
    rw [htask, of_decide_eq_true (List.mem_filter.1 hevent).2]
    exact hrow
  · intro hrow
    obtain ⟨event, hevent, htask⟩ := (isMerge_of_mergedTask hrow).taskId
    refine ⟨_, mem_groupsBy.2 ⟨event, List.mem_of_mem_filter hevent, rfl⟩, ?_⟩
    rwa [← htask]

/-! ### Queries -/

namespace ClickHouse

variable (ch : ClickHouse) (tenantId : Uuid)

def getTaskLatest (taskId : String) : Option TaskEventRow :=
  (mergedTasks (ch.taskEvents.filter fun row =>
    row.tenantId == tenantId && row.taskId == taskId)).head?

def getWorkflowTasks (rootId : String) : List TaskEventRow :=
  ch.oldestFirst.sort (mergedTasks (ch.taskEvents.filter fun row =>
    row.tenantId == tenantId && (row.rootId == some rootId || row.taskId == rootId)))

/-- `parent_id IN (..)`, then `HAVING task_name = ?`. -/
def getChildrenByParentIds (parentIds : List String) (taskName : String) : List TaskEventRow :=
  if parentIds.isEmpty then []
  else ch.oldestFirst.sort ((mergedTasks (ch.taskEvents.filter fun row =>
    row.tenantId == tenantId && row.parentId.any parentIds.contains)).filter
      (·.taskName == taskName))

/-! ### The events behind a row -/

/-- The events of a task. -/
def eventsOf (taskId : String) : List TaskEventRow :=
  ch.taskEvents.filter fun row => row.tenantId == tenantId && row.taskId == taskId

variable {ch tenantId}

theorem mem_eventsOf {taskId : String} {event : TaskEventRow} :
    event ∈ ch.eventsOf tenantId taskId ↔
      event ∈ ch.taskEvents ∧ event.tenantId = tenantId ∧ event.taskId = taskId := by
  rw [eventsOf, List.mem_filter, Bool.and_eq_true, beq_iff_eq, beq_iff_eq]

/-- A query that selects the events of a tenant that meet a condition. -/
theorem filter_taskId (cond : TaskEventRow → Bool) (taskId : String) :
    (ch.taskEvents.filter fun row => row.tenantId == tenantId && cond row).filter
        (fun r => decide (r.taskId = taskId)) =
      (ch.eventsOf tenantId taskId).filter cond := by
  rw [eventsOf, List.filter_filter, List.filter_filter]
  refine List.filter_congr fun row _ => ?_
  rw [Bool.eq_iff_iff]
  simp only [Bool.and_eq_true, decide_eq_true_eq, beq_iff_eq]
  exact ⟨fun h => ⟨h.2.2, h.2.1, h.1⟩, fun h => ⟨h.2.2, h.2.1, h.1⟩⟩

theorem getTaskLatest_eq (taskId : String) :
    ch.getTaskLatest tenantId taskId = mergedTask (ch.eventsOf tenantId taskId) := by
  have hmem : ∀ row, row ∈ mergedTasks (ch.eventsOf tenantId taskId) ↔
      mergedTask (ch.eventsOf tenantId taskId) = some row := by
    intro row
    have hall : ∀ id, (∃ event ∈ (ch.eventsOf tenantId taskId), id = event.taskId) →
        (ch.eventsOf tenantId taskId).filter (fun r => decide (r.taskId = id)) =
          ch.eventsOf tenantId taskId := by
      rintro id ⟨event, hevent, rfl⟩
      refine List.filter_eq_self.2 fun r hr => decide_eq_true ?_
      rw [(mem_eventsOf.1 hr).2.2, (mem_eventsOf.1 hevent).2.2]
    rw [mem_mergedTasks]
    constructor
    · intro h
      obtain ⟨event, hevent, htask⟩ := (isMerge_of_mergedTask h).taskId
      rwa [hall _ ⟨event, List.mem_of_mem_filter hevent, htask⟩] at h
    · intro h
      rwa [hall _ (isMerge_of_mergedTask h).taskId]
  rw [getTaskLatest, ← eventsOf]
  cases hmerged : mergedTask (ch.eventsOf tenantId taskId) with
  | none =>
      refine List.head?_eq_none_iff.2 (List.eq_nil_iff_forall_not_mem.2 fun row hrow => ?_)
      cases hmerged.symm.trans ((hmem row).1 hrow)
  | some row =>
      obtain ⟨head, tail, hlist⟩ := List.exists_cons_of_ne_nil
        (List.ne_nil_of_mem ((hmem row).2 hmerged))
      have hhead := (hmem head).1 (hlist ▸ List.mem_cons_self)
      rw [hlist, List.head?_cons, ← hhead, hmerged]

theorem mem_getWorkflowTasks {rootId : String} {row : TaskEventRow} :
    row ∈ ch.getWorkflowTasks tenantId rootId ↔
      mergedTask ((ch.eventsOf tenantId row.taskId).filter fun event =>
        event.rootId == some rootId || event.taskId == rootId) = some row := by
  rw [getWorkflowTasks, OrderBy.mem_sort, mem_mergedTasks, filter_taskId]

theorem mem_getChildrenByParentIds {parentIds : List String} {taskName : String}
    {row : TaskEventRow} :
    row ∈ ch.getChildrenByParentIds tenantId parentIds taskName ↔
      mergedTask ((ch.eventsOf tenantId row.taskId).filter fun event =>
        event.parentId.any parentIds.contains) = some row ∧ row.taskName = taskName := by
  unfold getChildrenByParentIds
  split
  · rename_i hempty
    obtain rfl := List.isEmpty_iff.1 hempty
    refine iff_of_false List.not_mem_nil fun h => ?_
    have hnil : (ch.eventsOf tenantId row.taskId).filter
        (fun event => event.parentId.any ([] : List String).contains) = [] := by
      refine List.filter_eq_nil_iff.2 fun event _ => ?_
      cases event.parentId <;> simp
    rw [hnil] at h
    cases h.1
  · rw [OrderBy.mem_sort, List.mem_filter, mem_mergedTasks, filter_taskId, beq_iff_eq]

end ClickHouse

end Feloxi.Views
