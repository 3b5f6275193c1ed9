import Feloxi.Auth.Rbac
import Feloxi.Views.Dag
import Feloxi.Views.Merged

/-!
# Feloxi.Views.Workflow

The graph that is shown of a workflow (`get_workflow` in `crates/api/src/routes/workflows.rs`):
that of its merged tasks, which have distinct ids.
-/

namespace Feloxi.Views

open Acyclic
open Auth (CurrentUser checkPermission)
open Pipeline (TaskEventRow)
open Queries

/-- The node of a merged row. -/
def dagNode (e : TaskEventRow) : DagNode :=
  { taskId := e.taskId, taskName := e.taskName, state := e.state,
    runtime := if e.runtime.gt .zero then some e.runtime else none, queue := e.queue,
    workerId := e.workerId, groupId := e.groupId, parentId := e.parentId, chordId := e.chordId }

def ClickHouse.getWorkflow (ch : ClickHouse) (order : HashOrder) (user : CurrentUser)
    (rootId : String) : Except AppError WorkflowDag :=
  match checkPermission user "tasks_read" with
  | .error e => .error e
  | .ok () =>
    let events := ch.getWorkflowTasks user.tenantId rootId
    if events.isEmpty then .error (.notFound s!"Workflow {rootId} not found")
    else .ok (buildDag order (events.map dagNode))

/-- One row for each task. -/
theorem nodup_mergedTasks (rows : List TaskEventRow) :
    ((mergedTasks rows).map (·.taskId)).Nodup := by
  have hrow : ∀ id, ∀ row ∈ mergedTask (rows.filter fun r => decide (r.taskId = id)),
      row.taskId = id := by
    intro id row hrow
    obtain ⟨event, hevent, htask⟩ := (isMerge_of_mergedTask hrow).taskId
    exact htask.trans (of_decide_eq_true (List.mem_filter.1 hevent).2)
  have hids := List.nodup_dedup (rows.map (·.taskId))
  unfold mergedTasks groupsBy
  generalize (rows.map (·.taskId)).dedup = ids at hids
  induction ids with
  | nil => exact .nil
  | cons id ids ih =>
      obtain ⟨hnew, hrest⟩ := List.nodup_cons.1 hids
      rw [List.map_cons, List.filterMap_cons]
      split
      · exact ih hrest
      · rename_i row hmerged
        rw [List.map_cons, List.nodup_cons]
        refine ⟨fun hmem => hnew ?_, ih hrest⟩
        obtain ⟨row', hrow', htask⟩ := List.mem_map.1 hmem
        obtain ⟨part, hpart, hmerged'⟩ := List.mem_filterMap.1 hrow'
        obtain ⟨id', hid', rfl⟩ := List.mem_map.1 hpart
        rwa [← hrow id row hmerged, ← htask, hrow id' row' hmerged']

theorem getWorkflow_acyclic_iff {ch : ClickHouse} {order : HashOrder} {user : CurrentUser}
    {rootId : String} {dag : WorkflowDag} (h : ch.getWorkflow order user rootId = .ok dag) :
    IsAcyclic (Linked dag.edges) ↔ ∃ rank, Ranked dag.nodes rank := by
  unfold ClickHouse.getWorkflow at h
  split at h
  · cases h
  · dsimp only at h
    split at h
    · cases h
    · rename_i hsome
      cases h
      have hids : (((ch.getWorkflowTasks user.tenantId rootId).map dagNode).map (·.taskId)).Nodup := by
        rw [List.map_map]
        exact ((ch.oldestFirst.perm _).map _).nodup_iff.2 (nodup_mergedTasks _)
      have hnodes : (buildDag order ((ch.getWorkflowTasks user.tenantId rootId).map dagNode)).nodes =
          (ch.getWorkflowTasks user.tenantId rootId).map dagNode := by
        cases (ch.getWorkflowTasks user.tenantId rootId).map dagNode <;> rfl
      rw [hnodes]
      exact buildDag_acyclic_iff order hids

end Feloxi.Views
