import Feloxi.Views.TaskList
import Feloxi.Views.Workflow

/-!
# Feloxi.Views.WorkflowRoot

The root that is shown of a workflow. `build_dag` takes the first of its tasks, and
`get_workflow_tasks` has them by their newest events.
-/

namespace Feloxi.Views

open Auth (CurrentUser checkPermission)
open Pipeline (TaskEventRow)
open Queries

/-! ### Newest events -/

theorem IsMerge.millis_mem {events : List TaskEventRow} {row : TaskEventRow}
    (h : IsMerge events row) : ∃ event ∈ events, millis event = millis row := by
  obtain ⟨last, hlast, -, -, htime⟩ := h.newest
  exact ⟨last, argMax_mem hlast, by rw [millis, millis, htime]⟩

theorem IsMerge.millis_le {events : List TaskEventRow} {row event : TaskEventRow}
    (h : IsMerge events row) (hevent : event ∈ events) : millis event ≤ millis row := by
  obtain ⟨last, hlast, -, -, htime⟩ := h.newest
  have hle := le_of_argMax hlast hevent
  rwa [millis, millis, htime]

namespace ClickHouse

variable {ch : ClickHouse} {tenantId : Uuid} {rootId : String}

/-! ### The tasks of a workflow -/

/-- The events that a task of the workflow is merged from. -/
def workflowEvents (ch : ClickHouse) (tenantId : Uuid) (rootId taskId : String) :
    List TaskEventRow :=
  (ch.eventsOf tenantId taskId).filter fun event =>
    event.rootId == some rootId || event.taskId == rootId

theorem isMerge_of_mem_workflow {row : TaskEventRow}
    (h : row ∈ ch.getWorkflowTasks tenantId rootId) :
    IsMerge (ch.workflowEvents tenantId rootId row.taskId) row :=
  isMerge_of_mergedTask (mem_getWorkflowTasks.1 h)

theorem exists_workflow_row {taskId : String} {event : TaskEventRow}
    (h : event ∈ ch.workflowEvents tenantId rootId taskId) :
    ∃ row ∈ ch.getWorkflowTasks tenantId rootId, row.taskId = taskId := by
  obtain ⟨row, hrow⟩ := exists_mergedTask h
  obtain ⟨first, hfirst, htask⟩ := (isMerge_of_mergedTask hrow).taskId
  have hid : row.taskId = taskId :=
    htask.trans (mem_eventsOf.1 (List.mem_of_mem_filter hfirst)).2.2
  exact ⟨row, mem_getWorkflowTasks.2 (by rwa [hid]), hid⟩

/-- All events of the root are its events in the workflow. -/
theorem workflowEvents_root :
    ch.workflowEvents tenantId rootId rootId = ch.eventsOf tenantId rootId := by
  refine List.filter_eq_self.2 fun event hevent => ?_
  simp [(mem_eventsOf.1 hevent).2.2]

/-! ### The first task -/

theorem getWorkflow_rootId {user : CurrentUser} (order : HashOrder)
    (hpermit : checkPermission user "tasks_read" = .ok ()) {first : TaskEventRow}
    {rest : List TaskEventRow} (h : ch.getWorkflowTasks user.tenantId rootId = first :: rest) :
    ∃ dag, ch.getWorkflow order user rootId = .ok dag ∧ dag.rootId = first.taskId := by
  rw [getWorkflow, hpermit]
  simp only [h]
  exact ⟨_, rfl, rfl⟩

theorem first_le_getWorkflowTasks {first : TaskEventRow} {rest : List TaskEventRow}
    (h : ch.getWorkflowTasks tenantId rootId = first :: rest) {row : TaskEventRow}
    (hrow : row ∈ ch.getWorkflowTasks tenantId rootId) : millis first ≤ millis row := by
  have hsorted : (ch.getWorkflowTasks tenantId rootId).Pairwise fun a b => millis a ≤ millis b :=
    ch.oldestFirst.sorted _
  rw [h] at hsorted hrow
  rcases List.mem_cons.1 hrow with rfl | hrow
  · exact Int.le_refl _
  · exact List.rel_of_pairwise_cons hsorted hrow

/-- Every other task of the workflow has an event in it that is later than those of the root. -/
def RootOldest (ch : ClickHouse) (tenantId : Uuid) (rootId : String) : Prop :=
  ∀ event ∈ ch.taskEvents, event.tenantId = tenantId → event.rootId = some rootId →
    event.taskId ≠ rootId → ∃ later ∈ ch.taskEvents, later.tenantId = tenantId ∧
      later.rootId = some rootId ∧ later.taskId = event.taskId ∧
        ∀ own ∈ ch.eventsOf tenantId rootId, millis own < millis later

theorem mem_workflowEvents {taskId : String} (hne : taskId ≠ rootId) {event : TaskEventRow} :
    event ∈ ch.workflowEvents tenantId rootId taskId ↔ event ∈ ch.taskEvents ∧
      event.tenantId = tenantId ∧ event.taskId = taskId ∧ event.rootId = some rootId := by
  rw [workflowEvents, List.mem_filter, mem_eventsOf, Bool.or_eq_true, beq_iff_eq, beq_iff_eq]
  constructor
  · intro h
    obtain ⟨⟨hmem, htenant, htask⟩, hroot | hroot⟩ := h
    · exact ⟨hmem, htenant, htask, hroot⟩
    · exact absurd (htask.symm.trans hroot) hne
  · intro h
    exact ⟨⟨h.1, h.2.1, h.2.2.1⟩, .inl h.2.2.2⟩

/-- In terms of the rows of the tasks. -/
theorem rootOldest_iff {root : TaskEventRow} (hroot : root ∈ ch.getWorkflowTasks tenantId rootId)
    (hid : root.taskId = rootId) : ch.RootOldest tenantId rootId ↔
      ∀ row ∈ ch.getWorkflowTasks tenantId rootId, row.taskId ≠ rootId →
        millis root < millis row := by
  have hown := isMerge_of_mem_workflow hroot
  rw [hid, workflowEvents_root] at hown
  obtain ⟨newest, hnewest, htime⟩ := hown.millis_mem
  constructor
  · intro h row hrow hne
    have hmerge := isMerge_of_mem_workflow hrow
    obtain ⟨event, hevent, -⟩ := hmerge.millis_mem
    obtain ⟨hmem, htenant, htask, hmember⟩ := (mem_workflowEvents hne).1 hevent
    obtain ⟨later, hlater, htenant', hmember', htask', hlt⟩ :=
      h event hmem htenant hmember (htask ▸ hne)
    have hle := hmerge.millis_le
      ((mem_workflowEvents hne).2 ⟨hlater, htenant', htask'.trans htask, hmember'⟩)
    have := hlt newest hnewest
    omega
  · intro h event hevent htenant hmember hne
    obtain ⟨row, hrow, htask⟩ :=
      exists_workflow_row ((mem_workflowEvents hne).2 ⟨hevent, htenant, rfl, hmember⟩)
    have hne' : row.taskId ≠ rootId := htask ▸ hne
    obtain ⟨later, hlater, htime'⟩ := (isMerge_of_mem_workflow hrow).millis_mem
    obtain ⟨hmem, htenant', htask', hmember'⟩ := (mem_workflowEvents hne').1 hlater
    refine ⟨later, hmem, htenant', hmember', htask'.trans htask, fun own hmine => ?_⟩
    have hle := hown.millis_le hmine
    have hlt := h row hrow hne'
    omega

/-- **Roots.** The root that is asked for is shown as the root, in whatever order rows of one
millisecond come, exactly if every other task of the workflow has a later event than it. -/
theorem workflow_root_iff (ch : ClickHouse) (user : CurrentUser)
    (hpermit : checkPermission user "tasks_read" = .ok ()) (rootId : String)
    (hevent : ∃ event ∈ ch.taskEvents, event.tenantId = user.tenantId ∧ event.taskId = rootId) :
    (∀ (ties : OrderBy millis) (order : HashOrder) (dag : WorkflowDag),
        ({ ch with oldestFirst := ties } : ClickHouse).getWorkflow order user rootId = .ok dag →
          dag.rootId = rootId) ↔
      ch.RootOldest user.tenantId rootId := by
  obtain ⟨event, hevent⟩ := hevent
  have hexists : ∀ ties : OrderBy millis,
      ∃ root ∈ ({ ch with oldestFirst := ties } : ClickHouse).getWorkflowTasks user.tenantId rootId,
        root.taskId = rootId := by
    intro ties
    have hmine : event ∈ ({ ch with oldestFirst := ties } : ClickHouse).workflowEvents
        user.tenantId rootId rootId := by
      rw [workflowEvents_root]
      exact mem_eventsOf.2 hevent
    exact exists_workflow_row hmine
  constructor
  · intro h
    -- the root comes behind the other rows of its millisecond
    let behind := OrderBy.behind (fun row : TaskEventRow => row.taskId == rootId) millis
    let ch' : ClickHouse := { ch with oldestFirst := behind }
    obtain ⟨root, hroot, -⟩ := hexists behind
    obtain ⟨first, rest, hrows⟩ := List.exists_cons_of_ne_nil (List.ne_nil_of_mem hroot)
    obtain ⟨dag, hdag, hfirst⟩ := getWorkflow_rootId insertionOrder hpermit hrows
    have hid : first.taskId = rootId := hfirst.symm.trans (h behind insertionOrder dag hdag)
    have hmem : first ∈ ch'.getWorkflowTasks user.tenantId rootId := hrows ▸ List.mem_cons_self
    have hpairs : (ch'.getWorkflowTasks user.tenantId rootId).Pairwise fun a b =>
        millis a = millis b → (a.taskId == rootId) = true → (b.taskId == rootId) = true :=
      OrderBy.pairwise_behind _ _ _
    refine (rootOldest_iff hmem hid).2 fun row hrow hne => ?_
    have hle := first_le_getWorkflowTasks hrows hrow
    have hrest : row ∈ rest := by
      rw [hrows] at hrow
      exact (List.mem_cons.1 hrow).resolve_left fun heq => hne (heq ▸ hid)
    rw [hrows] at hpairs
    have hlast := List.rel_of_pairwise_cons hpairs hrest
    refine Int.lt_iff_le_and_ne.2 ⟨hle, fun heq => hne ?_⟩
    exact eq_of_beq (hlast heq (by simp [hid]))
  · intro h ties order dag hdag
    obtain ⟨root, hroot, hid⟩ := hexists ties
    have hlater := (rootOldest_iff hroot hid).1 h
    obtain ⟨first, rest, hrows⟩ := List.exists_cons_of_ne_nil (List.ne_nil_of_mem hroot)
    obtain ⟨dag', hdag', hfirst⟩ := getWorkflow_rootId order hpermit hrows
    obtain rfl := Except.ok.inj (hdag.symm.trans hdag')
    by_contra hne
    have hle := first_le_getWorkflowTasks hrows hroot
    have hlt := hlater first (hrows ▸ List.mem_cons_self) (hfirst ▸ hne)
    omega

end ClickHouse

/-- The root was sent before its child and is done before it. -/
def rootFirst : ClickHouse :=
  sampleDb [sampleEvent "r" 1000, { sampleEvent "c" 2000 with rootId := some "r" }] (by decide)

theorem workflow_root_iff_sample :
    (∀ (ties : OrderBy millis) (order : HashOrder) (dag : WorkflowDag),
        ({ rootFirst with oldestFirst := ties } : ClickHouse).getWorkflow order sampleUser "r" =
          .ok dag → dag.rootId = "r") ↔ rootFirst.RootOldest sampleUser.tenantId "r" :=
  ClickHouse.workflow_root_iff rootFirst sampleUser rfl "r" (by decide)

/-- The root is done behind its child. -/
def rootLast : ClickHouse :=
  sampleDb [{ sampleEvent "r" 1000 with state := "STARTED", eventType := "task-started" },
    { sampleEvent "c" 2000 with rootId := some "r" }, sampleEvent "r" 3000] (by decide)

theorem child_shown_as_root :
    (∃ event ∈ rootLast.taskEvents,
        event.tenantId = sampleUser.tenantId ∧ event.taskId = "r") ∧
      (rootLast.getWorkflow insertionOrder sampleUser "r").map (·.rootId) = .ok "c" := by decide

end Feloxi.Views
