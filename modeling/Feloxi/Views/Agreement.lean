import Feloxi.Views.RetryChain
import Feloxi.Views.TaskList

/-!
# Feloxi.Views.Agreement

When the rows of a workflow and of a chain of retries are those of the tasks themselves. Both
queries leave out the events of a task that do not carry the id they look for, and merge the rest.
-/

namespace Feloxi.Views

open Pipeline (TaskEventRow)
open Queries
open Tasks (IsI64)

/-! ### Part of the events -/

/-- The fields in which two views of a task are compared. -/
structure SameView (row row' : TaskEventRow) : Prop where
  state : row.state = row'.state
  runtime : row.runtime = row'.runtime
  parentId : row.parentId = row'.parentId
  groupId : row.groupId = row'.groupId
  chordId : row.chordId = row'.chordId
  args : row.args = row'.args
  timestamp : row.timestamp = row'.timestamp

theorem SameView.refl (row : TaskEventRow) : SameView row row := ⟨rfl, rfl, rfl, rfl, rfl, rfl, rfl⟩

/-- The newest event with a value has the same value in `part` as in all events. -/
def KeepsNewest {β : Type} (f : TaskEventRow → β) (cond : β → Bool)
    (part events : List TaskEventRow) : Prop :=
  ∀ event, IsGreatest millis (fun e => cond (f e)) events event →
    ∃ event', IsGreatest millis (fun e => cond (f e)) part event' ∧ f event' = f event

/-- `part` has the newest of the events, and keeps their newest values. -/
structure Represents (part events : List TaskEventRow) : Prop where
  newest : ∃ last ∈ part, ∀ event ∈ events, millis event ≤ millis last
  args : KeepsNewest (·.args) isText part events
  parentId : KeepsNewest (·.parentId) isId part events
  groupId : KeepsNewest (·.groupId) isId part events
  chordId : KeepsNewest (·.chordId) isId part events

theorem latestText_eq_iff {f : TaskEventRow → String} {part events : List TaskEventRow}
    (hdistinct : (events.map millis).Nodup) (hpart : part.Sublist events) :
    latestText f part = latestText f events ↔ KeepsNewest f isText part events :=
  argMaxIf_eq_iff hdistinct hpart rfl

theorem latestId_eq_iff {f : TaskEventRow → Option String} {part events : List TaskEventRow}
    (hdistinct : (events.map millis).Nodup) (hpart : part.Sublist events) :
    latestId f part = latestId f events ↔ KeepsNewest f isId part events :=
  argMaxIf_eq_iff hdistinct hpart rfl

/-- Merging some of the events of a task is merging all of them. -/
theorem sameView_iff {part events : List TaskEventRow} (hdistinct : (events.map millis).Nodup)
    (hpart : part.Sublist events) {row row' : TaskEventRow} (hrow : mergedTask part = some row)
    (hrow' : mergedTask events = some row') : SameView row row' ↔ Represents part events := by
  have h := isMerge_of_mergedTask hrow
  have h' := isMerge_of_mergedTask hrow'
  obtain ⟨last, hlast, hstate, hruntime, htime⟩ := h.newest
  obtain ⟨last', hlast', hstate', hruntime', htime'⟩ := h'.newest
  rw [argMax_eq_some_iff_of_nodup hdistinct] at hlast'
  rw [argMax_eq_some_iff_of_nodup (hdistinct.sublist (hpart.map millis))] at hlast
  constructor
  · intro hsame
    have hmillis : millis last = millis last' := by
      rw [millis, millis, ← htime, ← htime', hsame.timestamp]
    exact {
      newest := ⟨last, hlast.1, fun event hevent => hmillis ▸ hlast'.2 event hevent⟩
      args := (latestText_eq_iff hdistinct hpart).1 (by rw [← h.args, ← h'.args, hsame.args])
      parentId := (latestId_eq_iff hdistinct hpart).1
        (by rw [← h.parentId, ← h'.parentId, hsame.parentId])
      groupId := (latestId_eq_iff hdistinct hpart).1
        (by rw [← h.groupId, ← h'.groupId, hsame.groupId])
      chordId := (latestId_eq_iff hdistinct hpart).1
        (by rw [← h.chordId, ← h'.chordId, hsame.chordId]) }
  · intro hrep
    obtain ⟨newest, hmem, hnewest⟩ := hrep.newest
    have hsame : last = last' := by
      refine List.inj_on_of_nodup_map hdistinct (hpart.subset hlast.1) hlast'.1 ?_
      have hle := hnewest last' hlast'.1
      have hge := hlast.2 newest hmem
      exact Int.le_antisymm (hlast'.2 last (hpart.subset hlast.1)) (Int.le_trans hle hge)
    subst hsame
    exact {
      state := hstate.trans hstate'.symm
      runtime := hruntime.trans hruntime'.symm
      timestamp := htime.trans htime'.symm
      args := by rw [h.args, h'.args, (latestText_eq_iff hdistinct hpart).2 hrep.args]
      parentId := by
        rw [h.parentId, h'.parentId, (latestId_eq_iff hdistinct hpart).2 hrep.parentId]
      groupId := by rw [h.groupId, h'.groupId, (latestId_eq_iff hdistinct hpart).2 hrep.groupId]
      chordId := by rw [h.chordId, h'.chordId, (latestId_eq_iff hdistinct hpart).2 hrep.chordId] }

/-! ### The views of a task -/

/-- The events that carry an id in a column. -/
def carriers (column : TaskEventRow → Option String) (id : String) (events : List TaskEventRow) :
    List TaskEventRow :=
  events.filter fun event => column event == some id

/-- For every id but the task's own, the events that carry it represent all of the task, if there
are any. -/
def EachRepresents (column : TaskEventRow → Option String) (taskId : String)
    (events : List TaskEventRow) : Prop :=
  ∀ id ≠ taskId, (∃ event ∈ events, column event = some id) →
    Represents (carriers column id events) events

theorem mem_carriers {column : TaskEventRow → Option String} {id : String}
    {events : List TaskEventRow} {event : TaskEventRow} :
    event ∈ carriers column id events ↔ event ∈ events ∧ column event = some id := by
  rw [carriers, List.mem_filter, beq_iff_eq]

/-- So all these events carry the same id. -/
theorem EachRepresents.same {column : TaskEventRow → Option String} {taskId : String}
    {events : List TaskEventRow} (h : EachRepresents column taskId events)
    (hdistinct : (events.map millis).Nodup) {event event' : TaskEventRow} (he : event ∈ events)
    (he' : event' ∈ events) {id id' : String} (hid : column event = some id)
    (hid' : column event' = some id') (hne : id ≠ taskId) (hne' : id' ≠ taskId) : id = id' := by
  obtain ⟨last, hlast, hnewest⟩ := (h id hne ⟨event, he, hid⟩).newest
  obtain ⟨last', hlast', hnewest'⟩ := (h id' hne' ⟨event', he', hid'⟩).newest
  rw [mem_carriers] at hlast hlast'
  have hsame : last = last' := List.inj_on_of_nodup_map hdistinct hlast.1 hlast'.1
    (Int.le_antisymm (hnewest' last hlast.1) (hnewest last' hlast'.1))
  subst hsame
  exact Option.some.inj (hlast.2.symm.trans hlast'.2)

/-- Nothing is left out if all events carry the same id. -/
theorem eachRepresents_of_forall_eq {column : TaskEventRow → Option String}
    {events : List TaskEventRow} {id : Option String} (h : ∀ event ∈ events, column event = id)
    (taskId : String) : EachRepresents column taskId events := by
  rintro id' - ⟨event, hevent, hid⟩
  have hall : carriers column id' events = events := by
    refine List.filter_eq_self.2 fun e he => ?_
    rw [beq_iff_eq, h e he, ← h event hevent, hid]
  rw [hall]
  refine ⟨?_, fun m hm => ⟨m, hm, rfl⟩, fun m hm => ⟨m, hm, rfl⟩, fun m hm => ⟨m, hm, rfl⟩,
    fun m hm => ⟨m, hm, rfl⟩⟩
  cases hlast : argMax millis events with
  | none => exact absurd hevent (argMax_eq_none.1 hlast ▸ List.not_mem_nil)
  | some last => exact ⟨last, argMax_mem hlast, fun e he => le_of_argMax hlast he⟩

namespace ClickHouse

variable {ch : ClickHouse} {tenantId : Uuid} {taskId : String}

/-- No two events of a task have the same timestamp. -/
def DistinctTimes (ch : ClickHouse) : Prop :=
  ∀ tenantId taskId, ((ch.eventsOf tenantId taskId).map millis).Nodup

/-- A row that is merged from some events of its task. -/
theorem sameView_latest (hdistinct : ch.DistinctTimes) {cond : TaskEventRow → Bool}
    {row : TaskEventRow} (hrow : mergedTask ((ch.eventsOf tenantId taskId).filter cond) = some row) :
    ∃ latest, ch.getTaskLatest tenantId taskId = some latest ∧
      (SameView row latest ↔
        Represents ((ch.eventsOf tenantId taskId).filter cond) (ch.eventsOf tenantId taskId)) := by
  obtain ⟨event, hevent, -⟩ := (isMerge_of_mergedTask hrow).taskId
  obtain ⟨latest, hlatest⟩ := exists_mergedTask (List.mem_of_mem_filter hevent)
  rw [← getTaskLatest_eq] at hlatest
  refine ⟨latest, hlatest, ?_⟩
  rw [getTaskLatest_eq] at hlatest
  exact sameView_iff (hdistinct tenantId taskId) List.filter_sublist hrow hlatest

theorem represents_of_sameView (hdistinct : ch.DistinctTimes) {cond : TaskEventRow → Bool}
    {row : TaskEventRow} (hrow : mergedTask ((ch.eventsOf tenantId taskId).filter cond) = some row)
    (h : ∃ latest, ch.getTaskLatest tenantId taskId = some latest ∧ SameView row latest) :
    Represents ((ch.eventsOf tenantId taskId).filter cond) (ch.eventsOf tenantId taskId) := by
  obtain ⟨latest, hlatest, hsame⟩ := h
  obtain ⟨latest', hlatest', hiff⟩ := sameView_latest hdistinct hrow
  obtain rfl := Option.some.inj (hlatest.symm.trans hlatest')
  exact hiff.1 hsame

/-- The events that a workflow selects of a task other than its root. -/
theorem filter_rootId {id : String} (hid : id ≠ taskId) :
    (ch.eventsOf tenantId taskId).filter
        (fun event => event.rootId == some id || event.taskId == id) =
      carriers (·.rootId) id (ch.eventsOf tenantId taskId) := by
  refine List.filter_congr fun event hevent => ?_
  have hother : (event.taskId == id) = false :=
    beq_eq_false_iff_ne.2 fun h => hid (h.symm.trans (mem_eventsOf.1 hevent).2.2)
  rw [hother, Bool.or_false]

/-- The row of the events that carry an id. -/
theorem exists_mergedTask_carriers {column : TaskEventRow → Option String} {id : String}
    (h : ∃ event ∈ ch.eventsOf tenantId taskId, column event = some id) :
    ∃ row, mergedTask (carriers column id (ch.eventsOf tenantId taskId)) = some row ∧
      row.taskId = taskId := by
  obtain ⟨event, hevent, hid⟩ := h
  obtain ⟨row, hrow⟩ := exists_mergedTask (mem_carriers.2 ⟨hevent, hid⟩)
  obtain ⟨event', hevent', htask⟩ := (isMerge_of_mergedTask hrow).taskId
  exact ⟨row, hrow, htask.trans (mem_eventsOf.1 (mem_carriers.1 hevent').1).2.2⟩

theorem sameView_workflow (hdistinct : ch.DistinctTimes)
    (heach : EachRepresents (·.rootId) taskId (ch.eventsOf tenantId taskId)) {id : String}
    {row : TaskEventRow} (hrow : row ∈ ch.getWorkflowTasks tenantId id) (htask : row.taskId = taskId) :
    ∃ latest, ch.getTaskLatest tenantId taskId = some latest ∧ SameView row latest := by
  rw [mem_getWorkflowTasks, htask] at hrow
  by_cases hid : id = taskId
  · subst hid
    have hall : (ch.eventsOf tenantId id).filter
        (fun event => event.rootId == some id || event.taskId == id) = ch.eventsOf tenantId id := by
      refine List.filter_eq_self.2 fun event hevent => ?_
      rw [Bool.or_eq_true, beq_iff_eq, beq_iff_eq]
      exact .inr (mem_eventsOf.1 hevent).2.2
    rw [hall, ← getTaskLatest_eq] at hrow
    exact ⟨row, hrow, .refl row⟩
  · rw [filter_rootId hid] at hrow
    obtain ⟨event, hevent, -⟩ := (isMerge_of_mergedTask hrow).taskId
    obtain ⟨latest, hlatest, hsame⟩ := sameView_latest hdistinct hrow
    exact ⟨latest, hlatest, hsame.2 (heach id hid ⟨event, mem_carriers.1 hevent⟩)⟩

theorem sameView_chain (hdistinct : ch.DistinctTimes)
    (heach : EachRepresents (·.parentId) taskId (ch.eventsOf tenantId taskId)) {id : String}
    {row : TaskEventRow} (hrow : row ∈ ch.getRetryChain tenantId id) (htask : row.taskId = taskId) :
    ∃ latest, ch.getTaskLatest tenantId taskId = some latest ∧ SameView row latest := by
  rcases mem_getRetryChain hrow with hlatest | ⟨parents, taskName, hparents, hchild⟩
  · exact ⟨row, htask ▸ hlatest, .refl row⟩
  · rw [mem_getChildrenByParentIds, htask] at hchild
    rw [htask] at hparents
    obtain ⟨hmerged, -⟩ := hchild
    obtain ⟨event, hevent, -⟩ := (isMerge_of_mergedTask hmerged).taskId
    rw [List.mem_filter, Option.any_eq_true] at hevent
    obtain ⟨hevent, p, hp, hmem⟩ := hevent
    rw [List.contains_iff_mem] at hmem
    have hne : p ≠ taskId := fun h => hparents (h ▸ hmem)
    have hcarriers : (ch.eventsOf tenantId taskId).filter
        (fun event => event.parentId.any parents.contains) =
          carriers (·.parentId) p (ch.eventsOf tenantId taskId) := by
      refine List.filter_congr fun event' hevent' => ?_
      rw [Bool.eq_iff_iff, Option.any_eq_true, beq_iff_eq]
      constructor
      · rintro ⟨p', hp', hmem'⟩
        rw [List.contains_iff_mem] at hmem'
        have hne' : p' ≠ taskId := fun h => hparents (h ▸ hmem')
        have hsame := heach.same (hdistinct tenantId taskId) hevent hevent' hp hp' hne hne'
        exact hp'.trans (congrArg some hsame.symm)
      · exact fun hp' => ⟨p, hp', List.contains_iff_mem.2 hmem⟩
    rw [hcarriers] at hmerged
    obtain ⟨latest, hlatest, hsame⟩ := sameView_latest hdistinct hmerged
    exact ⟨latest, hlatest, hsame.2 (heach p hne ⟨event, hevent, hp⟩)⟩

/-! ### A store where the part is shown -/

/-- The event of a task that is no retry. -/
def startEvent (tenantId : Uuid) (taskId taskName : String) : TaskEventRow :=
  { tenantId, eventId := 1, taskId, taskName, queue := "default", workerId := "w1",
    state := "STARTED", eventType := "task-started", timestamp := 0, args := "", kwargs := "",
    result := "", exception := "", traceback := "", runtime := .zero, retries := 0, rootId := none,
    parentId := none, groupId := none, chordId := none, agentId := 5, brokerType := "redis" }

/-- The events of one task, and the start of another. -/
def besides (ch : ClickHouse) (tenantId : Uuid) (taskId parentId taskName : String) : ClickHouse :=
  { ch with
    taskEvents := startEvent tenantId parentId taskName :: ch.eventsOf tenantId taskId
    inRange := by
      intro row hrow
      rcases List.mem_cons.1 hrow with rfl | hrow
      · have hzero : millis (startEvent tenantId parentId taskName) = 0 := by rw [millis]; rfl
        rw [hzero]
        decide
      · exact ch.inRange row (mem_eventsOf.1 hrow).1 }

variable {parentId taskName : String}

theorem eventsOf_besides_self (hne : parentId ≠ taskId) :
    (ch.besides tenantId taskId parentId taskName).eventsOf tenantId taskId =
      ch.eventsOf tenantId taskId := by
  have hstart : (startEvent tenantId parentId taskName).taskId ≠ taskId := hne
  have hall : (ch.eventsOf tenantId taskId).filter
      (fun row => row.tenantId == tenantId && row.taskId == taskId) = ch.eventsOf tenantId taskId := by
    refine List.filter_eq_self.2 fun event hevent => ?_
    rw [Bool.and_eq_true, beq_iff_eq, beq_iff_eq]
    exact (mem_eventsOf.1 hevent).2
  rw [eventsOf, besides, List.filter_cons_of_neg, hall]
  rw [Bool.and_eq_true, beq_iff_eq, beq_iff_eq]
  exact fun h => hstart h.2

theorem eventsOf_besides_parent (hne : parentId ≠ taskId) :
    (ch.besides tenantId taskId parentId taskName).eventsOf tenantId parentId =
      [startEvent tenantId parentId taskName] := by
  have hnone : (ch.eventsOf tenantId taskId).filter
      (fun row => row.tenantId == tenantId && row.taskId == parentId) = [] := by
    refine List.filter_eq_nil_iff.2 fun event hevent h => ?_
    rw [Bool.and_eq_true, beq_iff_eq, beq_iff_eq] at h
    exact hne (h.2.symm.trans (mem_eventsOf.1 hevent).2.2)
  rw [eventsOf, besides, List.filter_cons_of_pos, hnone]
  rw [Bool.and_eq_true, beq_iff_eq, beq_iff_eq]
  exact ⟨rfl, rfl⟩

theorem distinctTimes_besides (hdistinct : ch.DistinctTimes) (hne : parentId ≠ taskId) :
    (ch.besides tenantId taskId parentId taskName).DistinctTimes := by
  intro tenantId' taskId'
  by_cases hself : tenantId' = tenantId ∧ taskId' = parentId
  · obtain ⟨rfl, rfl⟩ := hself
    rw [eventsOf_besides_parent hne]
    exact List.nodup_singleton _
  · have hrest : (ch.besides tenantId taskId parentId taskName).eventsOf tenantId' taskId' =
        (ch.eventsOf tenantId taskId).filter
          fun row => row.tenantId == tenantId' && row.taskId == taskId' := by
      rw [eventsOf, besides, List.filter_cons_of_neg]
      rw [Bool.and_eq_true, beq_iff_eq, beq_iff_eq]
      exact fun h => hself ⟨h.1.symm, h.2.symm⟩
    rw [hrest]
    exact (hdistinct tenantId taskId).sublist (List.filter_sublist.map millis)

/-- The chain of the other task has the row of those events that carry it as their parent. -/
theorem mem_getRetryChain_besides (hne : parentId ≠ taskId) {row : TaskEventRow}
    (hrow : mergedTask (carriers (·.parentId) parentId (ch.eventsOf tenantId taskId)) = some row) :
    row ∈ (ch.besides tenantId taskId parentId row.taskName).getRetryChain tenantId parentId := by
  have htask : row.taskId = taskId := by
    obtain ⟨event, hevent, htask⟩ := (isMerge_of_mergedTask hrow).taskId
    rw [htask, (mem_eventsOf.1 (mem_carriers.1 hevent).1).2.2]
  obtain ⟨current, hcurrent⟩ := exists_mergedTask
    (List.mem_singleton_self (startEvent tenantId parentId row.taskName))
  have hmerge := isMerge_of_mergedTask hcurrent
  rw [← eventsOf_besides_parent hne, ← getTaskLatest_eq] at hcurrent
  have hname : current.taskName = row.taskName := hmerge.taskName.trans
    (argMaxIf_of_forall_eq (fun e he => by rw [List.mem_singleton.1 he]; rfl)
      (List.cons_ne_nil _ _) fun h => by
        by_contra hempty
        exact absurd h (by simpa [isText] using fun h => hempty h.symm))
  have hparent : current.parentId = none := hmerge.parentId.trans
    (argMaxIf_of_forall_eq (fun e he => by rw [List.mem_singleton.1 he]; rfl)
      (List.cons_ne_nil _ _) fun _ => rfl)
  have hid : current.taskId = parentId := taskId_of_getTaskLatest hcurrent
  have hup : (ch.besides tenantId taskId parentId row.taskName).walkUp tenantId current.taskName
      MAX_DEPTH current [] [current.taskId] = (current, [], [current.taskId]) :=
    walkUp_of_stop fun pid hpid => by cases hparent.symm.trans hpid
  unfold getRetryChain
  rw [hcurrent]
  dsimp only
  rw [hup, hname]
  refine mem_walkDown_of_child (mem_getChildrenByParentIds.2 ⟨?_, rfl⟩) ?_
  · have hcarriers : ((ch.besides tenantId taskId parentId row.taskName).eventsOf tenantId
        row.taskId).filter (fun event => event.parentId.any [current.taskId].contains) =
          carriers (·.parentId) parentId (ch.eventsOf tenantId taskId) := by
      rw [htask, eventsOf_besides_self hne]
      refine List.filter_congr fun event _ => ?_
      rw [Bool.eq_iff_iff, Option.any_eq_true, beq_iff_eq, hid]
      simp
    exact hcarriers ▸ hrow
  · rw [List.mem_singleton, htask, hid]
    exact hne.symm

/-! ### Agreement -/

/-- **The views of a task.** In every store with these events of a task, its rows in workflows and
in chains of retries are its own row, exactly if for every root id and every parent id that an event
carries, the task's own id apart, the events that carry it represent all of them. -/
theorem sameView_iff_eachRepresents (hdistinct : ch.DistinctTimes) (tenantId : Uuid)
    (taskId : String) :
    (∀ ch' : ClickHouse, ch'.DistinctTimes →
        ch'.eventsOf tenantId taskId = ch.eventsOf tenantId taskId →
      ∀ id row, row ∈ ch'.getWorkflowTasks tenantId id ∨ row ∈ ch'.getRetryChain tenantId id →
        row.taskId = taskId →
          ∃ latest, ch'.getTaskLatest tenantId taskId = some latest ∧ SameView row latest) ↔
      EachRepresents (·.rootId) taskId (ch.eventsOf tenantId taskId) ∧
        EachRepresents (·.parentId) taskId (ch.eventsOf tenantId taskId) := by
  constructor
  · intro h
    constructor
    · intro id hne hcarried
      obtain ⟨row, hrow, htask⟩ := exists_mergedTask_carriers hcarried
      have hmem : row ∈ ch.getWorkflowTasks tenantId id := by
        rw [mem_getWorkflowTasks, htask, filter_rootId hne]
        exact hrow
      exact represents_of_sameView hdistinct hrow (h ch hdistinct rfl id row (.inl hmem) htask)
    · intro id hne hcarried
      obtain ⟨row, hrow, htask⟩ := exists_mergedTask_carriers hcarried
      have hevents : (ch.besides tenantId taskId id row.taskName).eventsOf tenantId taskId =
          ch.eventsOf tenantId taskId := eventsOf_besides_self hne
      have hsame := h _ (distinctTimes_besides hdistinct hne) hevents id row
        (.inr (mem_getRetryChain_besides hne hrow)) htask
      rw [getTaskLatest_eq, hevents, ← getTaskLatest_eq] at hsame
      exact represents_of_sameView hdistinct hrow hsame
  · rintro ⟨hroot, hparent⟩ ch' hdistinct' hevents id row (hrow | hrow) htask
    · exact sameView_workflow hdistinct' (hevents ▸ hroot) hrow htask
    · exact sameView_chain hdistinct' (hevents ▸ hparent) hrow htask

theorem distinctTimes_of_nodup (h : (ch.taskEvents.map millis).Nodup) : ch.DistinctTimes :=
  fun _ _ => h.sublist (List.filter_sublist.map millis)

end ClickHouse

/-! ### Samples -/

/-- What a worker sends when it receives a task of the workflow "r", and when the task is done. -/
def receivedEvent : TaskEventRow :=
  { sampleEvent "a" 1000 with
    state := "RECEIVED", eventType := "task-received", result := "", rootId := some "r" }

def succeededEvent : TaskEventRow := sampleEvent "a" 2000

/-- Both events of the task carry its root id. -/
def rootKept : ClickHouse :=
  sampleDb [receivedEvent, { succeededEvent with rootId := some "r" }] (by decide)

theorem sameView_iff_eachRepresents_sample :
    ∃ latest, rootKept.getTaskLatest 7 "a" = some latest ∧
      SameView { succeededEvent with rootId := some "r" } latest := by
  refine (@ClickHouse.sameView_iff_eachRepresents rootKept
    (ClickHouse.distinctTimes_of_nodup (by decide)) 7 "a").2 ⟨?_, ?_⟩ rootKept
    (ClickHouse.distinctTimes_of_nodup (by decide)) rfl "r" _ (.inl (by decide)) rfl
  · exact @eachRepresents_of_forall_eq _ _ (some "r") (by decide) "a"
  · exact @eachRepresents_of_forall_eq _ _ none (by decide) "a"

/-- Only the first one does, as it is with Celery. -/
def rootOnce : ClickHouse := sampleDb [receivedEvent, succeededEvent] (by decide)

/-- The workflow still shows the task as received. -/
theorem workflow_shows_old_state :
    rootOnce.DistinctTimes ∧
      (rootOnce.getWorkflowTasks 7 "r").map (fun row => (row.taskId, row.state)) =
        [("a", "RECEIVED")] ∧
      (rootOnce.getTaskLatest 7 "a").map (·.state) = some "SUCCESS" :=
  ⟨ClickHouse.distinctTimes_of_nodup (by decide), by decide, by decide⟩

end Feloxi.Views
