import Feloxi.Views.TaskList
import Mathlib.Data.List.Dedup

/-!
# Feloxi.Views.TaskSummary

The list of tasks, page by page: `list_task_summary` in `crates/api/src/routes/tasks.rs` over
`get_task_summary` in `crates/db/src/clickhouse/aggregations.rs`. A task is shown by its newest
event of those before the cursor, so that it can come again on a later page.
-/

namespace Feloxi.Views

open Auth (CurrentUser checkPermission)
open Paging
open Pipeline (TaskEventRow)
open Queries
open Tasks (IsI64)
open Tasks.PyValue (intText)

/-! ### The list -/

structure TaskSummaryRow where
  taskId : String
  taskName : String
  queue : String
  workerId : String
  state : String
  timestamp : Int
  runtime : F64
  retries : Nat
  exception : String
  waitSeconds : F64
  deriving Repr, DecidableEq

/-- The columns of the `SELECT`. -/
def summaryRow (row : TaskEventRow) : TaskSummaryRow :=
  { taskId := row.taskId, taskName := row.taskName, queue := row.queue, workerId := row.workerId,
    state := row.state, timestamp := row.timestamp, runtime := row.runtime, retries := row.retries,
    exception := row.exception, waitSeconds := .zero }

structure TaskSummaryListResponse where
  data : List TaskSummaryRow
  hasMore : Bool
  nextCursor : Option String
  total : Option Nat
  deriving Repr, DecidableEq

namespace ClickHouse

variable (ch : ClickHouse)

/-- `SELECT countDistinct(task_id)`. -/
def countTaskSummary (tenantId : Uuid) (filters : TaskFilters) : Nat :=
  ((ch.matching tenantId filters .states).map (·.taskId)).dedup.length

/-- `... ORDER BY timestamp DESC LIMIT 1 BY task_id LIMIT ?`. -/
def getTaskSummary (tenantId : Uuid) (limit : Nat) (filters : TaskFilters)
    (cursorMs : Option Int) : List TaskSummaryRow :=
  ((firstOfEach (·.taskId) (ch.newestFirst.sort
    ((ch.matching tenantId filters .states).filter (beforeCursor cursorMs)))).take limit).map
      summaryRow

def listTaskSummary (user : CurrentUser) (params : TaskListParams) :
    Except AppError TaskSummaryListResponse :=
  match checkPermission user "tasks_read" with
  | .error e => .error e
  | .ok () =>
    let (limit, cursorMs) := parseCursorParams params
    let filters := params.filters params.parsedStates
    let rows := ch.getTaskSummary user.tenantId (limit + 1) filters cursorMs
    let total := if params.count.getD false then some (ch.countTaskSummary user.tenantId filters)
      else none
    let (data, hasMore, nextCursor) := paginate rows limit fun r => cursorOf r.timestamp
    .ok { data, hasMore, nextCursor, total }

/-- The page of a cursor. -/
def summaryPage (user : CurrentUser) (params : TaskListParams) (cursor : Option String) :
    Except AppError (Page String TaskSummaryRow) :=
  (ch.listTaskSummary user { params with cursor }).map fun r => ⟨r.data, r.hasMore, r.nextCursor⟩

/-! ### Reading to the end -/

variable {user : CurrentUser}

theorem nodup_matching (hdistinct : (ch.taskEvents.map millis).Nodup) (tenantId : Uuid)
    (filters : TaskFilters) (rowScope : RowScope) :
    ((ch.matching tenantId filters rowScope).map millis).Nodup :=
  hdistinct.sublist (List.filter_sublist.map millis)

/-- As many tasks are counted as have a newest event. -/
theorem countTaskSummary_eq (hdistinct : (ch.taskEvents.map millis).Nodup) (tenantId : Uuid)
    (filters : TaskFilters) :
    ch.countTaskSummary tenantId filters =
      (newest millis (·.taskId) (ch.matching tenantId filters .states)).length := by
  let matching := ch.matching tenantId filters .states
  let tasks := firstOfEach (·.taskId) (ch.newestFirst.sort matching)
  have hnewest : tasks.Perm (newest millis (·.taskId) matching) :=
    firstOfEach_perm_newest ch.newestFirst (ch.nodup_matching hdistinct tenantId filters .states)
  suffices htasks : (matching.map (·.taskId)).dedup.Perm (tasks.map (·.taskId)) by
    have hlength := htasks.length_eq
    rw [List.length_map, hnewest.length_eq] at hlength
    exact hlength
  rw [List.perm_ext_iff_of_nodup (List.nodup_dedup _) (nodup_firstOfEach _ _)]
  intro id
  rw [List.mem_dedup, List.mem_map, List.mem_map]
  constructor
  · rintro ⟨row, hrow, rfl⟩
    obtain ⟨first, hfirst, htask, -⟩ := exists_firstOfEach (·.taskId)
      (fun a => Int.le_refl (-millis a)) (ch.newestFirst.sorted matching)
      (ch.newestFirst.mem_sort.2 hrow)
    exact ⟨first, hfirst, htask⟩
  · rintro ⟨row, hrow, rfl⟩
    exact ⟨row, (mem_newest.1 (hnewest.mem_iff.1 hrow)).1, rfl⟩

/-- The page of a cursor, once the cursor is read. -/
theorem summaryPage_eq (hpermit : checkPermission user "tasks_read" = .ok ())
    (params : TaskListParams) {c : Option Int} (hc : ∀ n ∈ c, IsI64 n) :
    ch.summaryPage user params (c.map fun t => String.ofList (intText t)) =
      .ok ((cut params.pageSize millis ((firstOfEach (·.taskId) (ch.newestFirst.sort (below millis c
        (ch.matching user.tenantId params.applied .states)))).take (params.pageSize + 1))).map
          summaryRow fun t => String.ofList (intText t)) := by
  have hpage : ch.summaryPage user params (c.map fun t => String.ofList (intText t)) =
      .ok (cut params.pageSize (fun r => cursorOf r.timestamp)
        (ch.getTaskSummary user.tenantId (params.pageSize + 1) params.applied c)) := by
    simp only [summaryPage, listTaskSummary, hpermit, parseCursorParams, bind_parse_cursor hc,
      paginate_eq_cut]
    rfl
  rw [hpage, getTaskSummary, filter_beforeCursor]
  congr 1
  exact cut_map _ _ summaryRow _ _ fun r _ => cursorOf_millis r

/-- **Paging the summary.** Whatever the filters and the limit, following the cursors comes to one
end. It gives every task once, by its newest event, and as many as are counted, exactly if no
page but the last ends between two events of one task. -/
theorem listTaskSummary_exact_iff (hpermit : checkPermission user "tasks_read" = .ok ())
    (hdistinct : (ch.taskEvents.map millis).Nodup) (params : TaskListParams) :
    ∃ rows total, (∀ out, Follows (ch.summaryPage user params) none out ↔ out = rows) ∧
      (ch.listTaskSummary user { params with cursor := none, count := some true }).map (·.total) =
        .ok (some total) ∧
      ((rows.Perm ((newest millis (·.taskId)
          (ch.matching user.tenantId params.applied .states)).map summaryRow) ∧
          rows.length = total) ↔
        Unstraddled millis (·.taskId) params.pageSize
          (ch.matching user.tenantId params.applied .states)) := by
  let matching := ch.matching user.tenantId params.applied .states
  have hkeys : (matching.map millis).Nodup :=
    ch.nodup_matching hdistinct user.tenantId params.applied .states
  have hread : ∀ (c : Option Int),
      ∀ r ∈ firstOfEach (·.taskId) (ch.newestFirst.sort (below millis c matching)), r ∈ matching := by
    intro c r hr
    have hr := ch.newestFirst.mem_sort.1 ((firstOfEach_sublist _ _).subset hr)
    rw [← filter_beforeCursor] at hr
    exact List.mem_of_mem_filter hr
  obtain ⟨rows, hfollows, -, hexact⟩ := follows_newestPage (ε := AppError) (κ := String)
    ch.newestFirst (pageSize_pos params) hkeys none
  refine ⟨rows.map summaryRow, ch.countTaskSummary user.tenantId params.applied, ?_, ?_, ?_⟩
  · refine hfollows.map_iff (fun c p hp n hn => ?_)
      fun c p hc hp => by cases hp; exact ch.summaryPage_eq hpermit params hc
    cases hp
    obtain ⟨r, hr, rfl⟩ := mem_nextCursor_cut hn
    exact ch.isI64_matching (hread c r (List.mem_of_mem_take hr))
  · simp only [listTaskSummary, hpermit]
    rfl
  · have hrows : ∀ r ∈ rows, r ∈ matching := hfollows.forall_mem fun c p hp r hr => by
      cases hp
      exact hread c r (List.mem_of_mem_take (List.mem_of_mem_take hr))
    have hmap : (rows.map summaryRow).Perm ((newest millis (·.taskId) matching).map summaryRow) ↔
        rows.Perm (newest millis (·.taskId) matching) := by
      refine map_perm_map_iff_of_injOn (fun a ha b hb hab => ?_) hrows fun b hb => (mem_newest.1 hb).1
      have htime : a.timestamp = b.timestamp := congrArg TaskSummaryRow.timestamp hab
      exact List.inj_on_of_nodup_map hkeys ha hb (by rw [millis, millis, htime])
    rw [hmap]
    refine Iff.trans ⟨fun h => h.1, fun h => ⟨h, ?_⟩⟩ hexact
    rw [List.length_map, h.length_eq, ch.countTaskSummary_eq hdistinct]

end ClickHouse

/-! ### Samples -/

theorem listTaskSummary_exact_iff_sample :
    ∃ rows total, (∀ out, Follows (twoTimes.summaryPage sampleUser sampleParams) none out ↔ out = rows) ∧
      (twoTimes.listTaskSummary sampleUser
        { sampleParams with cursor := none, count := some true }).map (·.total) = .ok (some total) ∧
      rows.Perm ((newest millis (·.taskId) (twoTimes.matching 7 sampleParams.applied .states)).map
        summaryRow) ∧ rows.length = total := by
  obtain ⟨rows, total, hfollows, htotal, hexact⟩ :=
    @ClickHouse.listTaskSummary_exact_iff twoTimes sampleUser rfl (by decide) sampleParams
  refine ⟨rows, total, hfollows, htotal, hexact.2 ?_⟩
  unfold Unstraddled
  decide

/-- A task that is retried after another one has started. -/
def taskAgain : ClickHouse :=
  sampleDb [sampleEvent "a" 3000, sampleEvent "b" 2000, sampleEvent "a" 1000] (by decide)

/-- It comes on the first page and on the last. -/
theorem summary_repeats_task :
    Follows (taskAgain.summaryPage sampleUser sampleParams) none
        ([sampleEvent "a" 3000, sampleEvent "b" 2000, sampleEvent "a" 1000].map summaryRow) ∧
      (taskAgain.listTaskSummary sampleUser
        { sampleParams with cursor := none, count := some true }).map (·.total) = .ok (some 2) := by
  refine ⟨?_, by decide⟩
  exact @Follows.more _ _ _ _ none [summaryRow (sampleEvent "a" 3000)] _ "3000" rfl
    (@Follows.more _ _ _ _ _ [summaryRow (sampleEvent "b" 2000)] _ "2000" rfl (.last rfl))

end Feloxi.Views
