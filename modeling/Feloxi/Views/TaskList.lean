import Feloxi.Auth.Rbac
import Feloxi.Lib.Paging
import Feloxi.Lib.Text
import Feloxi.Views.TaskEvents

/-!
# Feloxi.Views.TaskList

The list of task events, page by page (`list_tasks` in `crates/api/src/routes/tasks.rs`). The
cursor is the time of the last row in milliseconds, and the next page starts strictly before it.
-/

namespace Feloxi.Views

open Auth (CurrentUser checkPermission)
open Paging
open Pipeline (TaskEventRow)
open Queries
open Tasks (IsI64 parseI64 parseI64_intText)
open Tasks.PyValue (intText)

/-! ### Parameters -/

structure TaskListParams where
  state : Option String
  taskName : Option String
  queue : Option String
  workerId : Option String
  search : Option String
  errorsOnly : Option Bool
  sinceMs : Option Int
  untilMs : Option Int
  requireTaskName : Option Bool
  limit : Option Nat
  cursor : Option String
  count : Option Bool
  deriving Repr, DecidableEq

def ALLOWED_TASK_STATES : List String :=
  ["PENDING", "RECEIVED", "STARTED", "SUCCESS", "FAILURE", "RETRY", "REVOKED", "REJECTED"]

/-- The states of a comma-separated list that the schema knows. -/
def TaskListParams.parsedStates (params : TaskListParams) : List String :=
  match params.state with
  | none => []
  | some raw =>
    (((raw.toList.splitOn ',').map fun s => String.ofList (trim s)).filter (· != "")).filter
      ALLOWED_TASK_STATES.contains

def TaskListParams.filters (params : TaskListParams) (states : List String) : TaskFilters :=
  { taskName := params.taskName.filter (· != "")
    states := if states.isEmpty then none else some states
    queue := params.queue.filter (· != "")
    workerId := params.workerId.filter (· != "")
    search := params.search.filter (· != "")
    errorsOnly := params.errorsOnly
    sinceMs := params.sinceMs
    untilMs := params.untilMs
    requireTaskName := params.requireTaskName }

/-- The filters of a request. -/
def TaskListParams.applied (params : TaskListParams) : TaskFilters :=
  params.filters params.parsedStates

/-- `unwrap_or(50).clamp(1, 200)`. -/
def TaskListParams.pageSize (params : TaskListParams) : Nat := max 1 (min 200 (params.limit.getD 50))

/-- `parse_cursor_params`: a cursor that is no number is none. -/
def parseCursorParams (params : TaskListParams) : Nat × Option Int :=
  (params.pageSize, params.cursor.bind fun c => parseI64 c.toList)

/-- `paginate`, of up to `limit + 1` rows. -/
def paginate {α : Type} (rows : List α) (limit : Nat) (cursorFn : α → String) :
    List α × Bool × Option String :=
  let hasMore := decide (limit < rows.length)
  let rows := if hasMore then rows.take limit else rows
  (rows, hasMore, if hasMore then rows.getLast?.map cursorFn else none)

/-- The cursor of a row: seconds and milliseconds of its time. -/
def cursorOf (timestamp : Int) : String :=
  String.ofList (intText (timestamp / 10 ^ 9 * 1000 + timestamp % 10 ^ 9 / 10 ^ 6))

/-! ### The list -/

structure TaskListResponse where
  data : List TaskEventRow
  hasMore : Bool
  nextCursor : Option String
  total : Option Nat
  deriving Repr, DecidableEq

namespace ClickHouse

variable (ch : ClickHouse)

/-- `SELECT count()`. -/
def countTaskEvents (tenantId : Uuid) (filters : TaskFilters) : Nat :=
  (ch.matching tenantId filters .eventTypes).length

/-- `... ORDER BY timestamp DESC LIMIT ?`. -/
def queryTaskEvents (tenantId : Uuid) (limit : Nat) (filters : TaskFilters)
    (cursorMs : Option Int) : List TaskEventRow :=
  (ch.newestFirst.sort
    ((ch.matching tenantId filters .eventTypes).filter (beforeCursor cursorMs))).take limit

def listTasks (user : CurrentUser) (params : TaskListParams) : Except AppError TaskListResponse :=
  match checkPermission user "tasks_read" with
  | .error e => .error e
  | .ok () =>
    let (limit, cursorMs) := parseCursorParams params
    let filters := params.filters params.parsedStates
    let events := ch.queryTaskEvents user.tenantId (limit + 1) filters cursorMs
    let total := if params.count.getD false then some (ch.countTaskEvents user.tenantId filters)
      else none
    let (data, hasMore, nextCursor) := paginate events limit fun e => cursorOf e.timestamp
    .ok { data, hasMore, nextCursor, total }

/-- The page of a cursor. -/
def taskPage (user : CurrentUser) (params : TaskListParams) (cursor : Option String) :
    Except AppError (Page String TaskEventRow) :=
  (ch.listTasks user { params with cursor }).map fun r => ⟨r.data, r.hasMore, r.nextCursor⟩

end ClickHouse

/-! ### Cursors -/

theorem cursorOf_millis (row : TaskEventRow) :
    cursorOf row.timestamp = String.ofList (intText (millis row)) := by
  have hmillis : row.timestamp / 10 ^ 9 * 1000 + row.timestamp % 10 ^ 9 / 10 ^ 6 = millis row := by
    unfold millis
    omega
  rw [cursorOf, hmillis]

/-- A cursor is read as the time that it was made of. -/
theorem parse_cursor {t : Int} (h : IsI64 t) :
    parseI64 (String.ofList (intText t)).toList = some t := by
  rw [String.toList_ofList, parseI64_intText, if_pos h]

theorem bind_parse_cursor {c : Option Int} (hc : ∀ n ∈ c, IsI64 n) :
    (c.map fun t => String.ofList (intText t)).bind (fun c => parseI64 c.toList) = c := by
  cases c with
  | none => rfl
  | some t => exact parse_cursor (hc t rfl)

/-- `paginate` in the terms of pages. -/
theorem paginate_eq_cut {α : Type} (rows : List α) (limit : Nat) (cursorFn : α → String) :
    paginate rows limit cursorFn =
      ((cut limit cursorFn rows).data, (cut limit cursorFn rows).hasMore,
        (cut limit cursorFn rows).nextCursor) := by
  unfold paginate cut
  by_cases hmore : limit < rows.length
  · simp [hmore]
  · simp [hmore, List.take_of_length_le (Nat.le_of_not_lt hmore)]

theorem pageSize_pos (params : TaskListParams) : 0 < params.pageSize := by
  unfold TaskListParams.pageSize
  omega

theorem filter_beforeCursor (cursorMs : Option Int) (rows : List TaskEventRow) :
    rows.filter (beforeCursor cursorMs) = below millis cursorMs rows := by
  cases cursorMs with
  | none => exact List.filter_eq_self.2 fun _ _ => rfl
  | some ms => rfl

/-! ### Reading to the end -/

namespace ClickHouse

variable (ch : ClickHouse) {user : CurrentUser}

theorem isI64_matching {tenantId : Uuid} {filters : TaskFilters} {rowScope : RowScope}
    {row : TaskEventRow} (h : row ∈ ch.matching tenantId filters rowScope) : IsI64 (millis row) :=
  ch.inRange row (List.mem_of_mem_filter h)

/-- The page of a cursor, once the cursor is read. -/
theorem taskPage_eq (hpermit : checkPermission user "tasks_read" = .ok ()) (params : TaskListParams)
    {c : Option Int} (hc : ∀ n ∈ c, IsI64 n) :
    ch.taskPage user params (c.map fun t => String.ofList (intText t)) =
      .ok ((cut params.pageSize millis ((ch.newestFirst.sort (below millis c
        (ch.matching user.tenantId params.applied .eventTypes))).take (params.pageSize + 1))).map id
          fun t => String.ofList (intText t)) := by
  have hpage : ch.taskPage user params (c.map fun t => String.ofList (intText t)) =
      .ok (cut params.pageSize (fun e => cursorOf e.timestamp)
        (ch.queryTaskEvents user.tenantId (params.pageSize + 1) params.applied c)) := by
    simp only [taskPage, listTasks, hpermit, parseCursorParams, bind_parse_cursor hc, paginate_eq_cut]
    rfl
  rw [hpage, queryTaskEvents, filter_beforeCursor]
  congr 1
  refine (congrArg _ (List.map_id _).symm).trans (cut_map _ _ id _ _ fun r _ => ?_)
  exact cursorOf_millis r

/-- **Paging the list.** Whatever the filters and the limit, following the cursors comes to one
end. It gives every matching event once, and as many as are counted, exactly if no page ends
between two events of the same millisecond. -/
theorem listTasks_exact_iff (hpermit : checkPermission user "tasks_read" = .ok ())
    (params : TaskListParams) :
    ∃ rows total, (∀ out, Follows (ch.taskPage user params) none out ↔ out = rows) ∧
      (ch.listTasks user { params with cursor := none, count := some true }).map (·.total) =
        .ok (some total) ∧
      ((rows.Perm (ch.matching user.tenantId params.applied .eventTypes) ∧ rows.length = total) ↔
        Unsplit millis params.pageSize (ch.matching user.tenantId params.applied .eventTypes)) := by
  obtain ⟨rows, hfollows, -, hexact⟩ := follows_sortedPage (ε := AppError) ch.newestFirst
    (ch.matching user.tenantId params.applied .eventTypes) (pageSize_pos params) none
  refine ⟨rows, (ch.matching user.tenantId params.applied .eventTypes).length, ?_, ?_, ?_⟩
  · have hnext : ∀ c p, sortedPage (ε := AppError) ch.newestFirst params.pageSize
        (ch.matching user.tenantId params.applied .eventTypes) c = .ok p →
        ∀ n ∈ p.nextCursor, IsI64 n := by
      intro c p hp n hn
      cases hp
      obtain ⟨r, hr, rfl⟩ := mem_nextCursor_cut hn
      have hr := ch.newestFirst.mem_sort.1 (List.mem_of_mem_take hr)
      rw [← filter_beforeCursor] at hr
      exact ch.isI64_matching (List.mem_of_mem_filter hr)
    have hpages := hfollows.map_iff hnext
      fun c p hc hp => by cases hp; exact ch.taskPage_eq hpermit params hc
    rwa [List.map_id] at hpages
  · simp only [listTasks, hpermit]
    rfl
  · refine Iff.trans ?_ hexact
    exact ⟨fun h => h.1, fun h => ⟨h, h.length_eq⟩⟩

end ClickHouse

/-! ### Samples -/

/-- An event of the task `id` at `t` milliseconds. -/
def sampleEvent (id : String) (t : Int) : TaskEventRow :=
  { tenantId := 7, eventId := 1, taskId := id, taskName := "tasks.add", queue := "default",
    workerId := "w1", state := "SUCCESS", eventType := "task-succeeded", timestamp := t * 10 ^ 6,
    args := "(1, 2)", kwargs := "{}", result := "3", exception := "", traceback := "",
    runtime := .zero, retries := 0, rootId := none, parentId := none, groupId := none,
    chordId := none, agentId := 5, brokerType := "redis" }

/-- A table with a few events. -/
def sampleDb (events : List TaskEventRow) (h : ∀ row ∈ events, IsI64 (millis row)) : ClickHouse :=
  { taskEvents := events, now := 3600, newestFirst := .stable _, oldestFirst := .stable _,
    inRange := h }

def sampleUser : CurrentUser :=
  { userId := 3, tenantId := 7, email := "ann@acme.io", roles := [], permissions := ["tasks_read"] }

/-- Everything since the epoch, one row a page. -/
def sampleParams : TaskListParams :=
  { state := none, taskName := none, queue := none, workerId := none, search := none,
    errorsOnly := none, sinceMs := some 0, untilMs := none, requireTaskName := none,
    limit := some 1, cursor := none, count := none }

def twoTimes : ClickHouse :=
  sampleDb [sampleEvent "a" 1000, sampleEvent "b" 2000] (by decide)

theorem listTasks_exact_iff_sample :
    ∃ rows total, (∀ out, Follows (twoTimes.taskPage sampleUser sampleParams) none out ↔ out = rows) ∧
      (twoTimes.listTasks sampleUser { sampleParams with cursor := none, count := some true }).map
        (·.total) = .ok (some total) ∧
      rows.Perm (twoTimes.matching 7 sampleParams.applied .eventTypes) ∧ rows.length = total := by
  obtain ⟨rows, total, hfollows, htotal, hexact⟩ :=
    @ClickHouse.listTasks_exact_iff twoTimes sampleUser rfl sampleParams
  exact ⟨rows, total, hfollows, htotal, hexact.2 (unsplit_of_nodup _ (by decide))⟩

/-- Two events of the same millisecond. -/
def sameTime : ClickHouse :=
  sampleDb [sampleEvent "a" 1000, sampleEvent "b" 1000] (by decide)

/-- The second one is on no page. -/
theorem list_skips_event :
    Follows (sameTime.taskPage sampleUser sampleParams) none [sampleEvent "a" 1000] ∧
      (sameTime.listTasks sampleUser { sampleParams with cursor := none, count := some true }).map
        (·.total) = .ok (some 2) ∧
      ¬ [sampleEvent "a" 1000].Perm (sameTime.matching 7 sampleParams.applied .eventTypes) := by
  refine ⟨?_, by decide, by decide⟩
  exact @Follows.more _ _ _ _ none [sampleEvent "a" 1000] [] "1000" rfl (.last rfl)

end Feloxi.Views
