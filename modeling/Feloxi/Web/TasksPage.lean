import Feloxi.Lib.Assoc
import Feloxi.Lib.Csv
import Feloxi.Lib.JsRegex
import Feloxi.Lib.Runs
import Feloxi.Views.TaskSummary

/-!
# Feloxi.Web.TasksPage

The page that lists tasks (`apps/web/src/app/(dashboard)/tasks/page.tsx`), on top of the endpoints
that it asks. The filters are in the URL; where the reader is in the list is a cursor, and a stack
of the cursors of the pages before. A click changes the query that the page shows the answer to,
and drops the selection with it.

The events do not change meanwhile, and the window is the same throughout.
-/

namespace Feloxi.Web

open Assoc (put)
open Auth (CurrentUser checkPermission)
open Paging
open Pipeline (TaskEventRow)
open Queries
open Runs
open Tasks.PyValue (intText)
open Views (ClickHouse RowScope TaskFilters TaskListParams TaskSummaryRow millis summaryRow)

/-! ### Rows, and their export -/

/-- A row of the table, of an event or of a task. -/
structure TaskRow where
  taskId : String
  taskName : String
  state : String
  queue : String
  workerId : String
  runtime : F64
  timestamp : Int
  exception : String
  deriving Repr, DecidableEq

def TaskRow.ofEvent (row : TaskEventRow) : TaskRow :=
  { taskId := row.taskId, taskName := row.taskName, state := row.state, queue := row.queue,
    workerId := row.workerId, runtime := row.runtime, timestamp := millis row,
    exception := row.exception }

def TaskRow.ofSummary (row : TaskSummaryRow) : TaskRow :=
  { taskId := row.taskId, taskName := row.taskName, state := row.state, queue := row.queue,
    workerId := row.workerId, runtime := row.runtime, timestamp := row.timestamp / 10 ^ 6,
    exception := row.exception }

@[simp] theorem ofSummary_summaryRow (row : TaskEventRow) :
    TaskRow.ofSummary (summaryRow row) = TaskRow.ofEvent row := rfl

def csvHeaders : List String :=
  ["task_id", "task_name", "state", "queue", "worker_id", "runtime", "timestamp", "exception"]

/-- The texts of a row, given how numbers print. -/
def csvCells (numberText : F64 → String) (t : TaskRow) : List String :=
  [t.taskId, t.taskName, t.state, t.queue, t.workerId, numberText t.runtime,
    String.ofList (intText t.timestamp), t.exception]

/-- `exportTasks(tasks, "csv")`: the content of the file, if there is one. -/
def exportTasksCsv (numberText : F64 → String) (tasks : List TaskRow) : Option String :=
  if tasks.isEmpty then none
  else
    let rows := tasks.map fun t => ",".intercalate ((csvCells numberText t).map Csv.quote)
    some ("\n".intercalate (",".intercalate csvHeaders :: rows))

theorem csvHeaders_plain (name : String) (h : name ∈ csvHeaders) :
    name.toList.all (fun c => c != '"' && c != ',' && c != '\n') = true := by
  revert name
  decide +kernel

def failedRow : TaskRow :=
  { taskId := "7", taskName := "tasks.add", state := "FAILURE", queue := "", workerId := "w1",
    runtime := .zero, timestamp := 1000, exception := "KeyError: \"a\", \"b\"\nin add" }

/-- The parameters of the URL, and the window that they come to. -/
structure UrlFilters where
  state : Option String
  taskName : Option String
  queue : Option String
  workerId : Option String
  search : Option String
  errorsOnly : Option String
  sinceMs : Int
  untilMs : Option Int
  deriving Repr, DecidableEq

/-- `TASK_STATES`, in the order of the facets. -/
def FACET_STATES : List String :=
  ["FAILURE", "SUCCESS", "RETRY", "STARTED", "RECEIVED", "PENDING", "REVOKED", "REJECTED"]

def trimJs (s : List Char) : List Char :=
  ((s.dropWhile JsRegex.isSpace).reverse.dropWhile JsRegex.isSpace).reverse

def UrlFilters.stateFilters (f : UrlFilters) : List String :=
  match f.state with
  | none => []
  | some raw =>
    ((raw.toList.splitOn ',').map fun s => String.ofList (trimJs s)).filter FACET_STATES.contains

def TASKS_LIMIT : Nat := 50

/-- The query of the list. -/
def queryParams (f : UrlFilters) (cursor : Option String) : TaskListParams :=
  { state := some (",".intercalate f.stateFilters) |>.filter (· != "")
    taskName := f.taskName.filter (· != "")
    queue := f.queue.filter (· != "")
    workerId := f.workerId.filter (· != "")
    search := f.search.filter (· != "")
    errorsOnly := if f.errorsOnly = some "true" then some true else none
    sinceMs := some f.sinceMs
    untilMs := f.untilMs
    requireTaskName := none
    limit := some TASKS_LIMIT
    cursor
    count := some true }

/-- The rows that the filters ask for. -/
def UrlFilters.asked (f : UrlFilters) : TaskFilters :=
  { taskName := f.taskName.filter (· != "")
    states := if f.stateFilters.isEmpty then none else some f.stateFilters
    queue := f.queue.filter (· != "")
    workerId := f.workerId.filter (· != "")
    search := f.search.filter (· != "")
    errorsOnly := if f.errorsOnly = some "true" then some true else none
    sinceMs := some f.sinceMs
    untilMs := f.untilMs
    requireTaskName := none }

theorem mem_stateFilters {f : UrlFilters} {state : String} (h : state ∈ f.stateFilters) :
    state ∈ FACET_STATES := by
  unfold UrlFilters.stateFilters at h
  split at h
  · cases h
  · simpa using (List.mem_filter.1 h).2

theorem facet_state {state : String} (h : state ∈ FACET_STATES) :
    ',' ∉ state.toList ∧ String.ofList (trim state.toList) = state ∧ state ≠ "" ∧
      Views.ALLOWED_TASK_STATES.contains state = true := by
  revert state
  decide +kernel

/-- The server reads the states as the page wrote them. -/
theorem parsedStates_queryParams (f : UrlFilters) (cursor : Option String) :
    (queryParams f cursor).parsedStates = f.stateFilters := by
  have hfacet : ∀ state ∈ f.stateFilters, _ := fun state h => facet_state (mem_stateFilters h)
  by_cases hnone : f.stateFilters = []
  · rw [hnone, TaskListParams.parsedStates, queryParams, hnone]
    rfl
  · have htext : ",".intercalate f.stateFilters ≠ "" := by
      intro hempty
      obtain ⟨state, rest, hstates⟩ := List.exists_cons_of_ne_nil hnone
      have hfirst := (hfacet state (by simp [hstates])).2.2.1
      rw [hstates] at hempty
      cases rest with
      | nil => exact hfirst (by simpa using hempty)
      | cons next rest => simp [String.intercalate_cons_cons] at hempty
    have hsplit : (",".intercalate f.stateFilters).toList.splitOn ',' =
        f.stateFilters.map String.toList := by
      rw [String.toList_intercalate]
      refine List.splitOn_intercalate ',' (fun l hl => ?_) (by simpa using hnone)
      obtain ⟨state, hstate, rfl⟩ := List.mem_map.1 hl
      exact (hfacet state hstate).1
    have htrim : (f.stateFilters.map String.toList).map (fun s => String.ofList (trim s)) =
        f.stateFilters := by
      rw [List.map_map]
      exact (List.map_congr_left fun state h => (hfacet state h).2.1).trans (List.map_id _)
    simp only [TaskListParams.parsedStates, queryParams, Option.filter_some, bne_iff_ne, ne_eq,
      htext, not_false_eq_true, if_true, hsplit, htrim]
    rw [List.filter_filter, List.filter_eq_self]
    intro state h
    obtain ⟨-, -, hne, hallowed⟩ := hfacet state h
    rw [hallowed, bne_iff_ne.2 hne]
    rfl

/-- **What the page asks for is what the URL says.** -/
theorem applied_queryParams (f : UrlFilters) (cursor : Option String) :
    (queryParams f cursor).applied = f.asked := by
  have hfilter : ∀ o : Option String, (o.filter (· != "")).filter (· != "") = o.filter (· != "") := by
    intro o
    cases o with
    | none => rfl
    | some s => by_cases h : s = "" <;> simp [h]
  rw [TaskListParams.applied, parsedStates_queryParams]
  simp only [TaskListParams.filters, UrlFilters.asked, queryParams, hfilter]

/-! ### What the server lists -/

inductive ViewMode where
  | summary
  | events
  | failures
  deriving Repr, DecidableEq

/-- An answer, as far as the page uses it. -/
structure Listing where
  data : List TaskRow
  hasMore : Bool
  nextCursor : Option String
  total : Option Nat
  deriving Repr, DecidableEq

/-- The answer to `activeQuery`: of `/api/v1/tasks` or of `/api/v1/tasks/summary`. -/
def answer (ch : ClickHouse) (user : CurrentUser) (view : ViewMode) (params : TaskListParams) :
    Except AppError Listing :=
  match view with
  | .events =>
    (ch.listTasks user params).map fun r =>
      ⟨r.data.map .ofEvent, r.hasMore, r.nextCursor, r.total⟩
  | _ =>
    (ch.listTaskSummary user params).map fun r =>
      ⟨r.data.map .ofSummary, r.hasMore, r.nextCursor, r.total⟩

def ViewMode.rowScope : ViewMode → RowScope
  | .events => .eventTypes
  | _ => .states

/-- The events that a list is about. -/
def listed (ch : ClickHouse) (user : CurrentUser) (view : ViewMode) (f : UrlFilters) :
    List TaskEventRow :=
  ch.matching user.tenantId f.asked view.rowScope

def listPage (ch : ClickHouse) (user : CurrentUser) (view : ViewMode) (f : UrlFilters)
    (cursor : Option String) : Except AppError (Page String TaskRow) :=
  (answer ch user view (queryParams f cursor)).map fun l => ⟨l.data, l.hasMore, l.nextCursor⟩

section

variable {ch : ClickHouse} {user : CurrentUser} {view : ViewMode} {f : UrlFilters}

theorem pageSize_queryParams (f : UrlFilters) (c : Option String) :
    (queryParams f c).pageSize = TASKS_LIMIT := rfl

theorem full_paginate {α : Type} (rows : List α) (limit : Nat) (cursorFn : α → String) :
    (Views.paginate rows limit cursorFn).1.length ≤ limit ∧
      ((Views.paginate rows limit cursorFn).2.1 = true →
        (Views.paginate rows limit cursorFn).1.length = limit) := by
  rw [Views.paginate_eq_cut]
  refine ⟨List.length_take_le _ _, fun hmore => ?_⟩
  exact List.length_take_of_le (Nat.le_of_lt (of_decide_eq_true hmore))

theorem listPage_events (ch : ClickHouse) (user : CurrentUser) (f : UrlFilters)
    (c : Option String) :
    listPage ch user .events f c =
      (ch.taskPage user (queryParams f none) c).map (Page.map .ofEvent id) := by
  have hparams : queryParams f c = { queryParams f none with cursor := c } := rfl
  rw [listPage, answer, ClickHouse.taskPage, ← hparams]
  cases ch.listTasks user (queryParams f c) with
  | error e => rfl
  | ok r => simp [Except.map, Page.map]

theorem listPage_tasks (ch : ClickHouse) (user : CurrentUser) (hview : view ≠ .events)
    (f : UrlFilters) (c : Option String) :
    listPage ch user view f c =
      (ch.summaryPage user (queryParams f none) c).map (Page.map .ofSummary id) := by
  have hparams : queryParams f c = { queryParams f none with cursor := c } := rfl
  have hanswer : answer ch user view (queryParams f c) =
      (ch.listTaskSummary user (queryParams f c)).map fun r =>
        ⟨r.data.map .ofSummary, r.hasMore, r.nextCursor, r.total⟩ := by
    cases view with
    | events => exact absurd rfl hview
    | _ => rfl
  rw [listPage, hanswer, ClickHouse.summaryPage, ← hparams]
  cases ch.listTaskSummary user (queryParams f c) with
  | error e => rfl
  | ok r => simp [Except.map, Page.map]

theorem full_taskPage (ch : ClickHouse) (user : CurrentUser) (params : TaskListParams) :
    Full params.pageSize (ch.taskPage user params) := by
  intro c p hp
  rw [ClickHouse.taskPage, ClickHouse.listTasks] at hp
  split at hp
  · cases hp
  · obtain rfl := Except.ok.inj hp
    exact full_paginate (ch.queryTaskEvents _ _ _ _) _ fun e => Views.cursorOf e.timestamp

theorem full_summaryPage (ch : ClickHouse) (user : CurrentUser) (params : TaskListParams) :
    Full params.pageSize (ch.summaryPage user params) := by
  intro c p hp
  rw [ClickHouse.summaryPage, ClickHouse.listTaskSummary] at hp
  split at hp
  · cases hp
  · obtain rfl := Except.ok.inj hp
    exact full_paginate (ch.getTaskSummary _ _ _ _) _ fun r => Views.cursorOf r.timestamp

theorem full_listPage (ch : ClickHouse) (user : CurrentUser) (view : ViewMode) (f : UrlFilters) :
    Full TASKS_LIMIT (listPage ch user view f) := by
  by_cases hview : view = .events
  · rw [hview, funext (listPage_events ch user f)]
    exact (full_taskPage ch user (queryParams f none)).map TaskRow.ofEvent
  · rw [funext (listPage_tasks ch user hview f)]
    exact (full_summaryPage ch user (queryParams f none)).map TaskRow.ofSummary

/-- The rows of a list: each is of an event that it is about, each task that it is about has one,
and where events are listed each has its own. -/
structure Lists (ch : ClickHouse) (user : CurrentUser) (view : ViewMode) (f : UrlFilters)
    (out : List TaskRow) : Prop where
  follows : Follows (listPage ch user view f) none out
  sound : ∀ r ∈ out, ∃ e ∈ listed ch user view f, r = .ofEvent e
  complete : ∀ e ∈ listed ch user view f, ∃ r ∈ out, r.taskId = e.taskId
  exact : view = .events → out.Perm ((listed ch user view f).map .ofEvent)

theorem lists_events (hpermit : checkPermission user "tasks_read" = .ok ())
    (hdistinct : (ch.taskEvents.map millis).Nodup) (f : UrlFilters) :
    ∃ out, Lists ch user .events f out := by
  obtain ⟨rows, hfollows, -, hexact⟩ := follows_sortedPage (ε := AppError) ch.newestFirst
    (listed ch user .events f) (show 0 < TASKS_LIMIT by decide) none
  have hperm : rows.Perm (listed ch user .events f) :=
    hexact.2 (unsplit_of_nodup _ (ch.nodup_matching hdistinct user.tenantId f.asked .eventTypes))
  have hlist : Follows (listPage ch user .events f)
      (Option.map (fun t => String.ofList (intText t)) none) (rows.map .ofEvent) := by
    refine Follows.map (P := Tasks.IsI64)
      (fun c p hp n hn => ?_) (fun c p hc hp => ?_) (fun n hn => by cases hn) hfollows
    · obtain rfl := Except.ok.inj hp
      obtain ⟨r, hr, rfl⟩ := mem_nextCursor_cut hn
      have hr := ch.newestFirst.mem_sort.1 (List.mem_of_mem_take hr)
      rw [← Views.filter_beforeCursor] at hr
      exact ch.isI64_matching (List.mem_of_mem_filter hr)
    · obtain rfl := Except.ok.inj hp
      have hpage := ch.taskPage_eq hpermit (queryParams f none) hc
      rw [applied_queryParams, pageSize_queryParams] at hpage
      rw [listPage_events, hpage]
      simp [Except.map, Page.map, listed, ViewMode.rowScope]
  refine ⟨rows.map .ofEvent, hlist, fun r hr => ?_, fun e he => ?_, fun _ => hperm.map _⟩
  · obtain ⟨e, he, rfl⟩ := List.mem_map.1 hr
    exact ⟨e, hperm.mem_iff.1 he, rfl⟩
  · exact ⟨_, List.mem_map_of_mem (hperm.mem_iff.2 he), rfl⟩

theorem lists_tasks (hpermit : checkPermission user "tasks_read" = .ok ())
    (hdistinct : (ch.taskEvents.map millis).Nodup) (hview : view ≠ .events) (f : UrlFilters) :
    ∃ out, Lists ch user view f out := by
  have hlisted : listed ch user view f = ch.matching user.tenantId f.asked .states := by
    cases view with
    | events => exact absurd rfl hview
    | _ => rfl
  obtain ⟨rows, hfollows, hcovers, -⟩ := follows_newestPage (ε := AppError) (κ := String)
    ch.newestFirst (show 0 < TASKS_LIMIT by decide)
    (ch.nodup_matching hdistinct user.tenantId f.asked .states) none
  have hread : ∀ (c : Option Int), ∀ r ∈ firstOfEach (·.taskId) (ch.newestFirst.sort
      (below millis c (ch.matching user.tenantId f.asked .states))),
      r ∈ ch.matching user.tenantId f.asked .states := by
    intro c r hr
    have hr := ch.newestFirst.mem_sort.1 ((firstOfEach_sublist _ _).subset hr)
    rw [← Views.filter_beforeCursor] at hr
    exact List.mem_of_mem_filter hr
  have hrows : ∀ r ∈ rows, r ∈ ch.matching user.tenantId f.asked .states :=
    hfollows.forall_mem fun c p hp r hr => by
      obtain rfl := Except.ok.inj hp
      exact hread c r (List.mem_of_mem_take (List.mem_of_mem_take hr))
  have hlist : Follows (listPage ch user view f)
      (Option.map (fun t => String.ofList (intText t)) none) (rows.map .ofEvent) := by
    refine Follows.map (P := Tasks.IsI64)
      (fun c p hp n hn => ?_) (fun c p hc hp => ?_) (fun n hn => by cases hn) hfollows
    · obtain rfl := Except.ok.inj hp
      obtain ⟨r, hr, rfl⟩ := mem_nextCursor_cut hn
      exact ch.isI64_matching (hread c r (List.mem_of_mem_take hr))
    · obtain rfl := Except.ok.inj hp
      have hpage := ch.summaryPage_eq hpermit (queryParams f none) hc
      rw [applied_queryParams, pageSize_queryParams] at hpage
      rw [listPage_tasks ch user hview, hpage]
      simp [Except.map, Page.map, Function.comp_def]
  refine ⟨rows.map .ofEvent, hlist, fun r hr => ?_, fun e he => ?_, fun h => absurd h hview⟩
  · obtain ⟨e, he, rfl⟩ := List.mem_map.1 hr
    exact ⟨e, hlisted ▸ hrows e he, rfl⟩
  · obtain ⟨r, hr, htask⟩ := hcovers e (hlisted ▸ he)
    exact ⟨_, List.mem_map_of_mem hr, htask⟩

/-- **The list comes to an end**, with what it is about. -/
theorem exists_lists (hpermit : checkPermission user "tasks_read" = .ok ())
    (hdistinct : (ch.taskEvents.map millis).Nodup) (view : ViewMode) (f : UrlFilters) :
    ∃ out, Lists ch user view f out := by
  by_cases hview : view = .events
  · exact hview ▸ lists_events hpermit hdistinct f
  · exact lists_tasks hpermit hdistinct hview f

end

/-! ### The page -/

structure TasksPage where
  view : ViewMode
  filters : UrlFilters
  cursor : Option String
  cursorStack : List String
  /-- The answer to the query as it is now, once it is there. -/
  data : Option Listing
  /-- A map by task id. -/
  selected : List (String × TaskRow)

namespace TasksPage

/-- The number that is shown. -/
def page (s : TasksPage) : Nat := s.cursorStack.length + 1

def tasks (s : TasksPage) : List TaskRow := (s.data.map (·.data)).getD []

/-- The page as it opens. -/
def opened (f : UrlFilters) : TasksPage :=
  { view := .summary, filters := f, cursor := none, cursorStack := [], data := none,
    selected := [] }

/-- A state that was set: if the query is another one, its answer is yet to come, and the selection
is dropped. -/
def settle (old new : TasksPage) : TasksPage :=
  if new.view = old.view ∧
      queryParams new.filters new.cursor = queryParams old.filters old.cursor then new
  else { new with data := none, selected := [] }

def handleNextPage (s : TasksPage) (nextCursor : Option String) : TasksPage :=
  match nextCursor.filter (· != "") with
  | none => s
  | some next =>
    s.settle { s with cursor := some next, cursorStack := s.cursorStack ++ [s.cursor.getD ""] }

def handlePrevPage (s : TasksPage) : TasksPage :=
  s.settle
    { s with
      cursor := s.cursorStack.getLast?.filter (· != "")
      cursorStack := s.cursorStack.dropLast }

/-- What a change of the filters or of the view starts with. -/
def setParams (s : TasksPage) (f : UrlFilters) : TasksPage :=
  s.settle { s with filters := f, cursor := none, cursorStack := [] }

def changeView (s : TasksPage) (mode : ViewMode) : TasksPage :=
  s.settle { s with view := mode, cursor := none, cursorStack := [] }

def toggleRow (s : TasksPage) (row : TaskRow) : TasksPage :=
  { s with
    selected :=
      if s.selected.any (·.1 == row.taskId) then s.selected.filter (·.1 != row.taskId)
      else put row.taskId row s.selected }

def toggleAll (s : TasksPage) : TasksPage :=
  let allOn := !s.tasks.isEmpty && s.tasks.all fun t => s.selected.any (·.1 == t.taskId)
  { s with
    selected := s.tasks.foldl
      (fun m t => if allOn then m.filter (·.1 != t.taskId) else put t.taskId t m) s.selected }

inductive Action where
  /-- An answer to the query as it is now, the first one or a later one. -/
  | answered (listing : Listing)
  | next
  | prev
  | setParams (f : UrlFilters)
  /-- The URL changes by a link, or by the history of the browser. -/
  | navigate (f : UrlFilters)
  | changeView (mode : ViewMode)
  | toggleRow (i : Nat)
  | toggleAll
  /-- The bar of the selection, or a bulk action that is over. -/
  | clearSelection

/-- The buttons of the list are there with the list. -/
def step (s : TasksPage) : Action → TasksPage
  | .answered listing => { s with data := some listing }
  | .next =>
    match s.data with
    | some listing => if listing.hasMore then s.handleNextPage listing.nextCursor else s
    | none => s
  | .prev => if s.data.isSome ∧ 1 < s.page then s.handlePrevPage else s
  | .setParams f => s.setParams f
  | .navigate f => s.settle { s with filters := f }
  | .changeView mode => s.changeView mode
  | .toggleRow i =>
    match s.tasks[i]? with
    | some row => s.toggleRow row
    | none => s
  | .toggleAll => s.toggleAll
  | .clearSelection => { s with selected := [] }

/-- The server answers what is asked, and the URL changes on the first page only. -/
def Usual (ch : ClickHouse) (user : CurrentUser) (s : TasksPage) : Action → Prop
  | .answered listing => answer ch user s.view (queryParams s.filters s.cursor) = .ok listing
  | .navigate _ => s.cursor = none ∧ s.cursorStack = []
  | _ => True

/-! ### What the page shows -/

/-- Each cursor is that of its page, and what is shown and selected is of the page. -/
structure Placed (ch : ClickHouse) (user : CurrentUser) (s : TasksPage) : Prop where
  reached : Reached (listPage ch user s.view s.filters) s.cursorStack.length s.cursor
  stack : ∀ i c, s.cursorStack[i]? = some c →
    Reached (listPage ch user s.view s.filters) i (some c |>.filter (· != ""))
  cursor : s.cursor ≠ some ""
  data : ∀ d, s.data = some d → answer ch user s.view (queryParams s.filters s.cursor) = .ok d
  selected : ∀ e ∈ s.selected, e.2 ∈ s.tasks

section

variable {ch : ClickHouse} {user : CurrentUser} {s : TasksPage}

theorem placed_opened (ch : ClickHouse) (user : CurrentUser) (f : UrlFilters) :
    Placed ch user (opened f) where
  reached := .first
  stack := by simp [opened]
  cursor := by simp [opened]
  data := by simp [opened]
  selected := by simp [opened]

/-- A state that was set is placed if its cursors are. -/
theorem Placed.settle (h : Placed ch user s) {new : TasksPage}
    (hreached : Reached (listPage ch user new.view new.filters) new.cursorStack.length new.cursor)
    (hstack : ∀ i c, new.cursorStack[i]? = some c →
      Reached (listPage ch user new.view new.filters) i (some c |>.filter (· != "")))
    (hcursor : new.cursor ≠ some "") (hdata : new.data = s.data)
    (hselected : new.selected = s.selected) : Placed ch user (s.settle new) := by
  unfold TasksPage.settle
  split
  · rename_i hsame
    obtain ⟨hview, hquery⟩ := hsame
    refine ⟨hreached, hstack, hcursor, fun d hd => ?_, fun e he => ?_⟩
    · rw [hview, hquery]
      exact h.data d (hdata ▸ hd)
    · rw [hselected] at he
      have hmem := h.selected e he
      rwa [tasks, ← hdata] at hmem
  · exact ⟨hreached, hstack, hcursor, by simp, by simp⟩

theorem mem_put {m : List (String × TaskRow)} {id : String} {row : TaskRow} {e : String × TaskRow}
    (h : e ∈ put id row m) : e ∈ m ∨ e.2 = row := by
  rcases List.mem_append.1 h with h | h
  · exact .inl (List.mem_of_mem_filter h)
  · rw [List.mem_singleton.1 h]
    exact .inr rfl

theorem Placed.select (h : Placed ch user s) {selected : List (String × TaskRow)}
    (hselected : ∀ e ∈ selected, e.2 ∈ s.tasks) : Placed ch user { s with selected } :=
  ⟨h.reached, h.stack, h.cursor, h.data, hselected⟩

theorem Placed.toggleRow (h : Placed ch user s) {row : TaskRow} (hrow : row ∈ s.tasks) :
    Placed ch user (s.toggleRow row) := by
  refine h.select fun e he => ?_
  split at he
  · exact h.selected e (List.mem_of_mem_filter he)
  · rcases mem_put he with he | rfl
    · exact h.selected e he
    · exact hrow

theorem Placed.toggleAll (h : Placed ch user s) : Placed ch user s.toggleAll := by
  refine h.select ?_
  refine foldl_invariant (fun m : List (String × TaskRow) => ∀ e ∈ m, e.2 ∈ s.tasks) ?_ h.selected
  intro m t ht hm e he
  split at he
  · exact hm e (List.mem_of_mem_filter he)
  · rcases mem_put he with he | rfl
    · exact hm e he
    · exact ht

theorem Placed.handleNextPage (h : Placed ch user s) {listing : Listing}
    (hdata : s.data = some listing) (hmore : listing.hasMore = true) :
    Placed ch user (s.handleNextPage listing.nextCursor) := by
  unfold TasksPage.handleNextPage
  cases hnext : listing.nextCursor.filter (· != "") with
  | none => exact h
  | some next =>
      obtain ⟨hcursor, hne⟩ := Option.filter_eq_some_iff.1 hnext
      have hpage : listPage ch user s.view s.filters s.cursor =
          .ok ⟨listing.data, true, some next⟩ := by
        simp [listPage, h.data listing hdata, Except.map, hmore, hcursor]
      have hown : (some (s.cursor.getD "")).filter (· != "") = s.cursor := by
        have hc := h.cursor
        cases hcursor : s.cursor with
        | none => rfl
        | some c =>
            have hne : c ≠ "" := fun hempty => hc (by rw [hcursor, hempty])
            simp [hne]
      refine h.settle ?_ (fun i c hi => ?_) (by simpa using hne) rfl rfl
      · rw [List.length_append]
        exact .next h.reached hpage
      · rcases Nat.lt_trichotomy i s.cursorStack.length with hlt | rfl | hgt
        · rw [List.getElem?_append_left hlt] at hi
          exact h.stack i c hi
        · obtain rfl : s.cursor.getD "" = c := by simpa using hi
          rw [hown]
          exact h.reached
        · rw [List.getElem?_eq_none (by rw [List.length_append]; exact hgt)] at hi
          cases hi

theorem Placed.handlePrevPage (h : Placed ch user s) (hpage : 1 < s.page) :
    Placed ch user s.handlePrevPage := by
  have hne : s.cursorStack ≠ [] := by
    intro hnil
    simp [page, hnil] at hpage
  have hlast : s.cursorStack[s.cursorStack.length - 1]? = s.cursorStack.getLast? :=
    List.getLast?_eq_getElem?.symm
  obtain ⟨c, hc⟩ : ∃ c, s.cursorStack.getLast? = some c :=
    ⟨_, List.getLast?_eq_some_getLast hne⟩
  refine h.settle ?_ (fun i c hi => ?_) ?_ rfl rfl
  · rw [List.length_dropLast, hc]
    exact h.stack _ c (hlast.trans hc)
  · have hi' : s.cursorStack[i]? = some c := by
      rw [List.getElem?_dropLast] at hi
      split at hi
      · exact hi
      · cases hi
    exact h.stack i c hi'
  · rw [hc]
    by_cases hempty : c = "" <;> simp [hempty]

/-- **Every step stays in its place.** -/
theorem placed_step (ch : ClickHouse) (user : CurrentUser) (s : TasksPage) (a : Action)
    (h : Placed ch user s) (hok : s.Usual ch user a) : Placed ch user (s.step a) := by
  cases a with
  | answered listing =>
      have hanswer : answer ch user s.view (queryParams s.filters s.cursor) = .ok listing := hok
      refine ⟨h.reached, h.stack, h.cursor, fun d hd => ?_, fun e he => ?_⟩
      · obtain rfl := Option.some.inj hd
        exact hanswer
      · -- the same query has the same answer
        have hmem := h.selected e he
        cases hdata : s.data with
        | none => simp [tasks, hdata] at hmem
        | some d =>
            obtain rfl := Except.ok.inj ((h.data d hdata).symm.trans hanswer)
            simpa [tasks, hdata, step] using hmem
  | next =>
      simp only [step]
      cases hdata : s.data with
      | none => exact h
      | some listing =>
          dsimp only
          split
          · exact h.handleNextPage hdata ‹_›
          · exact h
  | prev =>
      simp only [step]
      split
      · rename_i hprev
        exact h.handlePrevPage hprev.2
      · exact h
  | setParams f => exact h.settle .first (by simp) (by simp) rfl rfl
  | navigate f =>
      obtain ⟨hcursor, hstack⟩ := hok
      refine h.settle ?_ (by simp [hstack]) h.cursor rfl rfl
      simp only [hcursor, hstack]
      exact .first
  | changeView mode => exact h.settle .first (by simp) (by simp) rfl rfl
  | toggleRow i =>
      simp only [step]
      cases hrow : s.tasks[i]? with
      | none => exact h
      | some row => exact h.toggleRow (List.mem_of_getElem? hrow)
  | toggleAll => exact h.toggleAll
  | clearSelection => exact h.select (by simp)

theorem total_answer {params : TaskListParams} {d : Listing} (hcount : params.count = some true)
    (h : answer ch user .events params = .ok d) :
    d.total = some (ch.matching user.tenantId params.applied .eventTypes).length := by
  unfold answer ClickHouse.listTasks at h
  cases hpermit : checkPermission user "tasks_read" with
  | error e => simp [hpermit, Except.map] at h
  | ok =>
      simp only [hpermit, Except.map, Except.ok.injEq] at h
      subst h
      simp only [hcount, Option.getD_some, if_true]
      rfl

end

/-- An event each second, one more than a page. -/
def manyEvents : ClickHouse :=
  Views.sampleDb
    ((List.range 51).map fun i : Nat => Views.sampleEvent (toString i) (1000 * (i + 1 : Nat))) (by
      intro row hrow
      obtain ⟨i, hi, rfl⟩ := List.mem_map.1 hrow
      have hlt := List.mem_range.1 hi
      simp only [millis, Views.sampleEvent, Tasks.IsI64]
      omega)

def allEvents : UrlFilters :=
  { state := none, taskName := none, queue := none, workerId := none, search := none,
    errorsOnly := none, sinceMs := 0, untilMs := none }

def answerOr (r : Except AppError Listing) : Listing :=
  match r with
  | .ok listing => listing
  | .error _ => ⟨[], false, none, none⟩

theorem eq_answerOr {r : Except AppError Listing} (h : r.toBool = true) : r = .ok (answerOr r) := by
  cases r with
  | error e => cases h
  | ok listing => rfl

/-- What is answered for a cursor. -/
def eventsFrom (cursor : Option String) : Except AppError Listing :=
  answer manyEvents Views.sampleUser .events (queryParams allEvents cursor)

/-- The first row is selected, and the second page opened. -/
def turnPage : List Action :=
  [.changeView .events, .answered (answerOr (eventsFrom none)), .toggleRow 0, .next,
    .answered (answerOr (eventsFrom (some "2000")))]

end TasksPage

end Feloxi.Web
