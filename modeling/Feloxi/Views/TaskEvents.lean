import Feloxi.Lib.Queries
import Feloxi.Pipeline.Events
import Feloxi.Tasks.ReadBack

/-!
# Feloxi.Views.TaskEvents

The `task_events` table and the filters of its lists (`append_task_where` in
`crates/db/src/clickhouse/task_events.rs`).
-/

namespace Feloxi.Views

open Pipeline (TaskEventRow)
open Queries
open Tasks (IsI64)

/-! ### The table -/

/-- The timestamp as the table holds it, `DateTime64(3)`. -/
def millis (row : TaskEventRow) : Int := row.timestamp / 10 ^ 6

/-- The database as the lists read it: queries succeed. -/
structure ClickHouse where
  taskEvents : List TaskEventRow
  /-- `now()`, a `DateTime` in seconds. -/
  now : Int
  /-- `ORDER BY timestamp DESC`. -/
  newestFirst : OrderBy fun row => -millis row
  /-- `ORDER BY timestamp ASC`. -/
  oldestFirst : OrderBy millis
  inRange : ∀ row ∈ taskEvents, IsI64 (millis row)

/-- `positionCaseInsensitive(haystack, needle) > 0`: only ASCII letters are folded. -/
def containsCaseInsensitive (haystack needle : String) : Bool :=
  decide (needle.toList.map Char.toLower <:+: haystack.toList.map Char.toLower)

/-! ### Filters -/

def DEFAULT_WINDOW_HOURS : Int := 24

/-- `TASK_EVENT_TYPES_IN`. -/
def TASK_EVENT_TYPES : List String :=
  ["task-succeeded", "task-failed", "task-started", "task-received", "task-sent", "task-retried",
    "task-revoked"]

/-- `TASK_STATES_IN`. -/
def TASK_STATES : List String :=
  ["PENDING", "RECEIVED", "STARTED", "SUCCESS", "FAILURE", "RETRY", "REVOKED", "REJECTED"]

/-- Which rows a list is about: `TASK_EVENT_TYPES_IN` or `TASK_STATES_IN`. -/
inductive RowScope where
  | eventTypes
  | states
  deriving Repr, DecidableEq

def RowScope.holds (scope : RowScope) (row : TaskEventRow) : Bool :=
  match scope with
  | .eventTypes => TASK_EVENT_TYPES.contains row.eventType
  | .states => TASK_STATES.contains row.state

structure TaskFilters where
  taskName : Option String
  states : Option (List String)
  queue : Option String
  workerId : Option String
  search : Option String
  errorsOnly : Option Bool
  sinceMs : Option Int
  untilMs : Option Int
  requireTaskName : Option Bool
  deriving Repr, DecidableEq

/-- An empty list of states is no filter. -/
def TaskFilters.activeStates (filters : TaskFilters) : Option (List String) :=
  filters.states.filter fun states => !states.isEmpty

/-- A condition that is only there if the filter is set. -/
def given {α : Type} (filter : Option α) (cond : α → Bool) : Bool :=
  match filter with
  | none => true
  | some x => cond x

/-- The text that `search` looks through. -/
def searchText (row : TaskEventRow) : String :=
  " ".intercalate [row.taskId, row.taskName, row.args, row.kwargs, row.result, row.exception]

/-- `append_task_where`: the condition on a row. -/
def taskWhere (now : Int) (tenantId : Uuid) (filters : TaskFilters) (rowScope : RowScope)
    (row : TaskEventRow) : Bool :=
  row.tenantId == tenantId &&
    (match filters.sinceMs with
      | some ms => decide (ms ≤ millis row)
      | none => decide ((now - DEFAULT_WINDOW_HOURS * 3600) * 1000 ≤ millis row)) &&
    given filters.untilMs (fun ms => decide (millis row ≤ ms)) &&
    rowScope.holds row &&
    given filters.taskName (containsCaseInsensitive row.taskName) &&
    given filters.activeStates (·.contains row.state) &&
    given filters.queue (row.queue == ·) &&
    given filters.workerId (row.workerId == ·) &&
    (if filters.errorsOnly = some true then row.exception != "" else true) &&
    (if filters.requireTaskName = some true then row.taskName != "" else true) &&
    given filters.search (containsCaseInsensitive (searchText row))

/-- The rows of the table that a list is about. -/
def ClickHouse.matching (ch : ClickHouse) (tenantId : Uuid) (filters : TaskFilters)
    (rowScope : RowScope) : List TaskEventRow :=
  ch.taskEvents.filter (taskWhere ch.now tenantId filters rowScope)

/-- ` AND timestamp < fromUnixTimestamp64Milli(..)`, if there is a cursor. -/
def beforeCursor (cursorMs : Option Int) (row : TaskEventRow) : Bool :=
  given cursorMs fun ms => decide (millis row < ms)

end Feloxi.Views
