import Feloxi.Lib.Placeholders
import Feloxi.Views.TaskEvents

/-!
# Feloxi.Views.SqlBinds

The texts of the four task queries and the values bound to them (`append_task_where` and
`bind_task_filters` in `crates/db/src/clickhouse/task_events.rs`, and the queries of
`aggregations.rs` that share them). Two functions go through the filters, in one order.
-/

namespace Feloxi.Views

open Placeholders

/-! ### Texts -/

def TASK_NAME_NOT_EMPTY : String := " AND task_name != ''"

def TASK_EVENT_TYPES_IN : String :=
  " AND event_type IN ('task-succeeded', " ++ "'task-failed', 'task-started', " ++
    "'task-received', 'task-sent', " ++ "'task-retried', 'task-revoked')"

def TASK_STATES_IN : String :=
  " AND state IN ('PENDING', 'RECEIVED', " ++ "'STARTED', 'SUCCESS', 'FAILURE', " ++
    "'RETRY', 'REVOKED', 'REJECTED')"

/-- A text that is pushed if the filter is set. -/
def pushed {α : Type} (filter : Option α) (text : String) : String :=
  if filter.isSome then text else ""

/-- `for i in 0..n`: a comma in front of every `?` but the first. -/
def marks (n : Nat) : String :=
  String.join ((List.range n).map fun i => (if i > 0 then "," else "") ++ "?")

/-- The filter by states. -/
def statesWhere : Option (List String) → String
  | some states => " AND state IN (" ++ marks states.length ++ ")"
  | none => ""

def appendTaskWhere (query : String) (filters : TaskFilters) (rowScope : String) : String :=
  query ++ " WHERE tenant_id = ?" ++
    (if filters.sinceMs.isSome then " AND timestamp >= fromUnixTimestamp64Milli(toInt64(?))"
      else s!" AND timestamp >= now() - toIntervalHour({DEFAULT_WINDOW_HOURS})") ++
    pushed filters.untilMs " AND timestamp <= fromUnixTimestamp64Milli(toInt64(?))" ++
    rowScope ++
    pushed filters.taskName " AND positionCaseInsensitive(CAST(task_name AS String), ?) > 0" ++
    statesWhere filters.activeStates ++
    pushed filters.queue " AND queue = ?" ++
    pushed filters.workerId " AND worker_id = ?" ++
    (if filters.errorsOnly = some true then " AND exception != ''" else "") ++
    (if filters.requireTaskName = some true then TASK_NAME_NOT_EMPTY else "") ++
    pushed filters.search
      (" AND positionCaseInsensitive(concat(" ++ "task_id, ' ', CAST(task_name AS String), " ++
        "' ', args, ' ', kwargs, ' ', result, " ++ "' ', exception),?) > 0")

/-! ### Values -/

/-- A value, of the type that it is bound with. -/
inductive Bind where
  | uuid (id : Uuid)
  | i64 (ms : Int)
  | str (s : String)
  | u64 (n : Nat)
  deriving Repr, DecidableEq

def bindTaskFilters (q : List Bind) (tenantId : Uuid) (filters : TaskFilters) : List Bind :=
  q ++ [.uuid tenantId] ++
    (filters.sinceMs.map Bind.i64).toList ++
    (filters.untilMs.map Bind.i64).toList ++
    (filters.taskName.map Bind.str).toList ++
    (filters.activeStates.getD []).map Bind.str ++
    (filters.queue.map Bind.str).toList ++
    (filters.workerId.map Bind.str).toList ++
    (filters.search.map Bind.str).toList

/-! ### Queries -/

structure Query where
  sql : String
  binds : List Bind
  deriving Repr, DecidableEq

def countTaskEvents (tenantId : Uuid) (filters : TaskFilters) : Query where
  sql := appendTaskWhere "SELECT count() FROM task_events" filters TASK_EVENT_TYPES_IN
  binds := bindTaskFilters [] tenantId filters

/-- ` AND timestamp < ..`, if there is a cursor. -/
def cursorWhere (cursorMs : Option Int) : String :=
  pushed cursorMs " AND timestamp < fromUnixTimestamp64Milli(toInt64(?))"

def selectTaskEvents : String :=
  "SELECT tenant_id, event_id, task_id, " ++ "CAST(task_name AS String) AS task_name, " ++
    "CAST(queue AS String) AS queue, " ++ "worker_id, CAST(state AS String) AS state, " ++
    "CAST(event_type AS String) AS event_type, " ++ "timestamp, args, kwargs, result, " ++
    "exception, traceback, runtime, retries, " ++ "root_id, parent_id, group_id, " ++
    "chord_id, agent_id, CAST(broker_type " ++ "AS String) AS broker_type FROM task_events"

def queryTaskEvents (tenantId : Uuid) (limit : Nat) (filters : TaskFilters)
    (cursorMs : Option Int) : Query where
  sql := appendTaskWhere selectTaskEvents filters TASK_EVENT_TYPES_IN ++
    cursorWhere cursorMs ++ " ORDER BY timestamp DESC LIMIT ?"
  binds := bindTaskFilters [] tenantId filters ++ (cursorMs.map Bind.i64).toList ++ [.u64 limit]

def countTaskSummary (tenantId : Uuid) (filters : TaskFilters) : Query where
  sql := appendTaskWhere "SELECT countDistinct(task_id) FROM task_events" filters TASK_STATES_IN
  binds := bindTaskFilters [] tenantId filters

def selectTaskSummary : String :=
  "SELECT
            task_id,
" ++ "            CAST(task_name AS String) AS task_name,
" ++ "            CAST(queue AS String) AS queue,
" ++ "            worker_id,
" ++ "            CAST(state AS String) AS state,
" ++ "            timestamp,
            runtime,
" ++ "            retries,
            exception,
" ++ "            0.0 AS wait_seconds
" ++ "        FROM task_events"

def getTaskSummary (tenantId : Uuid) (limit : Nat) (filters : TaskFilters)
    (cursorMs : Option Int) : Query where
  sql := appendTaskWhere selectTaskSummary filters TASK_STATES_IN ++
    cursorWhere cursorMs ++ " ORDER BY timestamp DESC LIMIT 1 BY task_id LIMIT ?"
  binds := bindTaskFilters [] tenantId filters ++ (cursorMs.map Bind.i64).toList ++ [.u64 limit]

/-! ### What a `?` stands for -/

/-- The value that belongs to a `?`, as the text in front of it says: the column and the comparison,
and among the states how many stand before it. -/
inductive Meant (tenantId : Uuid) (filters : TaskFilters) (cursorMs : Option Int)
    (limit : Option Nat) (before : List Char) : Bind → Prop where
  | tenantId (h : " WHERE tenant_id = ".toList <:+ before) :
    Meant tenantId filters cursorMs limit before (.uuid tenantId)
  | sinceMs {ms : Int} (hms : filters.sinceMs = some ms)
    (h : " AND timestamp >= fromUnixTimestamp64Milli(toInt64(".toList <:+ before) :
    Meant tenantId filters cursorMs limit before (.i64 ms)
  | untilMs {ms : Int} (hms : filters.untilMs = some ms)
    (h : " AND timestamp <= fromUnixTimestamp64Milli(toInt64(".toList <:+ before) :
    Meant tenantId filters cursorMs limit before (.i64 ms)
  | taskName {name : String} (hname : filters.taskName = some name)
    (h : " AND positionCaseInsensitive(CAST(task_name AS String), ".toList <:+ before) :
    Meant tenantId filters cursorMs limit before (.str name)
  | state {states : List String} {i : Nat} {state : String} (hstates : filters.states = some states)
    (hstate : states[i]? = some state)
    (h : " AND state IN (".toList ++ (List.replicate i ['?', ',']).flatten <:+ before) :
    Meant tenantId filters cursorMs limit before (.str state)
  | queue {name : String} (hname : filters.queue = some name)
    (h : " AND queue = ".toList <:+ before) :
    Meant tenantId filters cursorMs limit before (.str name)
  | workerId {id : String} (hid : filters.workerId = some id)
    (h : " AND worker_id = ".toList <:+ before) :
    Meant tenantId filters cursorMs limit before (.str id)
  | search {text : String} (htext : filters.search = some text)
    (h : (" AND positionCaseInsensitive(concat(" ++ "task_id, ' ', CAST(task_name AS String), " ++
      "' ', args, ' ', kwargs, ' ', result, " ++ "' ', exception),").toList <:+ before) :
    Meant tenantId filters cursorMs limit before (.str text)
  | cursorMs {ms : Int} (hms : cursorMs = some ms)
    (h : " AND timestamp < fromUnixTimestamp64Milli(toInt64(".toList <:+ before) :
    Meant tenantId filters cursorMs limit before (.i64 ms)
  | limit {n : Nat} (hn : limit = some n) (h : " LIMIT ".toList <:+ before) :
    Meant tenantId filters cursorMs limit before (.u64 n)

variable {tenantId : Uuid} {filters : TaskFilters} {cursorMs : Option Int} {limit : Option Nat}

theorem local_meant : Local (Meant tenantId filters cursorMs limit) := by
  intro start before v h
  have hlonger : ∀ {s : List Char}, s <:+ before → s <:+ start ++ before :=
    fun hs => hs.trans (List.suffix_append start before)
  cases h with
  | tenantId h => exact .tenantId (hlonger h)
  | sinceMs hms h => exact .sinceMs hms (hlonger h)
  | untilMs hms h => exact .untilMs hms (hlonger h)
  | taskName hname h => exact .taskName hname (hlonger h)
  | state hstates hstate h => exact .state hstates hstate (hlonger h)
  | queue hname h => exact .queue hname (hlonger h)
  | workerId hid h => exact .workerId hid (hlonger h)
  | search htext h => exact .search htext (hlonger h)
  | cursorMs hms h => exact .cursorMs hms (hlonger h)
  | limit hn h => exact .limit hn (hlonger h)

/-! ### Parts -/

/-- `text` and the values of its `?`. -/
def Agrees (tenantId : Uuid) (filters : TaskFilters) (cursorMs : Option Int) (limit : Option Nat)
    (text : String) (values : List Bind) : Prop :=
  Fills (Meant tenantId filters cursorMs limit) text.toList values

theorem not_mem_append {s t : String} (hs : '?' ∉ s.toList) (ht : '?' ∉ t.toList) :
    '?' ∉ (s ++ t).toList := by
  rw [String.toList_append, List.mem_append]
  exact not_or.2 ⟨hs, ht⟩

theorem agrees_of_not_mem {text : String} (h : '?' ∉ text.toList) :
    Agrees tenantId filters cursorMs limit text [] := .of_not_mem h

theorem Agrees.append {s t : String} {vs ws : List Bind}
    (hs : Agrees tenantId filters cursorMs limit s vs)
    (ht : Agrees tenantId filters cursorMs limit t ws) :
    Agrees tenantId filters cursorMs limit (s ++ t) (vs ++ ws) := by
  rw [Agrees, String.toList_append]
  exact Fills.append local_meant hs ht

/-- A part without a value. -/
theorem Agrees.text {s t : String} {vs : List Bind}
    (hs : Agrees tenantId filters cursorMs limit s vs) (ht : '?' ∉ t.toList) :
    Agrees tenantId filters cursorMs limit (s ++ t) vs := by
  have happend := hs.append (agrees_of_not_mem ht)
  rwa [List.append_nil] at happend

/-- A part with one value. -/
theorem agrees_mark {text : String} {v : Bind} (before behind : String)
    (htext : text = before ++ "?" ++ behind) (hbefore : '?' ∉ before.toList)
    (hbehind : '?' ∉ behind.toList) (h : Meant tenantId filters cursorMs limit before.toList v) :
    Agrees tenantId filters cursorMs limit text [v] := by
  have hsingle := Fills.single hbefore hbehind h
  rw [Agrees, htext]
  simpa using hsingle

/-- A part with the value of a filter. -/
theorem agrees_pushed {α : Type} {filter : Option α} {bind : α → Bind} {text : String}
    (h : ∀ a, filter = some a → Agrees tenantId filters cursorMs limit text [bind a]) :
    Agrees tenantId filters cursorMs limit (pushed filter text) (filter.map bind).toList := by
  cases filter with
  | none => exact agrees_of_not_mem (by simp [pushed])
  | some a => exact h a rfl

theorem marks_succ (n : Nat) : marks (n + 1) = marks n ++ ((if n > 0 then "," else "") ++ "?") := by
  simp [marks, List.range_succ]

/-- What stands in front of a `?` among the states. -/
theorem marks_lead (n : Nat) : (marks n).toList ++ (if n > 0 then "," else "").toList =
    (List.replicate n ['?', ',']).flatten := by
  induction n with
  | zero => rfl
  | succ n ih =>
      rw [List.replicate_succ', List.flatten_append, ← ih, marks_succ]
      simp

theorem agrees_states {states : List String} (hstates : filters.states = some states) :
    Agrees tenantId filters cursorMs limit (" AND state IN (" ++ marks states.length ++ ")")
      (states.map Bind.str) := by
  have hmarks : ∀ n ≤ states.length, Fills (Meant tenantId filters cursorMs limit)
      (" AND state IN (".toList ++ (marks n).toList) ((states.take n).map Bind.str) := by
    intro n hn
    induction n with
    | zero => exact .of_not_mem (by simp [marks])
    | succ n ih =>
        have hstate : states[n]? = some states[n] := List.getElem?_eq_getElem (by omega)
        have hsep : '?' ∉ (if n > 0 then "," else "").toList := by split <;> simp
        have hmeant : Meant tenantId filters cursorMs limit
            (" AND state IN (".toList ++ (marks n).toList ++ (if n > 0 then "," else "").toList)
            (.str states[n]) := by
          refine .state hstates hstate ?_
          rw [List.append_assoc, marks_lead]
        have hnext := (ih (by omega)).snoc hsep hmeant
        have hmark : "?".toList = ['?'] := rfl
        rw [List.take_succ_eq_append_getElem (by omega), marks_succ, String.toList_append,
          String.toList_append, hmark, List.map_append, List.map_singleton]
        simpa only [List.append_assoc] using hnext
  have hall := hmarks states.length (Nat.le_refl _)
  rw [List.take_length] at hall
  refine Agrees.text ?_ (by simp)
  rwa [Agrees, String.toList_append]

/-! ### Texts and values -/

theorem agrees_sinceMs : Agrees tenantId filters cursorMs limit
    (if filters.sinceMs.isSome then " AND timestamp >= fromUnixTimestamp64Milli(toInt64(?))"
      else s!" AND timestamp >= now() - toIntervalHour({DEFAULT_WINDOW_HOURS})")
    (filters.sinceMs.map Bind.i64).toList := by
  cases hms : filters.sinceMs with
  | none => exact agrees_of_not_mem (by decide +kernel)
  | some ms =>
      exact agrees_mark " AND timestamp >= fromUnixTimestamp64Milli(toInt64(" "))" (by simp)
        (by simp) (by simp) (.sinceMs hms (List.suffix_refl _))

theorem agrees_activeStates : Agrees tenantId filters cursorMs limit
    (statesWhere filters.activeStates) ((filters.activeStates.getD []).map Bind.str) := by
  cases hstates : filters.activeStates with
  | none => exact agrees_of_not_mem (by simp [statesWhere])
  | some states => exact agrees_states (Option.filter_eq_some_iff.1 hstates).1

theorem agrees_search : Agrees tenantId filters cursorMs limit
    (pushed filters.search
      (" AND positionCaseInsensitive(concat(" ++ "task_id, ' ', CAST(task_name AS String), " ++
        "' ', args, ' ', kwargs, ' ', result, " ++ "' ', exception),?) > 0"))
    (filters.search.map Bind.str).toList :=
  agrees_pushed fun text htext => agrees_mark
    (" AND positionCaseInsensitive(concat(" ++ "task_id, ' ', CAST(task_name AS String), " ++
      "' ', args, ' ', kwargs, ' ', result, " ++ "' ', exception),") ") > 0" (by simp)
    (not_mem_append (not_mem_append (not_mem_append (by simp) (by simp)) (by simp)) (by simp))
    (by simp) (.search htext (List.suffix_refl _))

/-- The two functions agree on every filter. -/
theorem agrees_appendTaskWhere {query rowScope : String} (hquery : '?' ∉ query.toList)
    (hscope : '?' ∉ rowScope.toList) : Agrees tenantId filters cursorMs limit
      (appendTaskWhere query filters rowScope) (bindTaskFilters [] tenantId filters) := by
  have htenant : Agrees tenantId filters cursorMs limit " WHERE tenant_id = ?" [.uuid tenantId] :=
    agrees_mark " WHERE tenant_id = " "" (by simp) (by simp) (by simp)
      (.tenantId (List.suffix_refl _))
  have huntil : Agrees tenantId filters cursorMs limit (pushed filters.untilMs
      " AND timestamp <= fromUnixTimestamp64Milli(toInt64(?))")
      (filters.untilMs.map Bind.i64).toList :=
    agrees_pushed fun ms hms => agrees_mark
      " AND timestamp <= fromUnixTimestamp64Milli(toInt64(" "))" (by simp) (by simp) (by simp)
      (.untilMs hms (List.suffix_refl _))
  have hname : Agrees tenantId filters cursorMs limit (pushed filters.taskName
      " AND positionCaseInsensitive(CAST(task_name AS String), ?) > 0")
      (filters.taskName.map Bind.str).toList :=
    agrees_pushed fun name hname => agrees_mark
      " AND positionCaseInsensitive(CAST(task_name AS String), " ") > 0" (by simp) (by simp)
      (by simp) (.taskName hname (List.suffix_refl _))
  have hqueue : Agrees tenantId filters cursorMs limit (pushed filters.queue " AND queue = ?")
      (filters.queue.map Bind.str).toList :=
    agrees_pushed fun name hname => agrees_mark " AND queue = " "" (by simp) (by simp) (by simp)
      (.queue hname (List.suffix_refl _))
  have hworker : Agrees tenantId filters cursorMs limit
      (pushed filters.workerId " AND worker_id = ?") (filters.workerId.map Bind.str).toList :=
    agrees_pushed fun id hid => agrees_mark " AND worker_id = " "" (by simp) (by simp) (by simp)
      (.workerId hid (List.suffix_refl _))
  have herrors : '?' ∉ (if filters.errorsOnly = some true then " AND exception != ''"
      else "").toList := by split <;> simp
  have hrequire : '?' ∉ (if filters.requireTaskName = some true then TASK_NAME_NOT_EMPTY
      else "").toList := by split <;> simp [TASK_NAME_NOT_EMPTY]
  -- the texts without a `?` stand between parts that come in one order on both sides
  exact ((((agrees_of_not_mem hquery).append htenant).append agrees_sinceMs).append huntil
    |>.text hscope |>.append hname |>.append agrees_activeStates |>.append hqueue
    |>.append hworker |>.text herrors |>.text hrequire).append agrees_search

theorem not_mem_selectTaskEvents : '?' ∉ selectTaskEvents.toList := by
  unfold selectTaskEvents
  refine not_mem_append (not_mem_append (not_mem_append (not_mem_append (not_mem_append
    (not_mem_append (not_mem_append (not_mem_append (not_mem_append ?_ ?_) ?_) ?_) ?_) ?_) ?_)
    ?_) ?_) ?_ <;> simp

theorem not_mem_selectTaskSummary : '?' ∉ selectTaskSummary.toList := by
  unfold selectTaskSummary
  refine not_mem_append (not_mem_append (not_mem_append (not_mem_append (not_mem_append
    (not_mem_append (not_mem_append (not_mem_append ?_ ?_) ?_) ?_) ?_) ?_) ?_) ?_) ?_ <;> simp

theorem not_mem_TASK_EVENT_TYPES_IN : '?' ∉ TASK_EVENT_TYPES_IN.toList := by
  unfold TASK_EVENT_TYPES_IN
  refine not_mem_append (not_mem_append (not_mem_append ?_ ?_) ?_) ?_ <;> simp

theorem not_mem_TASK_STATES_IN : '?' ∉ TASK_STATES_IN.toList := by
  unfold TASK_STATES_IN
  refine not_mem_append (not_mem_append ?_ ?_) ?_ <;> simp

theorem agrees_page {text last : String} {n : Nat} {vs : List Bind}
    (h : Agrees tenantId filters cursorMs (some n) text vs)
    (hlast : Agrees tenantId filters cursorMs (some n) last [.u64 n]) :
    Agrees tenantId filters cursorMs (some n) (text ++ cursorWhere cursorMs ++ last)
      (vs ++ (cursorMs.map Bind.i64).toList ++ [.u64 n]) := by
  have hcursor : Agrees tenantId filters cursorMs (some n) (cursorWhere cursorMs)
      (cursorMs.map Bind.i64).toList :=
    agrees_pushed fun ms hms => agrees_mark
      " AND timestamp < fromUnixTimestamp64Milli(toInt64(" "))" (by simp) (by simp) (by simp)
      (.cursorMs hms (List.suffix_refl _))
  exact (h.append hcursor).append hlast

/-- **Placeholders.** In each of the four queries there are as many `?` as values, and each value is
the one that the text in front of its `?` asks for. -/
theorem queries_agree (tenantId : Uuid) (filters : TaskFilters) (limit : Nat)
    (cursorMs : Option Int) :
    Agrees tenantId filters cursorMs (some limit)
        (queryTaskEvents tenantId limit filters cursorMs).sql
        (queryTaskEvents tenantId limit filters cursorMs).binds ∧
      Agrees tenantId filters none none (countTaskEvents tenantId filters).sql
        (countTaskEvents tenantId filters).binds ∧
      Agrees tenantId filters cursorMs (some limit)
        (getTaskSummary tenantId limit filters cursorMs).sql
        (getTaskSummary tenantId limit filters cursorMs).binds ∧
      Agrees tenantId filters none none (countTaskSummary tenantId filters).sql
        (countTaskSummary tenantId filters).binds := by
  refine ⟨agrees_page (agrees_appendTaskWhere not_mem_selectTaskEvents
      not_mem_TASK_EVENT_TYPES_IN) ?_,
    agrees_appendTaskWhere (by simp) not_mem_TASK_EVENT_TYPES_IN,
    agrees_page (agrees_appendTaskWhere not_mem_selectTaskSummary not_mem_TASK_STATES_IN) ?_,
    agrees_appendTaskWhere (by simp) not_mem_TASK_STATES_IN⟩
  · exact agrees_mark " ORDER BY timestamp DESC LIMIT " "" (by simp) (by simp) (by simp)
      (.limit rfl (by decide))
  · exact agrees_mark " ORDER BY timestamp DESC LIMIT 1 BY task_id LIMIT " "" (by simp) (by simp)
      (by simp) (.limit rfl (by decide))

end Feloxi.Views
