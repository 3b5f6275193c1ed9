import Feloxi.Lib.Doubles
import Feloxi.Lib.JsonValues
import Feloxi.Tasks.Retry
import Mathlib.Data.List.Sort

/-!
# Feloxi.Tasks.Resend

Retrying a retry. What `retry_task` publishes is recorded as JSON text, read by the page
(`apps/web/src/lib/task-actions.ts`), sent back, and read by the API once more. On the way
every number is a JavaScript number.
-/

namespace Feloxi.Tasks

open JsonText (Entries JsonTree Numeral)
open Pipeline (RawTaskEvent SerdeJson TaskEventRow normalizeTaskEvent strField)

/-! ### The record -/

/-- What the page reads of a task. -/
structure TaskView where
  taskName : String
  queue : String
  args : String
  kwargs : String
  deriving Repr, DecidableEq

/-- `argMaxIf(x, ts, x != '')`. -/
def latestText (text : TaskEventRow → String) (events : List TaskEventRow) : String :=
  let later (best : Option TaskEventRow) (e : TaskEventRow) : Option TaskEventRow :=
    match best with
    | none => some e
    | some b => if b.timestamp < e.timestamp then some e else some b
  (((events.filter fun e => text e != "").foldl later none).map text).getD ""

/-- The merged record of a task's events, as `get_task_latest` selects it. -/
def mergedTask (events : List TaskEventRow) : TaskView where
  taskName := latestText (·.taskName) events
  queue := latestText (·.queue) events
  args := latestText (·.args) events
  kwargs := latestText (·.kwargs) events

theorem latestText_one (text : TaskEventRow → String) (e : TaskEventRow) :
    latestText text [e] = text e := by
  by_cases h : text e = "" <;> simp [latestText, h]

/-! ### The page -/

/-- A JavaScript value, as far as JSON goes, with the properties of an object in the order of
its keys. -/
abbrev JsValue := JsonTree F64

/-- The number of a key that is an array index. -/
def arrayIndex (key : String) : Option Nat :=
  key.toNat?.filter fun n => toString n == key && n < 2 ^ 32 - 1

/-- Array indices come first, in ascending order. -/
def ownKeys {α : Type} (props : Entries α) : Entries α :=
  let indexed := props.filter fun e => (arrayIndex e.1).isSome
  let named := props.filter fun e => !(arrayIndex e.1).isSome
  indexed.insertionSort (fun a b => (arrayIndex a.1).getD 0 ≤ (arrayIndex b.1).getD 0) ++ named

/-- A property keeps its place when it is set again. -/
def setProperty {α : Type} (props : Entries α) (e : String × α) : Entries α :=
  if props.any (·.1 == e.1) then props.map fun f => if f.1 = e.1 then e else f else props ++ [e]

/-- The properties of an object that is read. -/
def properties {α : Type} (entries : Entries α) : Entries α :=
  ownKeys (entries.foldl setProperty [])

/-- How `JSON.stringify` writes a number. -/
def writeNumber (x : F64) : JsonTree Numeral :=
  match Doubles.numeral x with
  | some n => .num n
  | none => .null

theorem foldl_setProperty {α : Type} (entries before : Entries α)
    (h : ((before ++ entries).map Prod.fst).Nodup) :
    entries.foldl setProperty before = before ++ entries := by
  induction entries generalizing before with
  | nil => simp
  | cons e rest ih =>
      have hnew : before.any (·.1 == e.1) = false := by
        simp only [List.map_append, List.map_cons, List.nodup_append] at h
        simp only [List.any_eq_false, beq_iff_eq]
        exact fun f hf => h.2.2 f.1 (List.mem_map_of_mem hf) e.1 List.mem_cons_self
      rw [List.foldl_cons, setProperty, hnew, if_neg Bool.false_ne_true, ih]
      · simp
      · simpa using h

theorem properties_perm {α : Type} (entries : Entries α) (h : (entries.map Prod.fst).Nodup) :
    (properties entries).Perm entries := by
  have hsplit := List.filter_append_perm (fun e => (arrayIndex e.1).isSome) entries
  have hsort := List.perm_insertionSort
    (fun a b : String × α => (arrayIndex a.1).getD 0 ≤ (arrayIndex b.1).getD 0)
    (entries.filter fun e => (arrayIndex e.1).isSome)
  rw [properties, foldl_setProperty entries [] h, List.nil_append]
  exact (hsort.append_right _).trans hsplit

/-- The page between what it reads and what it writes. -/
def page : Json.Passage F64 where
  read n := Doubles.nearest n.value
  order := properties
  write := writeNumber
  order_perm := properties_perm
  write_depth x := by
    unfold writeNumber
    split <;> rfl

/-- `JSON.parse`. -/
def jsonParse (text : String) : Option JsValue :=
  (JsonText.parse text.toList).map fun t => t.rebuild (fun n => .num (page.read n)) page.order

/-- `JSON.stringify`. -/
def jsonStringify (v : JsValue) : String := String.ofList (v.rebuild page.write id).print

/-- `parseJson`. -/
def parseJson (raw : String) (fallback : JsValue) : JsValue :=
  if raw = "" then fallback else (jsonParse raw).getD fallback

/-- What `retryTask` posts. -/
def retryBody (task : TaskView) : String :=
  jsonStringify <| .obj
    [("task_name", .str task.taskName), ("args", parseJson task.args (.arr [])),
     ("kwargs", parseJson task.kwargs (.obj [])), ("queue", .str task.queue)]

/-! ### The API -/

structure RetryRequest where
  taskName : String
  args : Json
  kwargs : Json
  queue : String
  deriving Repr, DecidableEq

/-- The request that a body is read as. -/
def readRequest (serde : SerdeJson) (body : String) : Option RetryRequest := do
  let json ← serde.fromStr body
  let taskName ← strField json "task_name"
  let args ← json.get "args"
  let kwargs ← json.get "kwargs"
  let queue ← strField json "queue"
  return { taskName, args, kwargs, queue }

/-- The arguments of a request, as `retry_task` publishes them. -/
def normalizeCall (serde : SerdeJson) (req : RetryRequest) : Except CallError (Json × Json) :=
  match normalizeCallValue serde req.args .args with
  | .error e => .error e
  | .ok args =>
    match normalizeCallValue serde req.kwargs .kwargs with
    | .error e => .error e
    | .ok kwargs => .ok (args, kwargs)

/-- What a retry from the page publishes; `none` if the request is not accepted. -/
def resend (serde : SerdeJson) (task : TaskView) : Option (Except CallError (Json × Json)) :=
  (readRequest serde (retryBody task)).map (normalizeCall serde)

/-! ### Through the page -/

/-- What `serde_json` is documented to do with the texts of a retry: a value is written as
JSON, a float such that it is the double nearest to what is written; a text is read unless it
has 128 levels. -/
structure ReadsAndWrites (serde : SerdeJson) (floatText : F64 → Numeral)
    (readFloat : Numeral → F64) (args kwargs : Json) (body : String) : Prop where
  writesArgs : JsonText.parse (serde.toString args).toList = some (args.toTree floatText)
  writesKwargs : JsonText.parse (serde.toString kwargs).toList = some (kwargs.toTree floatText)
  writesFloats : ∀ x, .float x ∈ args.numbers ++ kwargs.numbers →
    Doubles.nearest (floatText x).value = x
  reads : ∀ t, JsonText.parse body.toList = some t →
    serde.fromStr body = if t.depth < 128 then some (Json.ofTree readFloat t) else none

/-- The page prints the number so that it is read as it was: an integer as that integer, a
float not as an integer of 64 bits. -/
def KeepsNumber (readFloat : Numeral → F64) : Json.Number → Prop
  | .int n => (Doubles.numeral (Doubles.nearest n)).bind Json.whole? = some n
  | .float x => ∃ m, Doubles.numeral x = some m ∧ Json.whole? m = none ∧ readFloat m = x

/-- What a retry from the page keeps: not more than 126 levels, and numbers that the page
keeps. -/
def Resendable (readFloat : Numeral → F64) (v : Json) : Prop :=
  v.levels ≤ 126 ∧ ∀ x ∈ v.numbers, KeepsNumber readFloat x

section Crossing

variable {serde : SerdeJson} {floatText : F64 → Numeral} {readFloat : Numeral → F64}

theorem ofTree_writeNumber (readFloat : Numeral → F64) (x : F64) :
    Json.ofTree readFloat (writeNumber x) =
      match Doubles.numeral x with
      | some m => Json.ofNumeral readFloat m
      | none => .null := by
  unfold writeNumber
  cases Doubles.numeral x <;> rfl

theorem carry_int_iff (n : Int) :
    page.carry floatText readFloat (.int n) = .int n ↔ KeepsNumber readFloat (.int n) := by
  show Json.ofTree readFloat (writeNumber (Doubles.nearest (Numeral.ofInt n).value)) = _ ↔ _
  rw [Numeral.value_ofInt, ofTree_writeNumber, KeepsNumber]
  cases Doubles.numeral (Doubles.nearest n) with
  | none => simp
  | some m => cases h : Json.whole? m <;> simp [Json.ofNumeral, h]

theorem carry_float_iff {x : F64} (h : Doubles.nearest (floatText x).value = x) :
    page.carry floatText readFloat (.float x) = .float x ↔ KeepsNumber readFloat (.float x) := by
  show Json.ofTree readFloat (writeNumber (Doubles.nearest (floatText x).value)) = _ ↔ _
  rw [h, ofTree_writeNumber, KeepsNumber]
  cases Doubles.numeral x with
  | none => simp
  | some m => cases h : Json.whole? m <;> simp [Json.ofNumeral, h]

/-- **The page keeps a value exactly if it keeps its numbers.** -/
theorem carry_page_eq_iff (readFloat : Numeral → F64) {v : Json} (hv : v.Ordered)
    (hexact : ∀ x, .float x ∈ v.numbers → Doubles.nearest (floatText x).value = x) :
    page.carry floatText readFloat v = v ↔ ∀ x ∈ v.numbers, KeepsNumber readFloat x := by
  rw [page.carry_eq_iff floatText readFloat v hv]
  refine forall₂_congr fun x hx => ?_
  cases x with
  | int n => exact carry_int_iff n
  | float x => exact carry_float_iff (hexact x hx)

/-- What the page reads of a value that was written. -/
theorem parseJson_toString {raw : String} {v : Json} (fallback : JsValue)
    (h : JsonText.parse raw.toList = some (v.toTree floatText)) :
    (parseJson raw fallback).rebuild page.write id = page.pass (v.toTree floatText) := by
  have hne : raw ≠ "" := by
    rintro rfl
    cases h
  rw [parseJson, if_neg hne, jsonParse, h]
  rfl

end Crossing

/-! ### A retry of a retry -/

/-- A published retry, apart from its arguments. -/
structure Sent where
  eventId : Uuid
  receivedAt : Int
  tenantId : Uuid
  agentId : Uuid
  brokerType : String
  sentAt : F64
  taskId : String
  taskName : String
  queue : String
  parentId : Option String
  rootId : Option String
  deriving Repr, DecidableEq

/-- The task of a published retry, when its synthetic event is all that is recorded. -/
def Sent.view (serde : SerdeJson) (m : Sent) (args kwargs : Json) : TaskView :=
  mergedTask [normalizeTaskEvent m.eventId m.receivedAt m.tenantId m.agentId m.brokerType <|
    .syntheticSent m.sentAt m.taskId m.taskName m.queue (serde.toString args)
      (serde.toString kwargs) m.parentId m.rootId]

theorem Sent.view_eq (serde : SerdeJson) (m : Sent) (args kwargs : Json) :
    m.view serde args kwargs =
      ⟨m.taskName, m.queue, serde.toString args, serde.toString kwargs⟩ := by
  simp only [view, mergedTask, latestText_one]
  rfl

/-- The fields of a request. -/
theorem get_body (taskName queue : String) (args kwargs : Json) :
    let body := Json.ofEntries
      [("task_name", .str taskName), ("args", args), ("kwargs", kwargs), ("queue", .str queue)]
    strField body "task_name" = some taskName ∧ body.get "args" = some args ∧
      body.get "kwargs" = some kwargs ∧ strField body "queue" = some queue := by
  intro body
  have hname : body.get "task_name" = some (.str taskName) :=
    Json.get_ofEntries [] "task_name" (.str taskName) (by simp)
  have hargs : body.get "args" = some args :=
    Json.get_ofEntries [("task_name", .str taskName)] "args" args (by simp)
  have hkwargs : body.get "kwargs" = some kwargs :=
    Json.get_ofEntries [("task_name", .str taskName), ("args", args)] "kwargs" kwargs (by simp)
  have hqueue : body.get "queue" = some (.str queue) :=
    Json.get_ofEntries [("task_name", .str taskName), ("args", args), ("kwargs", kwargs)] "queue"
      (.str queue) nofun
  refine ⟨?_, hargs, hkwargs, ?_⟩
  · rw [strField, hname]
    rfl
  · rw [strField, hqueue]
    rfl

/-- The request of a retry from the page: refused if it has too many levels, else with what
the page makes of the arguments. -/
theorem readRequest_retryBody {serde : SerdeJson} {floatText : F64 → Numeral}
    {readFloat : Numeral → F64} {args kwargs : Json} {taskName queue : String}
    (hargs : args.Ordered) (hkwargs : kwargs.Ordered)
    (h : ReadsAndWrites serde floatText readFloat args kwargs
      (retryBody ⟨taskName, queue, serde.toString args, serde.toString kwargs⟩)) :
    readRequest serde (retryBody ⟨taskName, queue, serde.toString args, serde.toString kwargs⟩) =
      if args.levels ≤ 126 ∧ kwargs.levels ≤ 126 then
        some ⟨taskName, page.carry floatText readFloat args,
          page.carry floatText readFloat kwargs, queue⟩
      else none := by
  have hbody : JsonText.parse
      (retryBody ⟨taskName, queue, serde.toString args, serde.toString kwargs⟩).toList =
      some (.obj [("task_name", .str taskName), ("args", page.pass (args.toTree floatText)),
        ("kwargs", page.pass (kwargs.toTree floatText)), ("queue", .str queue)]) := by
    rw [retryBody, jsonStringify, String.toList_ofList, JsonText.parse_print]
    simp [JsonTree.rebuild, parseJson_toString _ h.writesArgs, parseJson_toString _ h.writesKwargs]
  have hread := h.reads _ hbody
  simp only [JsonTree.depth, JsonTree.depthEntries, page.depth_pass floatText args hargs,
    page.depth_pass floatText kwargs hkwargs] at hread
  unfold readRequest
  by_cases hlevels : args.levels ≤ 126 ∧ kwargs.levels ≤ 126
  · obtain ⟨hname, hgetArgs, hgetKwargs, hqueue⟩ := get_body taskName queue
      (page.carry floatText readFloat args) (page.carry floatText readFloat kwargs)
    have hjson : Json.ofTree readFloat
        (.obj [("task_name", .str taskName), ("args", page.pass (args.toTree floatText)),
          ("kwargs", page.pass (kwargs.toTree floatText)), ("queue", .str queue)]) =
        Json.ofEntries [("task_name", .str taskName), ("args", page.carry floatText readFloat args),
          ("kwargs", page.carry floatText readFloat kwargs), ("queue", .str queue)] := rfl
    rw [if_pos hlevels, hread, if_pos (by omega), hjson]
    simp [hname, hgetArgs, hgetKwargs, hqueue]
  · rw [if_neg hlevels, hread, if_neg (by omega)]
    rfl

/-- What a retry of a retry publishes. -/
theorem resend_eq {serde : SerdeJson} {floatText : F64 → Numeral} {readFloat : Numeral → F64}
    {m : Sent} {args : List Json} {kwargs : Entries Json} (hargs : (Json.arr args).Ordered)
    (hkwargs : (Json.obj kwargs).Ordered)
    (h : ReadsAndWrites serde floatText readFloat (.arr args) (.obj kwargs)
      (retryBody (m.view serde (.arr args) (.obj kwargs)))) :
    resend serde (m.view serde (.arr args) (.obj kwargs)) =
      if (Json.arr args).levels ≤ 126 ∧ (Json.obj kwargs).levels ≤ 126 then
        some (.ok (page.carry floatText readFloat (.arr args),
          page.carry floatText readFloat (.obj kwargs)))
      else none := by
  rw [m.view_eq] at h ⊢
  rw [resend, readRequest_retryBody hargs hkwargs h]
  split
  · rw [page.carry_arr, page.carry_obj floatText readFloat hkwargs.1]
    rfl
  · rfl

/-- How a float is written: the shortest numeral, with a fraction if it has none. -/
def sampleFloatText (x : F64) : Numeral :=
  match Doubles.numeral x with
  | some ⟨neg, whole, canonical, none, none⟩ => ⟨neg, whole, canonical, some (.ofNat 0), none⟩
  | some m => m
  | none => .ofInt 0

/-- A `serde_json` that writes and reads as it documents. -/
def sampleTextSerde : SerdeJson where
  toString v := String.ofList (v.toTree sampleFloatText).print
  fromStr text := (JsonText.parse text.toList).bind fun t =>
    if t.depth < 128 then some (Json.ofTree (fun m => Doubles.nearest m.value) t) else none

theorem sampleTextSerde_readsAndWrites {args kwargs : Json} (body : String)
    (h : ∀ x, .float x ∈ args.numbers ++ kwargs.numbers →
      Doubles.nearest (sampleFloatText x).value = x) :
    ReadsAndWrites sampleTextSerde sampleFloatText (fun m => Doubles.nearest m.value) args kwargs
      body where
  writesArgs := by rw [sampleTextSerde, String.toList_ofList, JsonText.parse_print]
  writesKwargs := by rw [sampleTextSerde, String.toList_ofList, JsonText.parse_print]
  writesFloats := h
  reads t ht := by simp only [sampleTextSerde, ht, Option.bind_some]

def sampleSent : Sent :=
  { eventId := 1, receivedAt := 0, tenantId := 7, agentId := 9, brokerType := "redis",
    sentAt := .fin 1, taskId := "t2", taskName := "tasks.add", queue := "celery",
    parentId := some "t1", rootId := some "t1" }

/-- Arrays in arrays. -/
def nested : Nat → Json
  | 0 => .arr []
  | n + 1 => .arr [nested n]

theorem nested_plain (n : Nat) :
    (nested n).Ordered ∧ (nested n).numbers = [] ∧ (nested n).levels = n + 1 := by
  induction n with
  | zero => exact ⟨trivial, rfl, rfl⟩
  | succ n ih =>
      obtain ⟨hordered, hnumbers, hlevels⟩ := ih
      refine ⟨⟨hordered, trivial⟩, ?_, ?_⟩
      · simp [nested, Json.numbers, Json.numbersItems, hnumbers]
      · simp [nested, Json.levels, Json.levelsItems, hlevels]

end Feloxi.Tasks
