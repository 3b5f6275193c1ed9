import Feloxi.Lib.Overwrites
import Feloxi.Ws.Rounds

/-!
# Feloxi.Ws.Store

The store of the live view in the browser (`apps/web/src/stores/ws-store.ts`). A message is
turned into new values of some of the fields, computed from the store as it is; the values
wait for the next animation frame, which writes them all at once.
-/

namespace Feloxi.Ws

open Overwrites Runs

/-! ### The store -/

/-- A `Map` in the order of insertion. -/
abbrev EntryMap := List (String × EventPayload)

/-- `Map.set`: an entry that is there keeps its place. -/
def mapSet (key : String) (value : EventPayload) : EntryMap → EntryMap
  | [] => [(key, value)]
  | e :: rest => if e.1 = key then (key, value) :: rest else e :: mapSet key value rest

/-- `WsStore`, without the state of the connection. -/
@[ext]
structure WsStore where
  recentTasks : List EventPayload
  totalTaskCount : Nat
  workerStates : EntryMap
  recentAlerts : List EventPayload
  latestMetrics : Option EventPayload
  deriving Repr, DecidableEq

/-- `Partial<WsStore>`. -/
structure StoreUpdate where
  recentTasks : Option (List EventPayload) := none
  totalTaskCount : Option Nat := none
  workerStates : Option EntryMap := none
  recentAlerts : Option (List EventPayload) := none
  latestMetrics : Option (Option EventPayload) := none
  deriving Repr, DecidableEq

def MAX_RECENT_TASKS : Nat := 50

def MAX_RECENT_ALERTS : Nat := 20

/-- The page: the store, the updates that wait, and whether a frame was asked for. -/
structure Page where
  store : WsStore
  pendingUpdates : List StoreUpdate
  rafHandle : Bool
  deriving Repr, DecidableEq

def openStore : WsStore :=
  { recentTasks := [], totalTaskCount := 0, workerStates := [], recentAlerts := [],
    latestMetrics := none }

def openPage : Page := { store := openStore, pendingUpdates := [], rafHandle := false }

/-- The update that `handleEvent` schedules, if the payload is of a kind that it knows. -/
def updateOf (store : WsStore) : Payload → Option StoreUpdate
  | .event payload =>
    match payload with
    | .taskUpdate .. => some
      { recentTasks := some ((payload :: store.recentTasks).take MAX_RECENT_TASKS),
        totalTaskCount := some (store.totalTaskCount + 1) }
    | .workerUpdate workerId .. => some
      { workerStates := some (mapSet workerId payload store.workerStates) }
    | .alertFired .. => some
      { recentAlerts := some ((payload :: store.recentAlerts).take MAX_RECENT_ALERTS) }
    | .metricsSummary .. => some { latestMetrics := some (some payload) }
    | _ => none
  | .taskBatchUpdate count latest => some
    { recentTasks := some ((latest ++ store.recentTasks).take MAX_RECENT_TASKS),
      totalTaskCount := some (store.totalTaskCount + count) }

def scheduleUpdate (page : Page) (update : StoreUpdate) : Page :=
  { page with pendingUpdates := page.pendingUpdates ++ [update], rafHandle := true }

def handleEvent (page : Page) (payload : Payload) : Page :=
  (updateOf page.store payload).elim page (scheduleUpdate page)

/-- The fields that an update has replace those of the store. -/
def overwrite (store : WsStore) (update : StoreUpdate) : WsStore :=
  { recentTasks := update.recentTasks.getD store.recentTasks
    totalTaskCount := update.totalTaskCount.getD store.totalTaskCount
    workerStates := update.workerStates.getD store.workerStates
    recentAlerts := update.recentAlerts.getD store.recentAlerts
    latestMetrics := update.latestMetrics.getD store.latestMetrics }

def flushPendingUpdates (page : Page) : Page :=
  { store := page.pendingUpdates.foldl overwrite page.store, pendingUpdates := [],
    rafHandle := false }

inductive PageInput where
  | message (payload : Payload)
  /-- The browser paints: the callback runs if it was asked for. -/
  | frame
  deriving Repr, DecidableEq

def pageStep (page : Page) : PageInput → Page
  | .message payload => handleEvent page payload
  | .frame => if page.rafHandle then flushPendingUpdates page else page

/-! ### One payload at a time -/

/-- A payload that is written before the next one is looked at. -/
def applied (store : WsStore) (payload : Payload) : WsStore :=
  (updateOf store payload).elim store (overwrite store)

def appliedAll (store : WsStore) (payloads : List Payload) : WsStore :=
  payloads.foldl applied store

/-- The messages of each frame, and the frame. -/
def frameInputs (frames : List (List Payload)) : List PageInput :=
  frames.flatMap fun frame => frame.map .message ++ [.frame]

/-- The page after some frames. -/
def afterFrames (frames : List (List Payload)) : Page := run pageStep openPage (frameInputs frames)

/-- Nothing waits for a frame. -/
def Page.Painted (page : Page) : Prop := page.pendingUpdates = [] ∧ page.rafHandle = false

/-- The page as a frame finds it: all updates were computed from the store of the last one. -/
theorem handleEvents (page : Page) (payloads : List Payload) :
    run pageStep page (payloads.map .message) =
      { page with
        pendingUpdates := page.pendingUpdates ++ payloads.filterMap (updateOf page.store)
        rafHandle := page.rafHandle || (payloads.any fun p => (updateOf page.store p).isSome) } := by
  induction payloads generalizing page with
  | nil => simp
  | cons payload rest ih =>
      rw [List.map_cons, run_cons, ih]
      simp only [pageStep, handleEvent]
      cases hupdate : updateOf page.store payload with
      | none => simp [hupdate]
      | some update => simp [scheduleUpdate, hupdate]

/-- A frame writes what the messages before it asked for. -/
theorem paint {page : Page} (hpage : page.Painted) (payloads : List Payload) :
    run pageStep page (payloads.map .message ++ [.frame]) =
      { page with
        store := (payloads.filterMap (updateOf page.store)).foldl overwrite page.store } := by
  obtain ⟨store, pendingUpdates, rafHandle⟩ := page
  obtain ⟨rfl, rfl⟩ : pendingUpdates = [] ∧ rafHandle = false := hpage
  rw [run_append, handleEvents]
  simp only [run_cons, run_nil, pageStep, List.nil_append, Bool.false_or, flushPendingUpdates]
  split
  · rfl
  · rename_i hnone
    have hempty : payloads.filterMap (updateOf store) = [] := by
      rw [List.filterMap_eq_nil_iff]
      intro p hp
      by_contra hsome
      refine hnone (List.any_eq_true.2 ⟨p, hp, ?_⟩)
      exact Option.isSome_iff_ne_none.2 hsome
    simp only [hempty, List.foldl_nil, Bool.not_eq_true] at hnone ⊢
    rw [hnone]

theorem painted_paint {page : Page} (hpage : page.Painted) (payloads : List Payload) :
    (run pageStep page (payloads.map .message ++ [.frame])).Painted := by
  rw [paint hpage]
  exact hpage

theorem afterFrames_append_one (frames : List (List Payload)) (frame : List Payload) :
    afterFrames (frames ++ [frame]) =
      run pageStep (afterFrames frames) (frame.map .message ++ [.frame]) := by
  simp [afterFrames, frameInputs, run_append]

theorem painted_afterFrames (frames : List (List Payload)) : (afterFrames frames).Painted := by
  induction frames using List.reverseRecOn with
  | nil => exact ⟨rfl, rfl⟩
  | append_singleton frames frame ih =>
      rw [afterFrames_append_one]
      exact painted_paint ih frame

/-- What the last frame wrote. -/
theorem store_afterFrames (frames : List (List Payload)) (frame : List Payload) :
    (afterFrames (frames ++ [frame])).store =
      (frame.filterMap (updateOf (afterFrames frames).store)).foldl overwrite
        (afterFrames frames).store := by
  rw [afterFrames_append_one, paint (painted_afterFrames frames)]

/-! ### Field by field -/

/-- A field of the store, and what a payload does to it. -/
structure StoreField (α : Type) where
  read : WsStore → α
  written : StoreUpdate → Option α
  effect : Payload → Option (α → α)
  read_overwrite : ∀ store update, read (overwrite store update) =
    (written update).getD (read store)
  written_update : ∀ store payload, (updateOf store payload).bind written =
    (effect payload).map fun f => f (read store)

namespace StoreField

variable {α : Type} (field : StoreField α)

/-- What the payloads of a frame do to the field. -/
def effects (payloads : List Payload) : List (α → α) := payloads.filterMap field.effect

theorem read_overwrites (updates : List StoreUpdate) (store : WsStore) :
    field.read (updates.foldl overwrite store) =
      (updates.filterMap field.written).getLast?.getD (field.read store) := by
  induction updates using List.reverseRecOn with
  | nil => rfl
  | append_singleton updates update ih =>
      rw [List.foldl_append, List.foldl_cons, List.foldl_nil, field.read_overwrite, ih,
        List.filterMap_append, List.getLast?_append]
      cases hwritten : field.written update <;> simp [hwritten]

/-- A frame keeps the last of the effects only, -/
theorem read_frame (store : WsStore) (payloads : List Payload) :
    field.read ((payloads.filterMap (updateOf store)).foldl overwrite store) =
      lastOnly (field.effects payloads) (field.read store) := by
  have hwritten : (payloads.filterMap (updateOf store)).filterMap field.written =
      (field.effects payloads).map fun f => f (field.read store) := by
    rw [List.filterMap_filterMap, effects, List.map_filterMap]
    exact List.filterMap_congr fun p _ => field.written_update store p
  rw [read_overwrites, hwritten, List.getLast?_map, lastOnly]
  cases (field.effects payloads).getLast? <;> rfl

/-- where one payload after the other has them all. -/
theorem read_appliedAll (store : WsStore) (payloads : List Payload) :
    field.read (appliedAll store payloads) =
      inTurn (field.effects payloads) (field.read store) := by
  induction payloads generalizing store with
  | nil => rfl
  | cons payload rest ih =>
      have hone : field.read (applied store payload) =
          (field.effect payload).elim (field.read store) fun f => f (field.read store) := by
        have hupdate := field.written_update store payload
        unfold applied
        cases hscheduled : updateOf store payload with
        | none =>
            rw [hscheduled, Option.bind_none] at hupdate
            cases heffect : field.effect payload with
            | none => rfl
            | some f =>
                rw [heffect] at hupdate
                cases hupdate
        | some update =>
            rw [hscheduled, Option.bind_some] at hupdate
            rw [Option.elim_some, field.read_overwrite, hupdate]
            cases field.effect payload <;> rfl
      rw [appliedAll, List.foldl_cons, ← appliedAll, ih, hone]
      cases heffect : field.effect payload with
      | none => simp [effects, heffect]
      | some f => simp [effects, heffect]

/-- A field of which the frame loses nothing. -/
theorem read_frame_eq {payloads : List Payload} (h : Absorbing (field.effects payloads))
    (store : WsStore) :
    field.read ((payloads.filterMap (updateOf store)).foldl overwrite store) =
      field.read (appliedAll store payloads) := by
  rw [read_frame, read_appliedAll, lastOnly_eq_inTurn h]

end StoreField

/-- The tasks that a message brings, newest as the browser takes them. -/
def Payload.block? : Payload → Option (List EventPayload)
  | .event payload => if payload.isTask then some [payload] else none
  | .taskBatchUpdate _ latest => some latest

/-- The number of tasks that a message reports. -/
def Payload.count? : Payload → Option Nat
  | .event payload => if payload.isTask then some 1 else none
  | .taskBatchUpdate count _ => some count

/-- The worker that a message is about. -/
def Payload.worker? : Payload → Option (String × EventPayload)
  | .event payload =>
    match payload with
    | .workerUpdate workerId .. => some (workerId, payload)
    | _ => none
  | .taskBatchUpdate _ _ => none

def Payload.alert? : Payload → Option EventPayload
  | .event payload =>
    match payload with
    | .alertFired .. => some payload
    | _ => none
  | .taskBatchUpdate _ _ => none

def Payload.metrics? : Payload → Option EventPayload
  | .event payload =>
    match payload with
    | .metricsSummary .. => some payload
    | _ => none
  | .taskBatchUpdate _ _ => none

def recentTasksField : StoreField (List EventPayload) where
  read := WsStore.recentTasks
  written := StoreUpdate.recentTasks
  effect p := p.block?.map fun block recent => (block ++ recent).take MAX_RECENT_TASKS
  read_overwrite _ _ := rfl
  written_update store p := by
    cases p with
    | event payload => cases payload <;> rfl
    | taskBatchUpdate count latest => rfl

def totalTaskCountField : StoreField Nat where
  read := WsStore.totalTaskCount
  written := StoreUpdate.totalTaskCount
  effect p := p.count?.map fun count total => total + count
  read_overwrite _ _ := rfl
  written_update store p := by
    cases p with
    | event payload => cases payload <;> rfl
    | taskBatchUpdate count latest => rfl

def workerStatesField : StoreField EntryMap where
  read := WsStore.workerStates
  written := StoreUpdate.workerStates
  effect p := p.worker?.map fun e => mapSet e.1 e.2
  read_overwrite _ _ := rfl
  written_update store p := by
    cases p with
    | event payload => cases payload <;> rfl
    | taskBatchUpdate count latest => rfl

def recentAlertsField : StoreField (List EventPayload) where
  read := WsStore.recentAlerts
  written := StoreUpdate.recentAlerts
  effect p := p.alert?.map fun alert recent => (alert :: recent).take MAX_RECENT_ALERTS
  read_overwrite _ _ := rfl
  written_update store p := by
    cases p with
    | event payload => cases payload <;> rfl
    | taskBatchUpdate count latest => rfl

def latestMetricsField : StoreField (Option EventPayload) where
  read := WsStore.latestMetrics
  written := StoreUpdate.latestMetrics
  effect p := p.metrics?.map fun metrics _ => some metrics
  read_overwrite _ _ := rfl
  written_update store p := by
    cases p with
    | event payload => cases payload <;> rfl
    | taskBatchUpdate count latest => rfl

/-! ### Frames that lose nothing -/

theorem mapSet_mapSet (key : String) (old value : EventPayload) (m : EntryMap) :
    mapSet key value (mapSet key old m) = mapSet key value m := by
  induction m with
  | nil => simp [mapSet]
  | cons e rest ih =>
      by_cases hkey : e.1 = key
      · simp [mapSet, hkey]
      · simp [mapSet, hkey, ih]

theorem mem_keys_mapSet {key k : String} {value : EventPayload} {m : EntryMap} :
    k ∈ (mapSet key value m).map Prod.fst ↔ k = key ∨ k ∈ m.map Prod.fst := by
  induction m with
  | nil => simp [mapSet]
  | cons e rest ih =>
      by_cases hkey : e.1 = key
      · simp [mapSet, hkey]
      · simp only [mapSet, hkey, if_false, List.map_cons, List.mem_cons, ih]
        tauto

/-- At most one task message and one alert, and worker updates of one worker. -/
structure OneEach (frame : List Payload) : Prop where
  tasks : (frame.filterMap Payload.count?).length ≤ 1
  alerts : (frame.filterMap Payload.alert?).length ≤ 1
  workers : ((frame.filterMap Payload.worker?).map Prod.fst).Pairwise Eq

/-- A message has a block of tasks exactly if it has a count. -/
theorem length_blocks (frame : List Payload) :
    (frame.filterMap Payload.block?).length = (frame.filterMap Payload.count?).length := by
  rw [List.length_filterMap_eq_countP, List.length_filterMap_eq_countP]
  refine List.countP_congr fun p _ => ?_
  cases p with
  | event payload => cases payload <;> rfl
  | taskBatchUpdate count latest => rfl

/-- **A frame with one message of each kind loses nothing**, from any store. -/
theorem frame_eq_appliedAll {frame : List Payload} (h : OneEach frame) (store : WsStore) :
    (frame.filterMap (updateOf store)).foldl overwrite store = appliedAll store frame := by
  have hone : ∀ {α β : Type} {f : Payload → Option α} (g : α → β → β),
      (frame.filterMap f).length ≤ 1 →
      Absorbing (frame.filterMap fun p => (f p).map g) := by
    intro α β f g hlength
    refine absorbing_of_length_le_one ?_
    rw [← List.map_filterMap, List.length_map]
    exact hlength
  have hworkers : Absorbing (workerStatesField.effects frame) := by
    have hsame := h.workers
    rw [List.pairwise_map] at hsame
    rw [Absorbing, StoreField.effects]
    show List.Pairwise _ (frame.filterMap fun p => p.worker?.map fun e => mapSet e.1 e.2)
    rw [← List.map_filterMap, List.pairwise_map]
    refine hsame.imp fun {a b} hab m => ?_
    rw [hab, mapSet_mapSet]
  have hmetrics : Absorbing (latestMetricsField.effects frame) := by
    rw [Absorbing, StoreField.effects]
    show List.Pairwise _ (frame.filterMap fun p => p.metrics?.map fun metrics _ => some metrics)
    rw [← List.map_filterMap, List.pairwise_map]
    exact List.pairwise_of_forall fun a b x => rfl
  have htasks := recentTasksField.read_frame_eq (hone _ (length_blocks frame ▸ h.tasks)) store
  have hcount := totalTaskCountField.read_frame_eq (hone _ h.tasks) store
  have halerts := recentAlertsField.read_frame_eq (hone _ h.alerts) store
  have hworkers := workerStatesField.read_frame_eq hworkers store
  have hmetrics := latestMetricsField.read_frame_eq hmetrics store
  exact WsStore.ext htasks hcount hworkers halerts hmetrics

/-- By induction on the frames. -/
theorem afterFrames_eq_appliedAll {frames : List (List Payload)} (h : ∀ frame ∈ frames, OneEach frame) :
    (afterFrames frames).store = appliedAll openStore frames.flatten := by
  induction frames using List.reverseRecOn with
  | nil => rfl
  | append_singleton frames frame ih =>
      have hbefore := ih fun f hf => h f (List.mem_append_left _ hf)
      have hframe := h frame (List.mem_append_right _ List.mem_cons_self)
      rw [store_afterFrames, frame_eq_appliedAll hframe, hbefore, List.flatten_append]
      simp [appliedAll, List.foldl_append]

/-! ### Frames that lose something -/

/-- A batch as the server sends it: it counts something. -/
def Payload.Counts : Payload → Prop
  | .event _ => True
  | .taskBatchUpdate count _ => 0 < count

/-- Every batch that a session sends counts something. -/
theorem counts_sent (tenantId : Uuid) (inputs : List Input) {payload : Payload}
    (h : .event payload ∈ (run sessionStep (openSession tenantId) inputs).sent) :
    payload.Counts := by
  have hsend : ∀ (s : DashboardSession) (message : WsServerMessage) (gone : Bool),
      (∀ payload, .event payload ∈ s.sent → payload.Counts) →
      (∀ payload, message ≠ .event payload) →
      ∀ payload, .event payload ∈ (s.send message gone).sent → payload.Counts := by
    intro s message gone hs hmessage payload hp
    rcases List.mem_append.1 hp with hp | hp
    · exact hs payload hp
    · exact absurd (List.mem_singleton.1 hp).symm (hmessage payload)
  have hflushed : ∀ (s : DashboardSession) (payload : Payload),
      .event payload ∈ flushed s → payload.Counts := by
    intro s payload hp
    rcases List.mem_append.1 hp with hp | hp
    · obtain ⟨other, -, hother⟩ := List.mem_map.1 hp
      cases hother
      trivial
    · split at hp
      · cases hp
      · rename_i hcount
        cases List.mem_singleton.1 hp
        exact Nat.pos_of_ne_zero hcount
  let inv (s : DashboardSession) : Prop := ∀ payload, .event payload ∈ s.sent → payload.Counts
  refine run_invariant inv (fun s input hs => ?_) (s := openSession tenantId) nofun inputs payload h
  show ∀ payload, .event payload ∈ (sessionStep s input).sent → payload.Counts
  unfold sessionStep
  split
  · cases input with
    | text command gone =>
        cases command with
        | none => exact hs
        | some command =>
            cases command with
            | subscribe topics => exact hsend { s with } _ gone hs fun _ hne => by cases hne
            | unsubscribe topics => exact hs
            | ping => exact hsend s _ gone hs fun _ hne => by cases hne
    | event event =>
        show ∀ payload, .event payload ∈ (onEvent s event).sent → payload.Counts
        unfold onEvent
        split
        · split
          · split <;> exact hs
          · exact hs
        · exact hs
    | tick gone =>
        show ∀ payload, .event payload ∈ (onTick s gone).sent → payload.Counts
        intro payload hp
        unfold onTick at hp
        split at hp
        · rcases List.mem_append.1 hp with hp | hp
          · exact hs payload hp
          · exact hflushed s payload (List.mem_of_mem_take hp)
        · rcases List.mem_append.1 hp with hp | hp
          · exact hs payload hp
          · exact hflushed s payload hp
    | _ => exact hs
  · exact hs

/-- Two counts in one frame: the first is lost. -/
theorem tasks_le_one {frame : List Payload} (hsent : ∀ p ∈ frame, p.Counts)
    (h : lastOnly (totalTaskCountField.effects frame) 0 =
      inTurn (totalTaskCountField.effects frame) 0) :
    (frame.filterMap Payload.count?).length ≤ 1 := by
  have heffects : totalTaskCountField.effects frame =
      (frame.filterMap Payload.count?).map fun count total => total + count :=
    (List.map_filterMap ..).symm
  have hpositive : ∀ count ∈ frame.filterMap Payload.count?, 0 < count := by
    intro count hcount
    obtain ⟨p, hp, hpcount⟩ := List.mem_filterMap.1 hcount
    have hp := hsent p hp
    cases p with
    | event payload =>
        simp only [Payload.count?] at hpcount
        split at hpcount
        · rw [← Option.some.inj hpcount]
          exact Nat.one_pos
        · cases hpcount
    | taskBatchUpdate count latest => exact Option.some.inj hpcount ▸ hp
  have hsum : ∀ (counts : List Nat) (total : Nat),
      inTurn (counts.map fun count total => total + count) total = total + counts.sum := by
    intro counts
    induction counts with
    | nil => exact fun _ => rfl
    | cons count counts ih =>
        intro total
        rw [List.map_cons, inTurn_cons, ih, List.sum_cons, Nat.add_assoc]
  rw [heffects] at h
  rcases List.eq_nil_or_concat (frame.filterMap Payload.count?) with hnil | ⟨before, last, hcons⟩
  · rw [hnil]
    exact Nat.zero_le 1
  · rw [List.concat_eq_append] at hcons
    rw [hcons, hsum, List.map_append, List.map_singleton, lastOnly_append_one,
      List.sum_append, List.sum_singleton] at h
    cases before with
    | nil => rw [hcons]; exact Nat.le_refl 1
    | cons first before =>
        have hfirst := hpositive first (by rw [hcons]; exact List.mem_cons_self)
        rw [List.sum_cons] at h
        omega

/-- Two alerts in one frame: the first is lost. -/
theorem alerts_le_one {frame : List Payload}
    (h : lastOnly (recentAlertsField.effects frame) [] =
      inTurn (recentAlertsField.effects frame) []) :
    (frame.filterMap Payload.alert?).length ≤ 1 := by
  have heffects : recentAlertsField.effects frame = (frame.filterMap Payload.alert?).map
      fun alert recent => (alert :: recent).take MAX_RECENT_ALERTS :=
    (List.map_filterMap ..).symm
  rw [heffects] at h
  rcases List.eq_nil_or_concat (frame.filterMap Payload.alert?) with hnil | ⟨before, last, hcons⟩
  · rw [hnil]
    exact Nat.zero_le 1
  rcases List.eq_nil_or_concat before with rfl | ⟨earlier, previous, rfl⟩
  · rw [hcons]
    exact Nat.le_refl 1
  · rw [List.concat_eq_append, List.concat_eq_append] at hcons
    rw [hcons, List.map_append, List.map_append, List.map_singleton, List.map_singleton,
      lastOnly_append_one, inTurn_append, inTurn_append] at h
    have hlengths := congrArg List.length h
    simp [MAX_RECENT_ALERTS] at hlengths

/-- Updates of two workers in one frame: only one of them is kept. -/
theorem workers_same {frame : List Payload}
    (h : lastOnly (workerStatesField.effects frame) [] =
      inTurn (workerStatesField.effects frame) []) :
    ((frame.filterMap Payload.worker?).map Prod.fst).Pairwise Eq := by
  have heffects : workerStatesField.effects frame =
      (frame.filterMap Payload.worker?).map fun e => mapSet e.1 e.2 :=
    (List.map_filterMap ..).symm
  have hkept : ∀ (entries : List (String × EventPayload)) (m : EntryMap) (k : String),
      (k ∈ m.map Prod.fst ∨ k ∈ entries.map Prod.fst) →
        k ∈ (inTurn (entries.map fun e => mapSet e.1 e.2) m).map Prod.fst := by
    intro entries
    induction entries with
    | nil => exact fun m k hk => hk.resolve_right List.not_mem_nil
    | cons e entries ih =>
        intro m k hk
        rw [List.map_cons, inTurn_cons]
        refine ih _ k ?_
        rw [mem_keys_mapSet]
        rcases hk with hk | hk
        · exact .inl (.inr hk)
        · exact (List.mem_cons.1 hk).imp .inl id
  rw [heffects] at h
  generalize frame.filterMap Payload.worker? = entries at h ⊢
  rcases List.eq_nil_or_concat entries with rfl | ⟨before, last, rfl⟩
  · exact .nil
  rw [List.concat_eq_append] at h ⊢
  have hlast : ∀ k ∈ (before ++ [last]).map Prod.fst, k = last.1 := by
    intro k hk
    have hmem := hkept (before ++ [last]) [] k (.inr hk)
    rw [← h, List.map_append, List.map_singleton, lastOnly_append_one] at hmem
    exact List.mem_singleton.1 hmem
  refine List.pairwise_of_forall_mem_list fun a ha b hb => ?_
  rw [hlast a ha, hlast b hb]

/-- **Frames.** A frame loses nothing, whatever the frames before it, exactly if it has at most
one task message and one alert, and worker updates of one worker only. -/
theorem oneEach_iff {frame : List Payload} (hsent : ∀ p ∈ frame, p.Counts) :
    OneEach frame ↔ ∀ earlier : List (List Payload), (∀ f ∈ earlier, OneEach f) →
      (afterFrames (earlier ++ [frame])).store =
        appliedAll openStore (earlier ++ [frame]).flatten := by
  constructor
  · intro hframe earlier hearlier
    refine afterFrames_eq_appliedAll fun f hf => ?_
    rcases List.mem_append.1 hf with hf | hf
    · exact hearlier f hf
    · rw [List.mem_singleton.1 hf]
      exact hframe
  · intro h
    have hstore := h [] (by simp)
    rw [store_afterFrames] at hstore
    have hone : (frame.filterMap (updateOf openStore)).foldl overwrite openStore =
        appliedAll openStore frame := by
      rwa [List.nil_append, List.flatten_singleton] at hstore
    have hread : ∀ {α : Type} (field : StoreField α),
        lastOnly (field.effects frame) (field.read openStore) =
          inTurn (field.effects frame) (field.read openStore) := by
      intro α field
      rw [← field.read_frame, ← field.read_appliedAll, hone]
    exact ⟨tasks_le_one hsent (hread totalTaskCountField), alerts_le_one (hread recentAlertsField),
      workers_same (hread workerStatesField)⟩

def sampleAlert (rule : String) : Payload := .event (.alertFired 9 rule "critical" "Failure rate > 50%")

/-- A second of the live view: a batch, an alert, and a worker. -/
def sampleFrame : List Payload :=
  [sampleAlert "High failure rate", .event (.workerUpdate "w1" "host1" "online" 3 .zero .zero),
    .taskBatchUpdate 3 []]

theorem oneEach_iff_sample :
    (afterFrames ([[sampleAlert "Queue depth"]] ++ [sampleFrame])).store =
      appliedAll openStore ([[sampleAlert "Queue depth"]] ++ [sampleFrame]).flatten := by
  have hsent : ∀ p ∈ sampleFrame, p.Counts := by
    simp [sampleFrame, sampleAlert, Payload.Counts]
  have halert : OneEach [sampleAlert "Queue depth"] :=
    ⟨Nat.zero_le 1, Nat.le_refl 1, .nil⟩
  have hframe : OneEach sampleFrame :=
    ⟨Nat.le_refl 1, Nat.le_refl 1, List.pairwise_singleton _ _⟩
  exact (oneEach_iff hsent).1 hframe [[sampleAlert "Queue depth"]] (by simpa using halert)

/-- Two alerts fire in the same second: the page shows one. -/
theorem frame_drops_alert :
    let frame := [sampleAlert "High failure rate", sampleAlert "Queue depth"]
    (afterFrames [frame]).store.recentAlerts.length = 1 ∧
      (appliedAll openStore frame).recentAlerts.length = 2 ∧
      (afterFrames [frame]).store ≠ appliedAll openStore frame := by
  intro frame
  have hshown : (afterFrames [frame]).store.recentAlerts.length = 1 := rfl
  have hfired : (appliedAll openStore frame).recentAlerts.length = 2 := rfl
  refine ⟨hshown, hfired, fun heq => ?_⟩
  rw [heq, hfired] at hshown
  cases hshown

/-! ### The order of the tasks -/

/-- The payload of a message that the browser handles. -/
def WsServerMessage.payload? : WsServerMessage → Option Payload
  | .event payload => some payload
  | _ => none

/-- The payloads that a session sends, in order. -/
def received (tenantId : Uuid) (inputs : List Input) : List Payload :=
  (run sessionStep (openSession tenantId) inputs).sent.filterMap WsServerMessage.payload?

/-- The tasks of some payloads, in the order in which they came in. -/
def tasksIn (payloads : List Payload) : List EventPayload :=
  (payloads.filterMap Payload.block?).flatten

/-- The payloads put the blocks of tasks in front of one another, up to the cap. -/
theorem recentTasks_appliedAll (payloads : List Payload) :
    (appliedAll openStore payloads).recentTasks =
      (payloads.filterMap Payload.block?).reverse.flatten.take MAX_RECENT_TASKS := by
  have heffects : recentTasksField.effects payloads = (payloads.filterMap Payload.block?).map
      fun block recent => (block ++ recent).take MAX_RECENT_TASKS :=
    (List.map_filterMap ..).symm
  have hread := recentTasksField.read_appliedAll openStore payloads
  rw [heffects] at hread
  refine hread.trans ?_
  generalize payloads.filterMap Payload.block? = blocks
  induction blocks using List.reverseRecOn with
  | nil => rfl
  | append_singleton blocks block ih =>
      rw [List.map_append, inTurn_append, ih, List.reverse_append]
      simp only [List.map_singleton, inTurn_cons, inTurn_nil, List.reverse_singleton,
        List.singleton_append, List.flatten_cons]
      rw [List.take_append, List.take_take, List.take_append]
      congr 2
      exact Nat.min_eq_left (Nat.sub_le _ _)

/-- Batches are all that a session sends of tasks. -/
theorem blocks_received {tenantId : Uuid} {inputs : List Input}
    (hsmooth : ∀ input ∈ inputs, input.Smooth) :
    (received tenantId inputs).filterMap Payload.block? =
      (ledger tenantId inputs).rounds.map lastFew := by
  have haccounts := accounts_ledger tenantId hsmooth
  obtain ⟨-, hothers⟩ := Ledger.run_entries tenantId
    (.start (openSession tenantId).subscriptions) inputs
  have hnotask : ∀ payload ∈ events (run sessionStep (openSession tenantId) inputs).sent,
      payload.isTask = false := by
    intro payload hp
    have hmem : payload ∈ (ledger tenantId inputs).others := by
      rw [← haccounts.others]
      exact List.mem_append_left _ hp
    rw [ledger, hothers] at hmem
    simpa using (List.mem_filter.1 hmem).2
  have hblocks : (received tenantId inputs).filterMap Payload.block? =
      (batches (run sessionStep (openSession tenantId) inputs).sent).map Prod.snd := by
    rw [received, List.filterMap_filterMap, batches, List.map_filterMap]
    refine List.filterMap_congr fun message hmessage => ?_
    cases message with
    | event payload =>
        cases payload with
        | event payload =>
            have hevent : payload ∈ events (run sessionStep (openSession tenantId) inputs).sent :=
              List.mem_filterMap.2 ⟨_, hmessage, rfl⟩
            simp [WsServerMessage.payload?, WsServerMessage.batch?, Payload.block?,
              hnotask payload hevent]
        | taskBatchUpdate count latest => rfl
    | _ => rfl
  rw [hblocks, haccounts.batches, List.map_map]
  rfl

theorem oneEach_of_length_le_one {frame : List Payload} (h : frame.length ≤ 1) : OneEach frame where
  tasks := (List.length_filterMap_le _ _).trans h
  alerts := (List.length_filterMap_le _ _).trans h
  workers := by
    have hlength : ((frame.filterMap Payload.worker?).map Prod.fst).length ≤ 1 := by
      rw [List.length_map]
      exact (List.length_filterMap_le _ _).trans h
    generalize (frame.filterMap Payload.worker?).map Prod.fst = ids at hlength ⊢
    rcases ids with _ | ⟨id, _ | ⟨other, ids⟩⟩
    · exact .nil
    · exact List.pairwise_singleton _ _
    · simp at hlength

/-- **Recent tasks.** With at most one message in a frame, the page always has the tasks it was
sent with the newest first exactly if what is left of each flush reads the same backwards, as
that of a single task does. -/
theorem newest_first_iff (tenantId : Uuid) (inputs : List Input)
    (hsmooth : ∀ input ∈ inputs, input.Smooth) :
    (∀ frames : List (List Payload), (∀ frame ∈ frames, frame.length ≤ 1) →
        frames.flatten <+: received tenantId inputs →
        (afterFrames frames).store.recentTasks =
          (tasksIn frames.flatten).reverse.take MAX_RECENT_TASKS) ↔
      ∀ round ∈ (ledger tenantId inputs).rounds, (lastFew round).reverse = lastFew round := by
  have hshown : ∀ frames : List (List Payload), (∀ frame ∈ frames, frame.length ≤ 1) →
      (afterFrames frames).store.recentTasks =
        (frames.flatten.filterMap Payload.block?).reverse.flatten.take MAX_RECENT_TASKS := by
    intro frames hframes
    rw [afterFrames_eq_appliedAll fun f hf => oneEach_of_length_le_one (hframes f hf),
      recentTasks_appliedAll]
  have hblocks : (received tenantId inputs).filterMap Payload.block? =
      (ledger tenantId inputs).rounds.map lastFew := blocks_received hsmooth
  constructor
  · intro hall round hround
    have hmem : lastFew round ∈ (received tenantId inputs).filterMap Payload.block? := by
      rw [hblocks]
      exact List.mem_map_of_mem hround
    obtain ⟨payload, hpayload, hblock⟩ := List.mem_filterMap.1 hmem
    obtain ⟨before, after, hsplit⟩ := List.append_of_mem hpayload
    -- the frames up to the batch, one for each message
    have hflatten : ((before ++ [payload]).map fun p => [p]).flatten = before ++ [payload] := by
      rw [← List.flatMap_def, List.flatMap_singleton']
    have hone : ∀ frame ∈ (before ++ [payload]).map fun p => [p], frame.length ≤ 1 := by
      intro frame hframe
      obtain ⟨p, -, rfl⟩ := List.mem_map.1 hframe
      exact Nat.le_refl 1
    have hpage := hall _ hone (by rw [hflatten, hsplit]; exact ⟨after, by simp⟩)
    rw [hshown _ hone, hflatten, tasksIn, List.filterMap_append, List.filterMap_cons, hblock,
      List.filterMap_nil, List.reverse_append, List.flatten_append, List.flatten_append,
      List.reverse_append] at hpage
    have hfew : (lastFew round).length ≤ MAX_RECENT_TASKS := by
      simp only [lastFew, List.rtake, List.length_drop, TASK_LATEST_CAP, MAX_RECENT_TASKS]
      omega
    have hfront := congrArg (List.take (lastFew round).length) hpage
    simp only [List.reverse_singleton, List.flatten_singleton, List.take_take,
      Nat.min_eq_left hfew] at hfront
    rw [List.take_left, List.take_left' (by simp)] at hfront
    exact hfront.symm
  · intro hround frames hframes hpart
    have hpalindrome : ∀ block ∈ frames.flatten.filterMap Payload.block?, block.reverse = block := by
      intro block hblock
      have hmem : block ∈ (received tenantId inputs).filterMap Payload.block? :=
        (hpart.sublist.filterMap _).subset hblock
      rw [hblocks] at hmem
      obtain ⟨round, hflushed, rfl⟩ := List.mem_map.1 hmem
      exact hround round hflushed
    have hreverse : (frames.flatten.filterMap Payload.block?).map List.reverse =
        frames.flatten.filterMap Payload.block? := by
      rw [List.map_congr_left hpalindrome, List.map_id']
    rw [hshown frames hframes, tasksIn, List.reverse_flatten, hreverse]

def sampleTask (id : String) : EventPayload :=
  .taskUpdate id "tasks.add" "SUCCESS" "default" "w1" none .zero

/-- A task in each of two flushes. -/
theorem newest_first_iff_sample :
    (afterFrames [[.taskBatchUpdate 1 [sampleTask "t1"]],
        [.taskBatchUpdate 1 [sampleTask "t2"]]]).store.recentTasks =
      [sampleTask "t2", sampleTask "t1"] := by
  let inputs : List Input := [.event ⟨7, sampleTask "t1"⟩, .tick none, .event ⟨7, sampleTask "t2"⟩,
    .tick none]
  have hsmooth : ∀ input ∈ inputs, input.Smooth := by
    simp [inputs, Input.Smooth]
  have hrounds : (ledger 7 inputs).rounds = [[sampleTask "t1"], [sampleTask "t2"]] := by decide
  have hsingle : ∀ round ∈ (ledger 7 inputs).rounds, (lastFew round).reverse = lastFew round := by
    intro round hround
    simp only [hrounds, List.mem_cons, List.not_mem_nil, or_false] at hround
    rcases hround with rfl | rfl <;> rfl
  exact (newest_first_iff 7 inputs hsmooth).2 hsingle _ (by simp) ⟨[], by decide⟩

/-- Two tasks in one flush: the older one comes first. -/
theorem batch_shown_oldest_first :
    let inputs : List Input := [.event ⟨7, sampleTask "t1"⟩, .event ⟨7, sampleTask "t2"⟩, .tick none]
    let frames := (received 7 inputs).map fun p => [p]
    (afterFrames frames).store.recentTasks = [sampleTask "t1", sampleTask "t2"] ∧
      (tasksIn (received 7 inputs)).reverse.take MAX_RECENT_TASKS =
        [sampleTask "t2", sampleTask "t1"] ∧
      (afterFrames frames).store.recentTasks ≠
        (tasksIn frames.flatten).reverse.take MAX_RECENT_TASKS := by
  decide

end Feloxi.Ws
