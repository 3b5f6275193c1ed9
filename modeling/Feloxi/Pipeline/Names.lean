import Feloxi.Pipeline.Conservation

/-!
# Feloxi.Pipeline.Names

Where `backfill_task_names` takes the name of a task from: the batch, or else the cache. The map
of the known names is a hash map, and its entries are written to the cache in the order in which
it is walked.
-/

namespace Feloxi.Pipeline

/-! ### The walk over the names -/

/-- An order in which a hash map of names is walked. -/
structure NameOrder where
  order : List (String × String) → List (String × String)
  order_perm : ∀ names, (order names).Perm names

/-- The order of insertion. -/
def NameOrder.insertion : NameOrder := ⟨id, fun _ => .refl _⟩

/-- `backfill_task_names`, with the order in which the names are collected for the cache. -/
def backfillInOrder (o : NameOrder) (env : TaskEnv) (tenantId : Uuid) (events : List RawTaskEvent)
    (w : World) : List RawTaskEvent × World :=
  let known := namesFor env tenantId events w
  (events.map (·.withName known),
    if known.isEmpty || env.fails .nameStore then w
    else w.cacheTaskNames tenantId (o.order known))

theorem backfillTaskNames_eq (env : TaskEnv) (tenantId : Uuid) (events : List RawTaskEvent)
    (w : World) :
    backfillTaskNames env tenantId events w =
      backfillInOrder .insertion env tenantId events w := rfl

/-! ### What a name is taken from -/

/-- The first name of a task in a batch. -/
def batchName (events : List RawTaskEvent) (taskId : String) : Option String :=
  (events.find? fun e => e.taskId == taskId && !e.taskName.isEmpty).map (·.taskName)

/-- The name that the cache gives for a task; none if it cannot be read. -/
def cachedName (env : TaskEnv) (tenantId : Uuid) (w : World) (taskId : String) : Option String :=
  if env.fails .nameLookup then none else w.taskNames tenantId taskId

/-- The event as it is stored. -/
def named (env : TaskEnv) (tenantId : Uuid) (events : List RawTaskEvent) (w : World)
    (e : RawTaskEvent) : RawTaskEvent :=
  if e.taskName.isEmpty then
    { e with taskName :=
        ((batchName events e.taskId).or (cachedName env tenantId w e.taskId)).getD "" }
  else e

theorem batchName_cons (e : RawTaskEvent) (events : List RawTaskEvent) (taskId : String) :
    batchName (e :: events) taskId =
      if e.taskId = taskId ∧ e.taskName ≠ "" then some e.taskName else batchName events taskId := by
  by_cases h : e.taskId = taskId ∧ e.taskName ≠ ""
  · simp [batchName, h]
  · rw [if_neg h, batchName, List.find?_cons_of_neg, batchName]
    simpa using h

/-- A batch gives no blank name. -/
theorem batchName_ne_blank (events : List RawTaskEvent) (taskId : String) :
    batchName events taskId ≠ some "" := by
  intro h
  obtain ⟨e, he, hblank⟩ := Option.map_eq_some_iff.1 h
  have := List.find?_some he
  simp [hblank] at this

/-! ### The map of the known names -/

/-- The names known before a batch come first. -/
theorem lookup_foldl_known (events : List RawTaskEvent) (known : List (String × String))
    (taskId : String) :
    (events.foldl (fun known e =>
        if e.taskName.isEmpty || (known.lookup e.taskId).isSome then known
        else known ++ [(e.taskId, e.taskName)]) known).lookup taskId =
      (known.lookup taskId).or (batchName events taskId) := by
  induction events generalizing known with
  | nil => simp [batchName]
  | cons e events ih =>
      rw [List.foldl_cons, ih, batchName_cons]
      by_cases hblank : e.taskName = ""
      · simp [hblank]
      · cases hknown : known.lookup e.taskId with
        | some name =>
            by_cases htask : e.taskId = taskId
            · subst htask
              simp [hknown]
            · simp [htask]
        | none =>
            by_cases htask : e.taskId = taskId
            · subst htask
              simp [hblank, hknown, List.lookup_append]
            · have hne : (taskId == e.taskId) = false := beq_false_of_ne (Ne.symm htask)
              simp [hblank, htask, hne, List.lookup_append, List.lookup_cons]

theorem lookup_knownNames (events : List RawTaskEvent) (taskId : String) :
    (knownNames events).lookup taskId = batchName events taskId := by
  rw [knownNames, lookup_foldl_known]
  rfl

/-- A name is known once. -/
theorem nodup_knownNames (events : List RawTaskEvent) :
    ((knownNames events).map Prod.fst).Nodup := by
  have hstep : ∀ (events : List RawTaskEvent) (known : List (String × String)),
      (known.map Prod.fst).Nodup →
        ((events.foldl (fun known e =>
          if e.taskName.isEmpty || (known.lookup e.taskId).isSome then known
          else known ++ [(e.taskId, e.taskName)]) known).map Prod.fst).Nodup := by
    intro events
    induction events with
    | nil => exact fun known h => h
    | cons e events ih =>
        intro known h
        rw [List.foldl_cons]
        refine ih _ ?_
        split
        · exact h
        · rename_i hcond
          have hnew : known.lookup e.taskId = none := by
            rw [Bool.or_eq_true, not_or] at hcond
            exact Option.not_isSome_iff_eq_none.1 hcond.2
          rw [List.map_append, List.nodup_append]
          refine ⟨h, by simp, ?_⟩
          intro k hk k' hk' heq
          obtain ⟨entry, hentry, hfst⟩ := List.mem_map.1 hk
          rw [List.lookup_eq_none_iff] at hnew
          have := hnew entry hentry
          simp only [List.map_cons, List.map_nil, List.mem_singleton] at hk'
          simp [hfst, heq, hk'] at this
  exact hstep events [] List.nodup_nil

/-- The cached names of the tasks that are looked up are put over those of the batch. -/
theorem lookup_foldl_cached (cache : String → Option String) (need : List String)
    (known : List (String × String)) (taskId : String) :
    ((need.zip (need.map cache)).foldl (fun known e =>
        match e.2 with
        | some name => Assoc.put e.1 name known
        | none => known) known).lookup taskId =
      if taskId ∈ need then (cache taskId).or (known.lookup taskId) else known.lookup taskId := by
  induction need generalizing known with
  | nil => rfl
  | cons id need ih =>
      rw [List.map_cons, List.zip_cons_cons, List.foldl_cons, ih]
      by_cases hid : taskId = id
      · subst hid
        cases hcache : cache taskId <;> simp
      · cases hcache : cache id with
        | none => simp [hid]
        | some name => simp [hid, Assoc.lookup_put_of_ne hid]

/-- Whether the cache is asked for the name of a task. -/
def Needed (events : List RawTaskEvent) (taskId : String) : Prop :=
  batchName events taskId = none ∧ ∃ e ∈ events, e.taskId = taskId ∧ e.taskName = ""

theorem mem_need {events : List RawTaskEvent} {taskId : String} :
    taskId ∈ ((events.filter fun e =>
      e.taskName.isEmpty && ((knownNames events).lookup e.taskId).isNone).map (·.taskId)) ↔
        Needed events taskId := by
  simp only [List.mem_map, List.mem_filter, lookup_knownNames, Bool.and_eq_true,
    String.isEmpty_iff, Option.isNone_iff_eq_none]
  constructor
  · intro ⟨e, ⟨he, hblank, hnone⟩, hid⟩
    exact ⟨hid ▸ hnone, e, he, hid, hblank⟩
  · intro ⟨hnone, e, he, hid, hblank⟩
    exact ⟨e, ⟨he, hblank, hid ▸ hnone⟩, hid⟩

section

variable (env : TaskEnv) (tenantId : Uuid) (events : List RawTaskEvent) (w : World)

/-- The known names: those of the batch, and the cached ones that are needed. -/
theorem lookup_namesFor (taskId : String) [Decidable (Needed events taskId)] :
    (namesFor env tenantId events w).lookup taskId =
      (batchName events taskId).or
        (if Needed events taskId then cachedName env tenantId w taskId else none) := by
  unfold namesFor cachedName
  dsimp only
  split
  · rename_i hskip
    rw [lookup_knownNames]
    rcases Bool.or_eq_true _ _ ▸ hskip with hempty | hfails
    · have hnot : ¬ Needed events taskId := by
        rw [← mem_need, List.isEmpty_iff.1 hempty]
        exact List.not_mem_nil
      simp [hnot]
    · simp [hfails]
  · rename_i hlook
    rw [Bool.or_eq_true, not_or] at hlook
    refine (lookup_foldl_cached (w.taskNames tenantId) _ (knownNames events) taskId).trans ?_
    rw [lookup_knownNames]
    by_cases hneeded : Needed events taskId
    · rw [if_pos (mem_need.2 hneeded), if_pos hneeded, if_neg hlook.2, hneeded.1, Option.or_none,
        Option.none_or]
    · rw [if_neg (mt mem_need.1 hneeded), if_neg hneeded, Option.or_none]

theorem nodup_namesFor : ((namesFor env tenantId events w).map Prod.fst).Nodup := by
  have hstep : ∀ (found : List (String × Option String)) (known : List (String × String)),
      (known.map Prod.fst).Nodup →
        ((found.foldl (fun known e =>
          match e.2 with
          | some name => Assoc.put e.1 name known
          | none => known) known).map Prod.fst).Nodup := by
    intro found
    induction found with
    | nil => exact fun known h => h
    | cons e found ih =>
        intro known h
        rw [List.foldl_cons]
        refine ih _ ?_
        cases e.2 with
        | none => exact h
        | some name => exact Assoc.nodup_put h
  unfold namesFor
  dsimp only
  split
  · exact nodup_knownNames events
  · exact hstep _ _ (nodup_knownNames events)

end

/-! ### The cache -/

/-- The names of a tenant after a run of writes. -/
def writeNames (names : String → Option String) (entries : List (String × String)) :
    String → Option String :=
  entries.foldl (fun names e => Function.update names e.1 (some e.2)) names

theorem cacheTaskNames_eq (w : World) (tenantId : Uuid) (entries : List (String × String)) :
    w.cacheTaskNames tenantId entries =
      { w with taskNames :=
          Function.update w.taskNames tenantId (writeNames (w.taskNames tenantId) entries) } := rfl

theorem writeNames_apply {entries : List (String × String)} (names : String → Option String)
    (hnodup : (entries.map Prod.fst).Nodup) (taskId : String) :
    writeNames names entries taskId = (entries.lookup taskId).or (names taskId) := by
  induction entries generalizing names with
  | nil => rfl
  | cons e entries ih =>
      rw [List.map_cons, List.nodup_cons] at hnodup
      rw [writeNames, List.foldl_cons, ← writeNames, ih _ hnodup.2, List.lookup_cons]
      by_cases htask : taskId = e.1
      · have hnone : entries.lookup e.1 = none := by
          rw [List.lookup_eq_none_iff]
          intro entry hentry
          exact bne_iff_ne.2 fun heq => hnodup.1 (List.mem_map.2 ⟨entry, hentry, heq.symm⟩)
        simp [htask, hnone]
      · have hne : (taskId == e.1) = false := beq_false_of_ne htask
        simp [hne, htask]

/-- Names of distinct tasks can be written in any order. -/
theorem writeNames_perm {entries entries' : List (String × String)} (h : entries.Perm entries')
    (hnodup : (entries.map Prod.fst).Nodup) (names : String → Option String) :
    writeNames names entries = writeNames names entries' := by
  refine h.foldl_eq' (fun x hx y hy z => ?_) names
  by_cases hkey : x.1 = y.1
  · rw [List.inj_on_of_nodup_map hnodup hx hy hkey]
  · exact Function.update_comm hkey ..

section

variable (o : NameOrder) (env : TaskEnv) (tenantId : Uuid) (events : List RawTaskEvent) (w : World)

/-- The order in which the names are walked makes no difference. -/
theorem backfillInOrder_eq :
    backfillInOrder o env tenantId events w = backfillTaskNames env tenantId events w := by
  have hperm := o.order_perm (namesFor env tenantId events w)
  have hnodup : ((o.order (namesFor env tenantId events w)).map Prod.fst).Nodup :=
    (hperm.map Prod.fst).nodup_iff.2 (nodup_namesFor env tenantId events w)
  simp only [backfillInOrder, backfillTaskNames, cacheTaskNames_eq, writeNames_perm hperm hnodup]

/-- A blank name is only filled from the cache if the cache was asked. -/
theorem withName_namesFor {e : RawTaskEvent} (he : e ∈ events) :
    e.withName (namesFor env tenantId events w) = named env tenantId events w e := by
  classical
  unfold RawTaskEvent.withName named
  split
  · rename_i hblank
    rw [String.isEmpty_iff] at hblank
    rw [lookup_namesFor]
    cases hbatch : batchName events e.taskId with
    | some name => rfl
    | none =>
        rw [if_pos ⟨hbatch, e, he, rfl, hblank⟩]
        cases cachedName env tenantId w e.taskId with
        | some name => rfl
        | none => simp [← hblank]
  · rfl

theorem backfillTaskNames_fst :
    (backfillTaskNames env tenantId events w).1 = events.map (named env tenantId events w) :=
  List.map_congr_left fun _ he => withName_namesFor env tenantId events w he

/-- The cache holds the names of the batch on top of what it held. -/
theorem backfillTaskNames_snd :
    (backfillTaskNames env tenantId events w).2 =
      if env.fails .nameStore then w
      else { w with taskNames := Function.update w.taskNames tenantId fun taskId =>
        (batchName events taskId).or (w.taskNames tenantId taskId) } := by
  classical
  have hnames : writeNames (w.taskNames tenantId) (namesFor env tenantId events w) =
      fun taskId => (batchName events taskId).or (w.taskNames tenantId taskId) := by
    funext taskId
    rw [writeNames_apply _ (nodup_namesFor env tenantId events w), lookup_namesFor, Option.or_assoc]
    congr 1
    -- what comes from the cache is in it already
    unfold cachedName
    split
    · split
      · rfl
      · cases w.taskNames tenantId taskId <;> rfl
    · rfl
  unfold backfillTaskNames
  dsimp only
  by_cases hstore : env.fails .nameStore = true
  · simp [hstore]
  · cases hknown : namesFor env tenantId events w with
    | nil =>
        rw [hknown] at hnames
        have hsame : (fun taskId => (batchName events taskId).or (w.taskNames tenantId taskId)) =
            w.taskNames tenantId := hnames.symm
        simp [hsame]
    | cons e known =>
        rw [← hknown, cacheTaskNames_eq, hnames, hknown]
        simp [hstore]

theorem named_blank {e : RawTaskEvent} (h : e.taskName = "") :
    (named env tenantId events w e).taskName =
      ((batchName events e.taskId).or (cachedName env tenantId w e.taskId)).getD "" := by
  simp [named, h]

/-- Without a name to be found, a blank event stays as it is. -/
theorem named_eq_self {e : RawTaskEvent} (h : e.taskName = "")
    (hname : ((batchName events e.taskId).or (cachedName env tenantId w e.taskId)).getD "" = "") :
    named env tenantId events w e = e := by
  rw [named, if_pos (String.isEmpty_iff.2 h), hname]
  cases e
  cases h
  rfl

theorem named_taskId (e : RawTaskEvent) : (named env tenantId events w e).taskId = e.taskId := by
  unfold named
  split <;> rfl

/-- A name that the batch has is the one that comes out first. -/
theorem batchName_named_of_some {taskId name : String} (h : batchName events taskId = some name) :
    batchName (events.map (named env tenantId events w)) taskId = some name := by
  have hne : name ≠ "" := by
    intro hblank
    exact batchName_ne_blank events taskId (hblank ▸ h)
  have hrest : ∀ es : List RawTaskEvent, batchName es taskId = some name →
      batchName (es.map (named env tenantId events w)) taskId = some name := by
    intro es hes
    induction es with
    | nil => cases hes
    | cons e es ih =>
        rw [batchName_cons] at hes
        rw [List.map_cons, batchName_cons, named_taskId]
        by_cases htask : e.taskId = taskId
        · by_cases hblank : e.taskName = ""
          · -- the blank event is filled with the name found behind it
            have hfilled : (named env tenantId events w e).taskName = name := by
              rw [named_blank _ _ _ _ hblank, htask, h, Option.some_or, Option.getD_some]
            rw [hfilled, if_pos ⟨htask, hne⟩]
          · rw [if_pos ⟨htask, hblank⟩] at hes
            have hkept : named env tenantId events w e = e := by simp [named, hblank]
            rw [hkept, if_pos ⟨htask, hblank⟩, hes]
        · rw [if_neg fun hcond => htask hcond.1] at hes ⊢
          exact ih hes
  exact hrest events h

/-- A name that comes out is that of the batch, or else the cached one. -/
theorem batchName_named {taskId name : String}
    (h : batchName (events.map (named env tenantId events w)) taskId = some name) :
    ((batchName events taskId).or (cachedName env tenantId w taskId)) = some name := by
  cases hbatch : batchName events taskId with
  | some known =>
      rw [batchName_named_of_some env tenantId events w hbatch] at h
      exact h
  | none =>
      obtain ⟨e', he', hname⟩ := Option.map_eq_some_iff.1 h
      obtain ⟨e, he, rfl⟩ := List.mem_map.1 (List.mem_of_find?_eq_some he')
      have hfound := List.find?_some he'
      simp only [named_taskId, Bool.and_eq_true, beq_iff_eq, Bool.not_eq_true',
        String.isEmpty_eq_false_iff] at hfound
      have hblank : e.taskName = "" := by
        have hnone := List.find?_eq_none.1 (Option.map_eq_none_iff.1 hbatch) e he
        simpa [hfound.1] using hnone
      rw [named_blank _ _ _ _ hblank, hfound.1, hbatch, Option.none_or] at hname hfound
      cases hcached : cachedName env tenantId w taskId with
      | none => exact absurd (by rw [hcached]; rfl) hfound.2
      | some cached =>
          rw [hcached] at hname
          exact congrArg some hname

/-- A name stays blank only if neither the batch nor the cache has one. -/
theorem eq_blank_of_named {e : RawTaskEvent} (h : (named env tenantId events w e).taskName = "") :
    e.taskName = "" ∧ batchName events e.taskId = none ∧
      ∀ name, cachedName env tenantId w e.taskId = some name → name = "" := by
  have hsource : e.taskName = "" := by
    by_contra hne
    simp [named, hne] at h
  rw [named_blank _ _ _ _ hsource] at h
  cases hbatch : batchName events e.taskId with
  | some name =>
      rw [hbatch] at h
      exact absurd (hbatch.trans (congrArg some h)) (batchName_ne_blank events e.taskId)
  | none =>
      refine ⟨hsource, rfl, fun name hcached => ?_⟩
      rw [hbatch, hcached] at h
      exact h

theorem taskNames_backfill (taskId : String) :
    (backfillTaskNames env tenantId events w).2.taskNames tenantId taskId =
      if env.fails .nameStore then w.taskNames tenantId taskId
      else (batchName events taskId).or (w.taskNames tenantId taskId) := by
  rw [backfillTaskNames_snd]
  split <;> simp

/-- No blank name gets into the cache. -/
theorem taskNames_backfill_ne_blank (h : ∀ taskId, w.taskNames tenantId taskId ≠ some "")
    (taskId : String) :
    (backfillTaskNames env tenantId events w).2.taskNames tenantId taskId ≠ some "" := by
  rw [taskNames_backfill]
  split
  · exact h taskId
  · cases hbatch : batchName events taskId with
    | some name =>
        rw [Option.some_or, ← hbatch]
        exact batchName_ne_blank events taskId
    | none => exact h taskId

theorem cachedName_eq_some {taskId name : String} :
    cachedName env tenantId w taskId = some name ↔
      env.fails .nameLookup = false ∧ w.taskNames tenantId taskId = some name := by
  unfold cachedName
  split <;> simp_all

/-- A second call finds the names filled in and the cache up to date. -/
theorem backfillTaskNames_again {env' : TaskEnv}
    (hfails : ∀ point, env.fails point = true → env'.fails point = true) :
    backfillTaskNames env' tenantId (backfillTaskNames env tenantId events w).1
      (backfillTaskNames env tenantId events w).2 = backfillTaskNames env tenantId events w := by
  have hfst := backfillTaskNames_fst env tenantId events w
  have hnames := taskNames_backfill env tenantId events w
  generalize hcall : backfillTaskNames env tenantId events w = r at hfst hnames
  refine Prod.ext ?_ ?_
  · rw [backfillTaskNames_fst]
    refine (List.map_congr_left fun e' he' => ?_).trans (List.map_id _)
    by_cases hblank : e'.taskName = ""
    · -- what is still blank has no name in the batch, and none but a blank one in the cache
      rw [hfst] at he'
      obtain ⟨e, -, rfl⟩ := List.mem_map.1 he'
      obtain ⟨-, hbatch, hcached⟩ := eq_blank_of_named env tenantId events w hblank
      have hbatch' : batchName r.1 e.taskId = none := by
        rw [Option.eq_none_iff_forall_ne_some, hfst]
        intro name hname
        have := batchName_named env tenantId events w hname
        rw [hbatch, Option.none_or] at this
        obtain rfl := hcached name this
        exact batchName_ne_blank _ _ hname
      have hcached' : (cachedName env' tenantId r.2 e.taskId).getD "" = "" := by
        cases hname : cachedName env' tenantId r.2 e.taskId with
        | none => rfl
        | some name =>
            obtain ⟨hlookup, hname⟩ := (cachedName_eq_some ..).1 hname
            have hsame : w.taskNames tenantId e.taskId = some name := by
              rw [hnames, hbatch, Option.none_or, ite_self] at hname
              exact hname
            have hworked : env.fails .nameLookup = false := by
              by_contra hfailed
              rw [hfails _ (Bool.not_eq_false _ ▸ hfailed)] at hlookup
              cases hlookup
            exact hcached name ((cachedName_eq_some ..).2 ⟨hworked, hsame⟩)
      refine named_eq_self env' tenantId r.1 r.2 hblank ?_
      rw [named_taskId, hbatch', Option.none_or, hcached']
    · simp [named, hblank]
  · rw [backfillTaskNames_snd]
    split
    · rfl
    · rename_i hstore
      have hstored : ¬ env.fails .nameStore = true := fun h => hstore (hfails _ h)
      have hsame : (fun taskId => (batchName r.1 taskId).or (r.2.taskNames tenantId taskId)) =
          r.2.taskNames tenantId := by
        funext taskId
        cases hname : batchName r.1 taskId with
        | none => rfl
        | some name =>
            rw [hfst] at hname
            rw [hnames, if_neg hstored]
            have := batchName_named env tenantId events w hname
            cases hbatch : batchName events taskId with
            | some known => rw [hbatch] at this; simpa using this.symm
            | none =>
                rw [hbatch, Option.none_or] at this
                rw [((cachedName_eq_some ..).1 this).2]
                rfl
      rw [hsame, Function.update_eq_self]

/-- **Name backfill.** Only blank names change: into the first name of the task in the batch, or
else the cached one. The cache has the names of the batch on top of its own, none of them blank.
Neither depends on the order in which the names are walked, and a second call, in which nothing
succeeds that failed before, changes nothing. -/
theorem backfillInOrder_spec :
    (backfillInOrder o env tenantId events w).1 = events.map (named env tenantId events w) ∧
      (∀ e ∈ events, (named env tenantId events w e).taskName = "" → e.taskName = "" ∧
        batchName events e.taskId = none ∧
        ∀ name, cachedName env tenantId w e.taskId = some name → name = "") ∧
      (backfillInOrder o env tenantId events w).2 = (if env.fails .nameStore then w
        else { w with taskNames := Function.update w.taskNames tenantId fun taskId =>
          (batchName events taskId).or (w.taskNames tenantId taskId) }) ∧
      ((∀ taskId, w.taskNames tenantId taskId ≠ some "") → ∀ taskId,
        (backfillInOrder o env tenantId events w).2.taskNames tenantId taskId ≠ some "") ∧
      (∀ o', backfillInOrder o' env tenantId events w =
        backfillInOrder o env tenantId events w) ∧
      ∀ o' env', (∀ point, env.fails point = true → env'.fails point = true) →
        backfillInOrder o' env' tenantId (backfillInOrder o env tenantId events w).1
          (backfillInOrder o env tenantId events w).2 =
            backfillInOrder o env tenantId events w := by
  simp only [backfillInOrder_eq, implies_true, true_and]
  exact ⟨backfillTaskNames_fst env tenantId events w,
    fun e _ h => eq_blank_of_named env tenantId events w h,
    backfillTaskNames_snd env tenantId events w,
    taskNames_backfill_ne_blank env tenantId events w,
    fun _ env' hfails => backfillTaskNames_again env tenantId events w hfails⟩

end

end Feloxi.Pipeline
