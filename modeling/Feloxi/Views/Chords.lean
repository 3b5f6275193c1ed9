import Feloxi.Views.DagEdges

/-!
# Feloxi.Views.Chords

The callback of a chord. `build_dag` looks for the task with the chord's id and for a task with the
chord but no group in one search, so that the second comes out if it stands in front of the first.
-/

namespace Feloxi.Views

variable {tasks : List DagNode} {c : String}

/-! ### The edges of a chord -/

/-- Where an edge of the chord should lead: to the task with its id, or if not found, to a task
with this chord that is in no group. -/
def LeadsToCallback (tasks : List DagNode) (c target : String) : Prop :=
  if c ∈ tasks.map (·.taskId) then target = c
  else ∃ t ∈ tasks, t.taskId = target ∧ t.groupId = none ∧ t.chordId = some c

/-- Every edge of the chord leads there. -/
def CallbackPreferred (edges : List DagEdge) (tasks : List DagNode) (c : String) : Prop :=
  ∀ e ∈ edges, e.edgeType = .chord →
    (∃ member ∈ tasks, member.taskId = e.source ∧ member.chordId = some c) →
      LeadsToCallback tasks c e.target

theorem mem_chordLinks {e : DagEdge} :
    e ∈ chordLinks tasks ↔ ∃ task ∈ tasks, ∃ chordId, task.chordId = some chordId ∧
      ∃ callback, chordCallback tasks chordId = some callback ∧ task.taskId ≠ callback.taskId ∧
        e = ⟨task.taskId, callback.taskId, .chord⟩ :=
  (chordEdges_perm insertionOrder tasks).mem_iff.symm.trans mem_chordEdges

/-- The other rules have other types. -/
theorem mem_chord_iff (groups chords : HashOrder) {e : DagEdge} (he : e.edgeType = .chord) :
    e ∈ (buildDagBy groups chords tasks).edges ↔ e ∈ chordLinks tasks := by
  rw [(edges_buildDagBy groups chords tasks).mem_iff, links]
  simp only [List.mem_append]
  constructor
  · intro h
    obtain ((h | h) | h) | h := h
    · obtain ⟨_, -, _, -, -, rfl⟩ := mem_parentEdges.1 h
      cases he
    · obtain ⟨_, _, _, -, -, -, rfl⟩ :=
        mem_groupEdges.1 ((groupEdges_perm insertionOrder tasks).mem_iff.2 h)
      cases he
    · exact h
    · obtain ⟨_, -, rfl⟩ := List.mem_map.1 h
      cases he
  · intro h
    exact .inl (.inr h)

theorem eq_of_taskId (hids : (tasks.map (·.taskId)).Nodup) {t u : DagNode} (ht : t ∈ tasks)
    (hu : u ∈ tasks) (h : t.taskId = u.taskId) : t = u := List.inj_on_of_nodup_map hids ht hu h

/-- In terms of the tasks that carry the chord. -/
theorem callbackPreferred_iff (hids : (tasks.map (·.taskId)).Nodup) (groups chords : HashOrder) :
    CallbackPreferred (buildDagBy groups chords tasks).edges tasks c ↔
      ∀ callback, chordCallback tasks c = some callback → ∀ member ∈ tasks,
        member.chordId = some c → member.taskId ≠ callback.taskId →
          LeadsToCallback tasks c callback.taskId := by
  constructor
  · intro h callback hcallback member hmember hchord hne
    have hedge : (⟨member.taskId, callback.taskId, .chord⟩ : DagEdge) ∈ chordLinks tasks :=
      mem_chordLinks.2 ⟨member, hmember, c, hchord, callback, hcallback, hne, rfl⟩
    exact h _ ((mem_chord_iff groups chords rfl).2 hedge) rfl ⟨member, hmember, rfl, hchord⟩
  · intro h e he htype hcarried
    obtain ⟨member, hmember, hsource, hchord⟩ := hcarried
    obtain ⟨task, htask, chordId, hchordId, callback, hcallback, hne, rfl⟩ :=
      mem_chordLinks.1 ((mem_chord_iff groups chords htype).1 he)
    -- an id has one task, and a task has one chord
    obtain rfl := eq_of_taskId hids hmember htask hsource
    obtain rfl := Option.some.inj (hchordId.symm.trans hchord)
    exact h callback hcallback member hmember hchord hne

/-! ### The search -/

theorem chordCallback_cases {callback : DagNode} (h : chordCallback tasks c = some callback) :
    callback ∈ tasks ∧
      (callback.taskId = c ∨ callback.groupId = none ∧ callback.chordId = some c) := by
  refine ⟨List.mem_of_find?_eq_some h, ?_⟩
  simpa using List.find?_some h

theorem chordCallback_append {before behind : List DagNode} {task : DagNode}
    (hid : task.taskId = c) (hbefore : ∀ t ∈ before, t.taskId ≠ c)
    (hnone : ∀ t ∈ before, t.groupId = none → t.chordId ≠ some c) :
    chordCallback (before ++ task :: behind) c = some task := by
  have hskip : before.find? (fun t => t.taskId == c || (t.groupId.isNone && t.chordId == some c)) =
      none := by
    rw [List.find?_eq_none]
    intro t ht
    simpa [hbefore t ht] using hnone t ht
  rw [chordCallback, List.find?_append, hskip, List.find?_cons_of_pos (by simp [hid])]
  rfl

/-- A task with the chord but no group that stands in front is found first. -/
theorem chordCallback_of_before {before : List DagNode} (behind : List DagNode) {t : DagNode}
    (ht : t ∈ before) (hgroup : t.groupId = none) (hchord : t.chordId = some c) :
    ∃ callback ∈ before, chordCallback (before ++ behind) c = some callback := by
  have hsome : (before.find? fun t =>
      t.taskId == c || (t.groupId.isNone && t.chordId == some c)).isSome := by
    rw [List.find?_isSome]
    exact ⟨t, ht, by simp [hgroup, hchord]⟩
  obtain ⟨callback, hcallback⟩ := Option.isSome_iff_exists.1 hsome
  refine ⟨callback, List.mem_of_find?_eq_some hcallback, ?_⟩
  rw [chordCallback, List.find?_append, hcallback]
  rfl

/-- The tasks that carry the chord. -/
def members (tasks : List DagNode) (c : String) : List DagNode :=
  tasks.filter fun t => t.chordId == some c

theorem mem_members {t : DagNode} : t ∈ members tasks c ↔ t ∈ tasks ∧ t.chordId = some c := by
  simp [members]

/-- If no other task carries the chord, there is no edge. -/
theorem length_members_le_one (hids : (tasks.map (·.taskId)).Nodup) {t : DagNode} (ht : t ∈ tasks)
    (hchord : t.chordId = some c) :
    (members tasks c).length ≤ 1 ↔
      ∀ member ∈ tasks, member.chordId = some c → member.taskId = t.taskId := by
  constructor
  · intro h member hmember hcarried
    have hboth : [member, t] ⊆ members tasks c := by
      simp [mem_members, hmember, hcarried, ht, hchord]
    by_contra hne
    have htwo : [member, t].Nodup := by simpa using fun heq : member = t => hne (heq ▸ rfl)
    have hle := (List.subperm_of_subset htwo hboth).length_le
    simp only [List.length_cons, List.length_nil] at hle
    omega
  · intro h
    have hall : ∀ u ∈ members tasks c, u = t := by
      intro u hu
      obtain ⟨hu, hcarried⟩ := mem_members.1 hu
      exact eq_of_taskId hids hu ht (h u hu hcarried)
    have hnodup : (members tasks c).Nodup := (hids.of_map _).filter _
    have hsubset : members tasks c ⊆ [t] := fun u hu => List.mem_singleton.2 (hall u hu)
    exact (List.subperm_of_subset hnodup hsubset).length_le

/-! ### The preference -/

theorem ne_of_before (hids : (tasks.map (·.taskId)).Nodup) {before behind : List DagNode}
    {task t : DagNode} (htasks : tasks = before ++ task :: behind) (hid : task.taskId = c)
    (ht : t ∈ before) : t.taskId ≠ c := by
  rw [htasks, List.map_append, List.nodup_append] at hids
  rw [← hid]
  exact hids.2.2 _ (mem_ids ht) _ List.mem_cons_self

/-- **Chord callbacks.** The task with the chord's id is the callback wherever it stands, unless
a task of the chord without a group stands in front of it, with another member to point to it. -/
theorem chord_callback_preferred_iff (groups chords : HashOrder) (tasks : List DagNode)
    (hids : (tasks.map (·.taskId)).Nodup) (c : String) :
    CallbackPreferred (buildDagBy groups chords tasks).edges tasks c ↔
      ∀ before task behind, tasks = before ++ task :: behind → task.taskId = c →
        (∀ t ∈ before, t.groupId = none → t.chordId ≠ some c) ∨
          (members tasks c).length ≤ 1 := by
  rw [callbackPreferred_iff hids]
  constructor
  · intro h before task behind htasks hid
    by_cases hnone : ∀ t ∈ before, t.groupId = none → t.chordId ≠ some c
    · exact .inl hnone
    · right
      push Not at hnone
      obtain ⟨t, ht, hgroup, hchord⟩ := hnone
      obtain ⟨callback, hbefore, hcallback⟩ :=
        chordCallback_of_before (task :: behind) ht hgroup hchord
      rw [← htasks] at hcallback
      obtain ⟨hmem, hcase⟩ := chordCallback_cases hcallback
      have hother := ne_of_before hids htasks hid hbefore
      refine (length_members_le_one hids hmem (hcase.resolve_left hother).2).2 ?_
      -- another member would point to a task that is not `c`
      intro member hmember hcarried
      by_contra hne
      have hleads := h callback hcallback member hmember hcarried hne
      have hknown : c ∈ tasks.map (·.taskId) := by simp [htasks, ← hid]
      rw [LeadsToCallback, if_pos hknown] at hleads
      exact hother hleads
  · intro h callback hcallback member hmember hcarried hne
    obtain ⟨hmem, hcase⟩ := chordCallback_cases hcallback
    rw [LeadsToCallback]
    split
    · rename_i hknown
      obtain ⟨task, htask, hid⟩ := List.mem_map.1 hknown
      obtain ⟨before, behind, htasks⟩ := List.append_of_mem htask
      rcases h before task behind htasks hid with hnone | hone
      · have hbefore : ∀ t ∈ before, t.taskId ≠ c := fun t ht => ne_of_before hids htasks hid ht
        rw [htasks, chordCallback_append hid hbefore hnone] at hcallback
        rw [← Option.some.inj hcallback, hid]
      · rcases hcase with hself | ⟨-, hchord⟩
        · exact hself
        · exact absurd ((length_members_le_one hids hmem hchord).1 hone member hmember hcarried) hne
    · rename_i hunknown
      have hother : callback.taskId ≠ c := fun heq => hunknown (heq ▸ mem_ids hmem)
      exact ⟨callback, hmem, rfl, hcase.resolve_left hother⟩

theorem chord_callback_preferred_iff_sample :
    CallbackPreferred (buildDagBy insertionOrder insertionOrder sampleWorkflow).edges
        sampleWorkflow "c" ↔
      ∀ before task behind, sampleWorkflow = before ++ task :: behind → task.taskId = "c" →
        (∀ t ∈ before, t.groupId = none → t.chordId ≠ some "c") ∨
          (members sampleWorkflow "c").length ≤ 1 :=
  chord_callback_preferred_iff insertionOrder insertionOrder sampleWorkflow (by decide) "c"

/-- A task outside of the group carries the chord too, and stands in front of the callback. -/
def shadowedWorkflow : List DagNode :=
  [{ sampleNode "x" none with chordId := some "c" },
    { sampleNode "m" none with groupId := some "g", chordId := some "c" }, sampleNode "c" none]

theorem callback_shadowed :
    "c" ∈ shadowedWorkflow.map (·.taskId) ∧
      (⟨"m", "x", .chord⟩ : DagEdge) ∈
        (buildDagBy insertionOrder insertionOrder shadowedWorkflow).edges ∧
      ¬ CallbackPreferred (buildDagBy insertionOrder insertionOrder shadowedWorkflow).edges
        shadowedWorkflow "c" := by
  have hedge : (⟨"m", "x", .chord⟩ : DagEdge) ∈
      (buildDagBy insertionOrder insertionOrder shadowedWorkflow).edges := by decide
  refine ⟨by decide, hedge, fun h => ?_⟩
  have hleads := h _ hedge rfl (by decide)
  rw [LeadsToCallback, if_pos (by decide)] at hleads
  exact absurd hleads (by decide)

end Feloxi.Views
