import Feloxi.Lib.Grouping
import Feloxi.Views.Dag

/-!
# Feloxi.Views.DagEdges

The edges of a workflow's graph, counted one by one, whatever order the two maps of `build_dag` are
gone through in. Each rule is put down without its map; the last one sees only what is linked.
-/

namespace Feloxi.Views

open Grouping

/-! ### The rules without maps -/

/-- `build_dag`, with an order for `groups` and another for `chord_targets`. -/
def buildDagBy (groups chords : HashOrder) (tasks : List DagNode) : WorkflowDag :=
  match tasks with
  | [] => ⟨"", [], []⟩
  | first :: _ =>
    let edges := parentEdges tasks ++ groupEdges groups tasks ++ chordEdges chords tasks
    ⟨first.taskId, tasks, edges ++ fallbackEdges (unconnected tasks edges)⟩

/-- The group of both tasks of a pair. -/
def sharedGroup (pair : DagNode × DagNode) : Option String :=
  if pair.1.groupId = pair.2.groupId then pair.1.groupId else none

/-- One edge for two tasks of a group, from the earlier to the later. -/
def groupLinks (tasks : List DagNode) : List DagEdge :=
  (pairs tasks).filterMap fun pair =>
    (sharedGroup pair).map fun _ => ⟨pair.1.taskId, pair.2.taskId, .group⟩

/-- One edge for a member of a chord, to the callback. -/
def chordLink (tasks : List DagNode) (chordId : String) (member : DagNode) : Option DagEdge :=
  (chordCallback tasks chordId).bind fun callback =>
    if member.taskId = callback.taskId then none
    else some ⟨member.taskId, callback.taskId, .chord⟩

def chordLinks (tasks : List DagNode) : List DagEdge :=
  tasks.filterMap fun task => task.chordId.bind fun chordId => chordLink tasks chordId task

/-- What parents, groups and chords link. -/
def links (tasks : List DagNode) : List DagEdge :=
  parentEdges tasks ++ groupLinks tasks ++ chordLinks tasks

/-! ### The rules with their maps -/

variable {tasks : List DagNode}

theorem buildDagBy_self (order : HashOrder) : buildDagBy order order = buildDag order := by
  funext tasks
  cases tasks <;> rfl

theorem pairs_filter {α : Type} (p : α → Bool) (l : List α) :
    pairs (l.filter p) = (pairs l).filter fun pair => p pair.1 && p pair.2 := by
  induction l with
  | nil => rfl
  | cons a l ih =>
      cases ha : p a with
      | false =>
          have hnone : (l.map fun b => (a, b)).filter (fun pair => p pair.1 && p pair.2) = [] := by
            simp [ha]
          rw [List.filter_cons_of_neg (by simp [ha]), pairs, List.filter_append, hnone, ih]
          rfl
      | true =>
          rw [List.filter_cons_of_pos ha, pairs, pairs, List.filter_append, ih, List.filter_map]
          simp [Function.comp_def, ha]

/-- The keys of a map filled from `key`. -/
theorem mem_keys (order : HashOrder) {key : DagNode → Option String} {task : DagNode}
    (htask : task ∈ tasks) {k : String} (hk : key task = some k) :
    k ∈ order.keys (tasks.filterMap key).dedup := by
  rw [(order.perm _).mem_iff, List.mem_dedup, List.mem_filterMap]
  exact ⟨task, htask, hk⟩

theorem nodup_keys (order : HashOrder) (ks : List String) : (order.keys ks.dedup).Nodup :=
  (order.perm _).nodup_iff.2 ks.nodup_dedup

theorem sharedGroup_eq_some {pair : DagNode × DagNode} {gid : String} :
    sharedGroup pair = some gid ↔ pair.1.groupId = some gid ∧ pair.2.groupId = some gid := by
  rw [sharedGroup]
  split
  · rename_i heq
    simp [← heq]
  · rename_i hne
    refine iff_of_false (by simp) ?_
    intro h
    exact hne (h.1.trans h.2.symm)

/-- 2. Group edges: the pairs of each group are the pairs that share it. -/
theorem groupEdges_perm (order : HashOrder) (tasks : List DagNode) :
    (groupEdges order tasks).Perm (groupLinks tasks) := by
  have hmembers : ∀ gid, pairs (tasks.filter fun task => task.groupId == some gid) =
      (pairs tasks).filter fun pair => sharedGroup pair == some gid := by
    intro gid
    rw [pairs_filter]
    refine List.filter_congr fun pair _ => Bool.eq_iff_iff.2 ?_
    simp [sharedGroup_eq_some]
  have hkeys : ∀ pair ∈ pairs tasks, ∀ gid, sharedGroup pair = some gid →
      gid ∈ order.keys (tasks.filterMap (·.groupId)).dedup := by
    intro pair hpair gid hgid
    have hfirst := (mem_pairs.1 hpair).subset List.mem_cons_self
    exact mem_keys order hfirst (sharedGroup_eq_some.1 hgid).1
  have hperm := flatMap_groups_perm (nodup_keys order _) hkeys fun _ pair =>
    some (⟨pair.1.taskId, pair.2.taskId, .group⟩ : DagEdge)
  rw [groupEdges, groupLinks]
  simpa [hmembers, Option.map_eq_bind] using hperm

/-- 3. Chord edges: each member has one chord. -/
theorem chordEdges_perm (order : HashOrder) (tasks : List DagNode) :
    (chordEdges order tasks).Perm (chordLinks tasks) := by
  have hkeys : ∀ task ∈ tasks, ∀ chordId, task.chordId = some chordId →
      chordId ∈ order.keys (tasks.filterMap (·.chordId)).dedup :=
    fun task htask chordId hk => mem_keys order htask hk
  have hperm := flatMap_groups_perm (nodup_keys order _) hkeys (chordLink tasks)
  have hchords : chordEdges order tasks = (order.keys (tasks.filterMap (·.chordId)).dedup).flatMap
      fun chordId => (tasks.filter fun task => task.chordId == some chordId).filterMap
        (chordLink tasks chordId) := by
    rw [chordEdges]
    refine List.flatMap_congr fun chordId _ => ?_
    cases hcallback : chordCallback tasks chordId with
    | none => simp [chordLink, hcallback]
    | some callback =>
        dsimp only
        rw [← List.filterMap_eq_map, List.filterMap_filter]
        refine List.filterMap_congr fun member _ => ?_
        by_cases hself : member.taskId = callback.taskId <;> simp [chordLink, hcallback, hself]
  rw [hchords]
  exact hperm

/-- The first three rules do not depend on the maps' orders. -/
theorem links_perm (groups chords : HashOrder) (tasks : List DagNode) :
    (parentEdges tasks ++ groupEdges groups tasks ++ chordEdges chords tasks).Perm (links tasks) :=
  ((groupEdges_perm groups tasks).append_left _).append (chordEdges_perm chords tasks)

/-! ### The tasks that are left -/

theorem mem_connected_iff {edges : List DagEdge} {id : String} :
    id ∈ connected edges ↔ ∃ e ∈ edges, e.source = id ∨ e.target = id := by
  simp [connected, List.mem_flatMap, eq_comm]

theorem unconnected_congr {edges edges' : List DagEdge} (h : edges.Perm edges') :
    unconnected tasks edges = unconnected tasks edges' := by
  have hends : ∀ id, id ∈ connected edges ↔ id ∈ connected edges' := by
    intro id
    simp [mem_connected_iff, h.mem_iff]
  rw [unconnected, unconnected]
  simp [hends]

theorem mem_unconnected {edges : List DagEdge} {t : DagNode} :
    t ∈ unconnected tasks edges ↔ t ∈ tasks ∧ t.groupId = none ∧
      ∀ e ∈ edges, e.source ≠ t.taskId ∧ e.target ≠ t.taskId := by
  rw [(unconnected_perm tasks edges).mem_iff, List.mem_filter, Bool.and_eq_true, decide_eq_true_eq,
    Option.isNone_iff_eq_none, mem_connected_iff]
  constructor
  · intro h
    refine ⟨h.1, h.2.2, fun e he => ⟨fun hsource => ?_, fun htarget => ?_⟩⟩
    · exact h.2.1 ⟨e, he, .inl hsource⟩
    · exact h.2.1 ⟨e, he, .inr htarget⟩
  · intro h
    refine ⟨h.1, fun hend => ?_, h.2.1⟩
    obtain ⟨e, he, hsource | htarget⟩ := hend
    · exact (h.2.2 e he).1 hsource
    · exact (h.2.2 e he).2 htarget

/-- By id, and no id twice. -/
theorem pairwise_unconnected (hids : (tasks.map (·.taskId)).Nodup) (edges : List DagEdge) :
    (unconnected tasks edges).Pairwise fun a b => a.taskId < b.taskId := by
  have hsorted : (unconnected tasks edges).Pairwise fun a b => a.taskId ≤ b.taskId :=
    List.pairwise_insertionSort (r := fun a b : DagNode => a.taskId ≤ b.taskId) _
  have hne := List.pairwise_map.1 (nodup_unconnected hids edges)
  refine (hsorted.and hne).imp fun {a b} h => String.not_le.1 fun hle => h.2 ?_
  exact String.le_antisymm h.1 hle

/-! ### All edges -/

theorem edges_buildDagBy (groups chords : HashOrder) (tasks : List DagNode) :
    (buildDagBy groups chords tasks).edges.Perm
      (links tasks ++ fallbackEdges (unconnected tasks (links tasks))) := by
  cases tasks with
  | nil => exact .refl _
  | cons first rest =>
      have hlinks := links_perm groups chords (first :: rest)
      rw [← unconnected_congr hlinks]
      exact hlinks.append_right _

theorem nodes_buildDagBy (groups chords : HashOrder) (tasks : List DagNode) :
    (buildDagBy groups chords tasks).nodes = tasks := by
  cases tasks <;> rfl

theorem mem_ids {t : DagNode} (h : t ∈ tasks) : t.taskId ∈ tasks.map (·.taskId) :=
  List.mem_map_of_mem h

theorem ends_links {e : DagEdge} (he : e ∈ links tasks) :
    e.source ∈ tasks.map (·.taskId) ∧ e.target ∈ tasks.map (·.taskId) := by
  rcases List.mem_append.1 he with he | he
  · rcases List.mem_append.1 he with he | he
    · obtain ⟨task, htask, pid, hknown, -, rfl⟩ := mem_parentEdges.1 he
      exact ⟨hknown, mem_ids htask⟩
    · obtain ⟨a, b, -, hsub, -, -, rfl⟩ :=
        mem_groupEdges.1 ((groupEdges_perm insertionOrder tasks).mem_iff.2 he)
      exact ⟨mem_ids (hsub.subset (by simp)), mem_ids (hsub.subset (by simp))⟩
  · obtain ⟨task, htask, _, -, callback, hcallback, -, rfl⟩ :=
      mem_chordEdges.1 ((chordEdges_perm insertionOrder tasks).mem_iff.2 he)
    exact ⟨mem_ids htask, mem_ids (List.mem_of_find?_eq_some hcallback)⟩

theorem ends_fallbackEdges {rest : List DagNode} {e : DagEdge} (he : e ∈ fallbackEdges rest) :
    e.source ∈ rest.map (·.taskId) ∧ e.target ∈ rest.map (·.taskId) := by
  obtain ⟨w, hw, rfl⟩ := List.mem_map.1 he
  obtain ⟨hfirst, hnext⟩ := List.of_mem_zip hw
  exact ⟨mem_ids hfirst, mem_ids (List.mem_of_mem_tail hnext)⟩

/-- **Edges.** Parents, groups and chords link what they say, and a chain in the order of the ids
goes through the tasks that are in no group and that nothing has linked. -/
theorem edges_of_workflow (groups chords : HashOrder) (tasks : List DagNode)
    (hids : (tasks.map (·.taskId)).Nodup) :
    (∃ rest : List DagNode,
      (buildDagBy groups chords tasks).edges.Perm (links tasks ++ fallbackEdges rest) ∧
      (∀ t, t ∈ rest ↔ t ∈ tasks ∧ t.groupId = none ∧
        ∀ e ∈ links tasks, e.source ≠ t.taskId ∧ e.target ≠ t.taskId) ∧
      rest.Pairwise fun a b => a.taskId < b.taskId) ∧
    (∀ groups' chords', (buildDagBy groups chords tasks).edges.Perm
      (buildDagBy groups' chords' tasks).edges) ∧
    (buildDagBy groups chords tasks).nodes = tasks ∧
    ∀ e ∈ (buildDagBy groups chords tasks).edges,
      e.source ∈ tasks.map (·.taskId) ∧ e.target ∈ tasks.map (·.taskId) := by
  have hedges := edges_buildDagBy groups chords tasks
  refine ⟨⟨unconnected tasks (links tasks), hedges, fun t => mem_unconnected,
    pairwise_unconnected hids _⟩, fun groups' chords' => ?_, nodes_buildDagBy _ _ _, fun e he => ?_⟩
  · exact hedges.trans (edges_buildDagBy groups' chords' tasks).symm
  · rcases List.mem_append.1 (hedges.mem_iff.1 he) with he | he
    · exact ends_links he
    · have hrest : ∀ id ∈ (unconnected tasks (links tasks)).map (·.taskId),
          id ∈ tasks.map (·.taskId) := by
        intro id hid
        obtain ⟨t, ht, rfl⟩ := List.mem_map.1 hid
        exact mem_ids (mem_unconnected.1 ht).1
      have hends := ends_fallbackEdges he
      exact ⟨hrest _ hends.1, hrest _ hends.2⟩

/-- A group of two with a chord, its callback and the task behind it; two tasks stand alone. -/
def sampleWorkflow : List DagNode :=
  [{ sampleNode "g1" none with groupId := some "g", chordId := some "c" },
    { sampleNode "g2" none with groupId := some "g", chordId := some "c" },
    sampleNode "z" none, sampleNode "c" none, sampleNode "x" (some "c"), sampleNode "y" none]

theorem edges_of_workflow_sample :
    (buildDagBy insertionOrder insertionOrder sampleWorkflow).nodes = sampleWorkflow :=
  (edges_of_workflow insertionOrder insertionOrder sampleWorkflow (by decide)).2.2.1

example : (buildDagBy insertionOrder insertionOrder sampleWorkflow).edges =
    [⟨"c", "x", .chain⟩, ⟨"g1", "g2", .group⟩, ⟨"g1", "c", .chord⟩, ⟨"g2", "c", .chord⟩,
      ⟨"y", "z", .chain⟩] := by decide

end Feloxi.Views
