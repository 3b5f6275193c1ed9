import Feloxi.Lib.Acyclic
import Feloxi.Lib.F64
import Mathlib.Data.List.Dedup
import Mathlib.Data.List.Sort

/-!
# Feloxi.Views.Dag

The graph of a workflow (`build_dag` in `crates/engine/src/dag_resolver.rs`). Four rules add edges:
parents, groups, chords, and a chain of the tasks that none of these has linked.
-/

namespace Feloxi.Views

open Acyclic

/-! ### Nodes and edges -/

structure DagNode where
  taskId : String
  taskName : String
  state : String
  runtime : Option F64
  queue : String
  workerId : String
  groupId : Option String
  parentId : Option String
  chordId : Option String
  deriving Repr, DecidableEq

inductive EdgeType where
  | chain
  | group
  | chord
  | callback
  deriving Repr, DecidableEq

structure DagEdge where
  source : String
  target : String
  edgeType : EdgeType
  deriving Repr, DecidableEq

structure WorkflowDag where
  rootId : String
  nodes : List DagNode
  edges : List DagEdge
  deriving Repr, DecidableEq

/-- The order in which the keys of a `HashMap` come. -/
structure HashOrder where
  keys : List String → List String
  perm : ∀ ks, (keys ks).Perm ks

/-! ### The rules -/

/-- 1. Parent-child chain edges. -/
def parentEdges (tasks : List DagNode) : List DagEdge :=
  tasks.filterMap fun task =>
    match task.parentId with
    | none => none
    | some pid =>
      if pid ∈ tasks.map (·.taskId) then some ⟨pid, task.taskId, .chain⟩ else none

/-- `for i in 0..len`, `for j in (i + 1)..len`. -/
def pairs {α : Type} : List α → List (α × α)
  | [] => []
  | a :: rest => rest.map (fun b => (a, b)) ++ pairs rest

/-- 2. Group edges. -/
def groupEdges (order : HashOrder) (tasks : List DagNode) : List DagEdge :=
  (order.keys (tasks.filterMap (·.groupId)).dedup).flatMap fun gid =>
    (pairs (tasks.filter fun task => task.groupId == some gid)).map fun pair =>
      ⟨pair.1.taskId, pair.2.taskId, .group⟩

/-- The task with the chord's id, or one with the chord but no group, whichever comes first. -/
def chordCallback (tasks : List DagNode) (chordId : String) : Option DagNode :=
  tasks.find? fun t => t.taskId == chordId || (t.groupId.isNone && t.chordId == some chordId)

/-- 3. Chord edges. -/
def chordEdges (order : HashOrder) (tasks : List DagNode) : List DagEdge :=
  (order.keys (tasks.filterMap (·.chordId)).dedup).flatMap fun chordId =>
    match chordCallback tasks chordId with
    | none => []
    | some callback =>
      ((tasks.filter fun task => task.chordId == some chordId).filter fun member =>
        member.taskId != callback.taskId).map fun member =>
          ⟨member.taskId, callback.taskId, .chord⟩

/-- What the first three rules link. -/
def linkEdges (order : HashOrder) (tasks : List DagNode) : List DagEdge :=
  parentEdges tasks ++ groupEdges order tasks ++ chordEdges order tasks

/-- `connected`: every edge marks both its ends. -/
def connected (edges : List DagEdge) : List String := edges.flatMap fun e => [e.source, e.target]

/-- The tasks that no rule has linked, and that are in no group, by id. -/
def unconnected (tasks : List DagNode) (edges : List DagEdge) : List DagNode :=
  (tasks.filter fun t => decide (t.taskId ∉ connected edges) && t.groupId.isNone).insertionSort
    fun a b => a.taskId ≤ b.taskId

/-- 4. A chain of the tasks that are left, from each to the next. -/
def fallbackEdges (rest : List DagNode) : List DagEdge :=
  (rest.zip rest.tail).map fun w => ⟨w.1.taskId, w.2.taskId, .chain⟩

def buildDag (order : HashOrder) (tasks : List DagNode) : WorkflowDag :=
  match tasks with
  | [] => ⟨"", [], []⟩
  | first :: _ =>
    let edges := linkEdges order tasks
    ⟨first.taskId, tasks, edges ++ fallbackEdges (unconnected tasks edges)⟩

/-! ### Numberings -/

/-- An edge from one task to another. -/
def Linked (edges : List DagEdge) (a b : String) : Prop :=
  ∃ e ∈ edges, e.source = a ∧ e.target = b

/-- A numbering of the tasks that grows from a parent to its child, from each member of a group to
the later ones, and from the tasks of a chord to its callback. -/
structure Ranked (tasks : List DagNode) (rank : String → Nat) : Prop where
  parent : ∀ task ∈ tasks, ∀ pid ∈ tasks.map (·.taskId), task.parentId = some pid →
    rank pid < rank task.taskId
  group : tasks.Pairwise fun a b => ∀ gid, a.groupId = some gid → b.groupId = some gid →
    rank a.taskId < rank b.taskId
  chord : ∀ task ∈ tasks, ∀ chordId, task.chordId = some chordId →
    ∀ callback, chordCallback tasks chordId = some callback → task.taskId ≠ callback.taskId →
      rank task.taskId < rank callback.taskId

variable {order : HashOrder} {tasks : List DagNode} {rank : String → Nat}

theorem mem_parentEdges {e : DagEdge} :
    e ∈ parentEdges tasks ↔ ∃ task ∈ tasks, ∃ pid ∈ tasks.map (·.taskId),
      task.parentId = some pid ∧ e = ⟨pid, task.taskId, .chain⟩ := by
  rw [parentEdges, List.mem_filterMap]
  refine exists_congr fun task => and_congr_right fun _ => ?_
  cases hparent : task.parentId with
  | none => simp
  | some pid =>
      by_cases hknown : pid ∈ tasks.map (·.taskId)
      · simp only [if_pos hknown]
        constructor
        · intro h
          exact ⟨pid, hknown, rfl, (Option.some.inj h).symm⟩
        · rintro ⟨pid', -, hpid, rfl⟩
          rw [Option.some.inj hpid]
      · simp only [if_neg hknown]
        refine iff_of_false (fun h => by cases h) ?_
        rintro ⟨pid', hknown', hpid, -⟩
        exact hknown (Option.some.inj hpid ▸ hknown')

theorem mem_pairs {α : Type} {l : List α} {a b : α} : (a, b) ∈ pairs l ↔ [a, b].Sublist l := by
  induction l with
  | nil => simp [pairs]
  | cons c l ih =>
      rw [pairs, List.mem_append, List.mem_map, ih]
      constructor
      · rintro (⟨d, hd, heq⟩ | h)
        · cases heq
          exact (List.singleton_sublist.2 hd).cons_cons a
        · exact h.cons c
      · intro h
        cases h with
        | cons _ h => exact .inr h
        | cons_cons _ h => exact .inl ⟨b, List.singleton_sublist.1 h, rfl⟩

theorem mem_groupEdges {e : DagEdge} :
    e ∈ groupEdges order tasks ↔ ∃ a b gid, [a, b].Sublist tasks ∧ a.groupId = some gid ∧
      b.groupId = some gid ∧ e = ⟨a.taskId, b.taskId, .group⟩ := by
  rw [groupEdges, List.mem_flatMap]
  constructor
  · rintro ⟨gid, -, he⟩
    obtain ⟨⟨a, b⟩, hpair, rfl⟩ := List.mem_map.1 he
    have hsub := mem_pairs.1 hpair
    have hmem : ∀ x ∈ [a, b], x.groupId = some gid := fun x hx =>
      eq_of_beq (List.mem_filter.1 (hsub.subset hx)).2
    exact ⟨a, b, gid, hsub.trans List.filter_sublist, hmem a (by simp), hmem b (by simp), rfl⟩
  · rintro ⟨a, b, gid, hsub, ha, hb, rfl⟩
    refine ⟨gid, ?_, List.mem_map.2 ⟨(a, b), mem_pairs.2 ?_, rfl⟩⟩
    · rw [(order.perm _).mem_iff, List.mem_dedup, List.mem_filterMap]
      exact ⟨a, hsub.subset (by simp), ha⟩
    · have hfilter := hsub.filter fun task => task.groupId == some gid
      have hboth : [a, b].filter (fun task => task.groupId == some gid) = [a, b] := by
        simp [ha, hb]
      rwa [hboth] at hfilter

theorem mem_chordEdges {e : DagEdge} :
    e ∈ chordEdges order tasks ↔ ∃ task ∈ tasks, ∃ chordId, task.chordId = some chordId ∧
      ∃ callback, chordCallback tasks chordId = some callback ∧ task.taskId ≠ callback.taskId ∧
        e = ⟨task.taskId, callback.taskId, .chord⟩ := by
  rw [chordEdges, List.mem_flatMap]
  constructor
  · rintro ⟨chordId, -, he⟩
    cases hcallback : chordCallback tasks chordId with
    | none => rw [hcallback] at he; cases he
    | some callback =>
        rw [hcallback] at he
        obtain ⟨task, htask, rfl⟩ := List.mem_map.1 he
        obtain ⟨htask, hne⟩ := List.mem_filter.1 htask
        obtain ⟨htask, hchord⟩ := List.mem_filter.1 htask
        exact ⟨task, htask, chordId, eq_of_beq hchord, callback, hcallback, bne_iff_ne.1 hne, rfl⟩
  · rintro ⟨task, htask, chordId, hchord, callback, hcallback, hne, rfl⟩
    refine ⟨chordId, ?_, ?_⟩
    · rw [(order.perm _).mem_iff, List.mem_dedup, List.mem_filterMap]
      exact ⟨task, htask, hchord⟩
    · rw [hcallback]
      exact List.mem_map.2 ⟨task, List.mem_filter.2 ⟨List.mem_filter.2 ⟨htask, beq_iff_eq.2 hchord⟩,
        bne_iff_ne.2 hne⟩, rfl⟩

/-- A numbering is one along the edges of the first three rules. -/
theorem ranked_iff (order : HashOrder) :
    Ranked tasks rank ↔ ∀ e ∈ linkEdges order tasks, rank e.source < rank e.target := by
  constructor
  · intro h e he
    rcases List.mem_append.1 he with he | he
    · rcases List.mem_append.1 he with he | he
      · obtain ⟨task, htask, pid, hknown, hparent, rfl⟩ := mem_parentEdges.1 he
        exact h.parent task htask pid hknown hparent
      · obtain ⟨a, b, gid, hsub, ha, hb, rfl⟩ := mem_groupEdges.1 he
        exact List.pairwise_iff_forall_sublist.1 h.group hsub gid ha hb
    · obtain ⟨task, htask, chordId, hchord, callback, hcallback, hne, rfl⟩ := mem_chordEdges.1 he
      exact h.chord task htask chordId hchord callback hcallback hne
  · intro h
    constructor
    · intro task htask pid hknown hparent
      exact h _ (List.mem_append_left _ (List.mem_append_left _
        (mem_parentEdges.2 ⟨task, htask, pid, hknown, hparent, rfl⟩)))
    · refine List.pairwise_iff_forall_sublist.2 fun {a b} hsub gid ha hb => ?_
      exact h _ (List.mem_append_left _ (List.mem_append_right _
        (mem_groupEdges.2 ⟨a, b, gid, hsub, ha, hb, rfl⟩)))
    · intro task htask chordId hchord callback hcallback hne
      exact h _ (List.mem_append_right _
        (mem_chordEdges.2 ⟨task, htask, chordId, hchord, callback, hcallback, hne, rfl⟩))

/-! ### The tasks that are left -/

theorem mem_connected {edges : List DagEdge} {e : DagEdge} (he : e ∈ edges) :
    e.source ∈ connected edges ∧ e.target ∈ connected edges :=
  ⟨List.mem_flatMap.2 ⟨e, he, by simp⟩, List.mem_flatMap.2 ⟨e, he, by simp⟩⟩

theorem unconnected_perm (tasks : List DagNode) (edges : List DagEdge) :
    (unconnected tasks edges).Perm
      (tasks.filter fun t => decide (t.taskId ∉ connected edges) && t.groupId.isNone) :=
  List.perm_insertionSort _ _

theorem notMem_connected {edges : List DagEdge} {t : DagNode} (h : t ∈ unconnected tasks edges) :
    t.taskId ∉ connected edges := by
  have hmem := (List.mem_filter.1 ((unconnected_perm tasks edges).mem_iff.1 h)).2
  rw [Bool.and_eq_true, decide_eq_true_eq] at hmem
  exact hmem.1

theorem nodup_unconnected (hids : (tasks.map (·.taskId)).Nodup) (edges : List DagEdge) :
    ((unconnected tasks edges).map (·.taskId)).Nodup :=
  ((unconnected_perm tasks edges).map _).nodup_iff.2 (hids.sublist (List.filter_sublist.map _))

/-- The chain goes from each of the tasks to the next. -/
theorem idxOf_fallbackEdges {rest : List DagNode} (hids : (rest.map (·.taskId)).Nodup)
    {e : DagEdge} (he : e ∈ fallbackEdges rest) :
    e.source ∈ rest.map (·.taskId) ∧ e.target ∈ rest.map (·.taskId) ∧
      (rest.map (·.taskId)).idxOf e.source < (rest.map (·.taskId)).idxOf e.target := by
  obtain ⟨w, hw, rfl⟩ := List.mem_map.1 he
  obtain ⟨i, hi, rfl⟩ := List.getElem_of_mem hw
  rw [List.length_zip, List.length_tail] at hi
  have hfirst : i < (rest.map (·.taskId)).length := by rw [List.length_map]; omega
  have hnext : i + 1 < (rest.map (·.taskId)).length := by rw [List.length_map]; omega
  have hsource : ((rest.zip rest.tail)[i]).1.taskId = (rest.map (·.taskId))[i] := by simp
  have htarget : ((rest.zip rest.tail)[i]).2.taskId = (rest.map (·.taskId))[i + 1] := by simp
  rw [hsource, htarget, hids.idxOf_getElem, hids.idxOf_getElem]
  exact ⟨List.getElem_mem hfirst, List.getElem_mem hnext, Nat.lt_succ_self i⟩

/-! ### Cycles -/

theorem edges_buildDag (order : HashOrder) (tasks : List DagNode) :
    (buildDag order tasks).edges = linkEdges order tasks ++
      fallbackEdges (unconnected tasks (linkEdges order tasks)) := by
  cases tasks with
  | nil =>
      have hkeys : order.keys [] = [] := (order.perm []).eq_nil
      have hlinks : linkEdges order [] = [] := by
        simp [linkEdges, parentEdges, groupEdges, chordEdges, hkeys]
      rw [hlinks]
      rfl
  | cons first rest => rfl

/-- Some tasks numbered along their chain, the others as they are. -/
def rankWith (ids : List String) (rank : String → Nat) (id : String) : Nat :=
  if id ∈ ids then ids.idxOf id else rank id

/-- **Cycles.** The graph of a workflow has none exactly if its tasks can be numbered so that
parents, groups and chords go up: the last rule never closes a cycle. -/
theorem buildDag_acyclic_iff (order : HashOrder) {tasks : List DagNode}
    (hids : (tasks.map (·.taskId)).Nodup) :
    IsAcyclic (Linked (buildDag order tasks).edges) ↔ ∃ rank, Ranked tasks rank := by
  have hsources : ∀ a b, Linked (buildDag order tasks).edges a b →
      a ∈ (buildDag order tasks).edges.map (·.source) := by
    rintro a b ⟨e, he, rfl, rfl⟩
    exact List.mem_map_of_mem he
  rw [isAcyclic_iff_exists_rank hsources, edges_buildDag]
  constructor
  · rintro ⟨rank, hrank⟩
    refine ⟨rank, (ranked_iff order).2 fun e he => ?_⟩
    exact hrank _ _ ⟨e, List.mem_append_left _ he, rfl, rfl⟩
  · rintro ⟨rank, hranked⟩
    have hlinks := (ranked_iff order).1 hranked
    generalize hedges : linkEdges order tasks = edges at hlinks
    have hrest := nodup_unconnected hids edges
    have hnew : ∀ id ∈ (unconnected tasks edges).map (·.taskId), id ∉ connected edges := by
      intro id hid
      obtain ⟨t, ht, rfl⟩ := List.mem_map.1 hid
      exact notMem_connected ht
    -- the tasks that are left are numbered along their chain, apart from the others
    refine ⟨rankWith ((unconnected tasks edges).map (·.taskId)) rank, ?_⟩
    rintro a b ⟨e, he, rfl, rfl⟩
    rcases List.mem_append.1 he with he | he
    · have hends := mem_connected he
      rw [rankWith, rankWith, if_neg fun h => hnew _ h hends.1, if_neg fun h => hnew _ h hends.2]
      exact hlinks e he
    · obtain ⟨hsource, htarget, hlt⟩ := idxOf_fallbackEdges hrest he
      rwa [rankWith, rankWith, if_pos hsource, if_pos htarget]

/-! ### Samples -/

/-- A task that was sent by `parent`. -/
def sampleNode (id : String) (parent : Option String) : DagNode :=
  { taskId := id, taskName := "tasks.add", state := "SUCCESS", runtime := some (.ofNat 1),
    queue := "default", workerId := "w1", groupId := none, parentId := parent, chordId := none }

/-- The keys as they were inserted. -/
def insertionOrder : HashOrder := ⟨fun ks => ks, fun _ => .refl _⟩

theorem buildDag_acyclic_iff_sample :
    IsAcyclic (Linked (buildDag insertionOrder [sampleNode "a" none, sampleNode "b" (some "a")]).edges) :=
  (buildDag_acyclic_iff insertionOrder (by decide)).2
    ⟨fun id => if id = "a" then 0 else 1, by decide, by decide, by decide⟩

/-- A retry with the id of its parent. -/
theorem selfParent_cyclic :
    ¬ IsAcyclic (Linked (buildDag insertionOrder [sampleNode "a" (some "a")]).edges) :=
  fun h => h "a" (.single ⟨⟨"a", "a", .chain⟩, by decide, rfl, rfl⟩)

end Feloxi.Views
