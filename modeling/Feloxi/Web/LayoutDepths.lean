import Feloxi.Web.Layout

/-!
# Feloxi.Web.LayoutDepths

The depths of a layout. A node keeps the depth at which it was visited first, also when a longer way
leads to it later: its edges then do not go from left to right.
-/

namespace Feloxi.Web

open Acyclic Assoc DepthFirst
open Views (DagNode DagEdge EdgeType Linked)

/-! ### Ways -/

/-- Every edge goes to the right. -/
def FlowsRight (edges : List DagEdge) (placed : List LayoutNode) : Prop :=
  ∀ e ∈ edges, ∀ a ∈ placed, ∀ b ∈ placed,
    a.node.taskId = e.source → b.node.taskId = e.target → a.depth < b.depth

instance (edges : List DagEdge) (placed : List LayoutNode) : Decidable (FlowsRight edges placed) :=
  inferInstanceAs (Decidable (∀ e ∈ edges, _))

/-- The tasks an edge leads to from a task, in the order of the edges. -/
def nextTasks (nodes : List DagNode) (edges : List DagEdge) (id : String) : List String :=
  ((drawn nodes edges).filter fun e => e.source = id).map (·.target)

/-- The root and the tasks that no edge leads to, in the order of the nodes. -/
def startTasks (nodes : List DagNode) (edges : List DagEdge) (rootId : String) : List String :=
  (nodes.map (·.taskId)).filter fun id =>
    id = rootId ∨ ∀ e ∈ drawn nodes edges, e.target ≠ id

/-- Every way from a start to a task, with the number of its edges: ways that begin alike are
together, in the order in which they go on. -/
def allWays (nodes : List DagNode) (edges : List DagEdge) (rootId : String) : List (String × Nat) :=
  (startTasks nodes edges rootId).flatMap fun id =>
    ways (nextTasks nodes edges) nodes.length id 0

variable {nodes : List DagNode} {edges : List DagEdge} {rootId : String}

theorem mem_nextTasks {u c : String} :
    c ∈ nextTasks nodes edges u ↔ Linked (drawn nodes edges) u c := by
  simp only [nextTasks, List.mem_map, List.mem_filter, decide_eq_true_eq, Linked, and_assoc]

theorem linked_drawn {a b : String} (h : Linked (drawn nodes edges) a b) :
    a ∈ nodes.map (·.taskId) ∧ b ∈ nodes.map (·.taskId) := by
  obtain ⟨e, he, rfl, rfl⟩ := h
  simpa using (List.mem_filter.1 he).2

theorem mem_startTasks {id : String} : id ∈ startTasks nodes edges rootId ↔
    id ∈ nodes.map (·.taskId) ∧ (id = rootId ∨ ∀ e ∈ drawn nodes edges, e.target ≠ id) := by
  rw [startTasks, List.mem_filter, decide_eq_true_eq]

/-- The length of a way is at most the number of tasks above its end. -/
theorem le_height_of_mem_allWays (hacyclic : IsAcyclic (Linked (drawn nodes edges))) {id : String}
    {d : Nat} (h : (id, d) ∈ allWays nodes edges rootId) :
    d ≤ height (Linked (drawn nodes edges)) (nodes.map (·.taskId)) id := by
  obtain ⟨start, -, hway⟩ := List.mem_flatMap.1 h
  clear h
  induction d generalizing id with
  | zero => exact Nat.zero_le _
  | succ d ih =>
      rcases ways_cases hway with ⟨-, hzero⟩ | ⟨u, d', hu, hd, hmem⟩
      · cases hzero
      · cases hd
        have hlink := mem_nextTasks.1 hu
        have hlt := height_lt hacyclic (linked_drawn hlink).1 hlink
        have := ih hmem
        omega

theorem allWays_step (hacyclic : IsAcyclic (Linked (drawn nodes edges))) {u c : String} {d : Nat}
    (h : (u, d) ∈ allWays nodes edges rootId) (hc : c ∈ nextTasks nodes edges u) :
    (c, d + 1) ∈ allWays nodes edges rootId := by
  have hlink := mem_nextTasks.1 hc
  have hle := le_height_of_mem_allWays hacyclic h
  have hlt := height_lt hacyclic (linked_drawn hlink).1 hlink
  have htop := height_lt_length hacyclic (linked_drawn hlink).2
  rw [List.length_map] at htop
  obtain ⟨start, hstart, hway⟩ := List.mem_flatMap.1 h
  exact List.mem_flatMap.2 ⟨start, hstart, ways_step hc hway (by omega)⟩

theorem allWays_cases {c : String} {d : Nat} (h : (c, d) ∈ allWays nodes edges rootId) :
    d = 0 ∨ ∃ u d', c ∈ nextTasks nodes edges u ∧ d = d' + 1 ∧
      (u, d') ∈ allWays nodes edges rootId := by
  obtain ⟨start, hstart, hway⟩ := List.mem_flatMap.1 h
  rcases ways_cases hway with ⟨-, hzero⟩ | ⟨u, d', hu, hd, hmem⟩
  · exact .inl hzero
  · exact .inr ⟨u, d', hu, hd, List.mem_flatMap.2 ⟨start, hstart, hmem⟩⟩

/-- There is a way to every task. -/
theorem mem_keys_allWays (hacyclic : IsAcyclic (Linked (drawn nodes edges))) {id : String}
    (hid : id ∈ nodes.map (·.taskId)) : id ∈ keys (allWays nodes edges rootId) := by
  induction hrank : height (Linked (drawn nodes edges)) (nodes.map (·.taskId)) id
    using Nat.strongRecOn generalizing id with
  | _ n ih =>
      by_cases hstart : ∀ e ∈ drawn nodes edges, e.target ≠ id
      · have hmem : id ∈ startTasks nodes edges rootId := mem_startTasks.2 ⟨hid, .inr hstart⟩
        refine List.mem_map.2 ⟨(id, 0), List.mem_flatMap.2 ⟨id, hmem, ?_⟩, rfl⟩
        obtain ⟨m, hm⟩ := Nat.exists_eq_succ_of_ne_zero (n := nodes.length) (by
          have := List.length_pos_of_mem hid
          rw [List.length_map] at this
          omega)
        rw [hm, ways]
        exact List.mem_cons_self
      · push Not at hstart
        obtain ⟨e, he, rfl⟩ := hstart
        have hlink : Linked (drawn nodes edges) e.source e.target := ⟨e, he, rfl, rfl⟩
        have hsource := (linked_drawn hlink).1
        have hlt := height_lt hacyclic hsource hlink
        obtain ⟨way, hway, hend⟩ := List.mem_map.1 (ih _ (hrank ▸ hlt) hsource rfl)
        have hstep := allWays_step (d := way.2) hacyclic (by rw [← hend]; exact hway)
          (mem_nextTasks.2 hlink)
        exact List.mem_map_of_mem hstep

/-! ### The visits -/

theorem childrenOf_eq (nodes : List DagNode) (edges : List DagEdge) :
    (buildAdjacency nodes edges).childrenOf = nextTasks nodes edges :=
  funext (childrenOf_buildAdjacency nodes edges)

theorem isEmpty_parentsOf (id : String) : ((buildAdjacency nodes edges).parentsOf id).isEmpty =
    decide (∀ e ∈ drawn nodes edges, e.target ≠ id) := by
  rw [parentsOf_buildAdjacency, Bool.eq_iff_iff, decide_eq_true_eq, List.isEmpty_iff,
    List.map_eq_nil_iff, List.filter_eq_nil_iff]
  simp

/-- Without cycles some task is a start. -/
theorem layoutRoots_eq (hacyclic : IsAcyclic (Linked (drawn nodes edges))) (rootId : String) :
    (layoutRoots (buildAdjacency nodes edges) nodes rootId).map (·.taskId) =
      startTasks nodes edges rootId := by
  have hroots : startTasks nodes edges rootId = (nodes.filter fun n =>
      ((buildAdjacency nodes edges).parentsOf n.taskId).isEmpty || n.taskId == rootId).map
        (·.taskId) := by
    rw [startTasks, List.filter_map]
    refine congrArg _ (List.filter_congr fun n _ => ?_)
    rw [isEmpty_parentsOf, Function.comp_apply, Bool.eq_iff_iff]
    simp [or_comm]
  rw [layoutRoots]
  split
  · rename_i hempty
    rw [List.isEmpty_iff] at hempty
    have hways : allWays nodes edges rootId = [] := by
      rw [allWays, hroots, hempty]
      rfl
    cases nodes with
    | nil => rfl
    | cons n nodes =>
        have hfirst : n.taskId ∈ keys (allWays (n :: nodes) edges rootId) :=
          mem_keys_allWays hacyclic (by simp)
        rw [hways] at hfirst
        cases hfirst
  · exact hroots.symm

/-- The roots visit everything, each task at the length of the first way to it. -/
theorem foldlM_roots_eq (hacyclic : IsAcyclic (Linked (drawn nodes edges))) (rootId : String) :
    (startTasks nodes edges rootId).foldlM
        (fun seen id => visit (nextTasks nodes edges) nodes.length id 0 seen) [] =
      some (firsts [] (allWays nodes edges rootId)) := by
  have hrank : ∀ u, ∀ c ∈ nextTasks nodes edges u,
      height (Linked (drawn nodes edges)) (nodes.map (·.taskId)) u <
        height (Linked (drawn nodes edges)) (nodes.map (·.taskId)) c := by
    intro u c hc
    have hlink := mem_nextTasks.1 hc
    exact height_lt hacyclic (linked_drawn hlink).1 hlink
  have htop : ∀ id ∈ nodes.map (·.taskId),
      height (Linked (drawn nodes edges)) (nodes.map (·.taskId)) id < nodes.length := by
    intro id hid
    have := height_lt_length hacyclic hid
    rwa [List.length_map] at this
  refine foldlM_eq_firsts (fun id hid seen hclosed => ?_) (fun _ _ _ => explored_of_visit)
    (fun id _ u _ hu => by cases hu)
  exact visit_eq_firsts hrank (fun u c hc => htop c (linked_drawn (mem_nextTasks.1 hc)).2)
    (htop id (mem_startTasks.1 hid).1) (Nat.le_add_right _ _) 0 hclosed

theorem layoutVisits_eq (hacyclic : IsAcyclic (Linked (drawn nodes edges))) (rootId : String)
    {fuel : Nat} (hfuel : nodes.length < fuel) :
    layoutVisits (buildAdjacency nodes edges) fuel
        ((layoutRoots (buildAdjacency nodes edges) nodes rootId).map (·.taskId))
        (nodes.map (·.taskId)) =
      some (firsts [] (allWays nodes edges rootId)) := by
  have hroots : (startTasks nodes edges rootId).foldlM
      (visitRoot (buildAdjacency nodes edges) fuel) [] =
        some (firsts [] (allWays nodes edges rootId)) := by
    refine foldlM_mono (fun id seen result hrun => ?_) (foldlM_roots_eq hacyclic rootId)
    rw [visitRoot, childrenOf_eq]
    exact visit_mono (Nat.le_of_lt hfuel) hrun
  -- nothing is left for the second loop
  have hrest : ∀ ids : List String, (∀ id ∈ ids, id ∈ nodes.map (·.taskId)) →
      ids.foldlM (visitRest (buildAdjacency nodes edges) fuel)
        (firsts [] (allWays nodes edges rootId)) = some (firsts [] (allWays nodes edges rootId)) := by
    intro ids hids
    induction ids with
    | nil => rfl
    | cons id ids ih =>
        have hseen : id ∈ keys (firsts [] (allWays nodes edges rootId)) := by
          rw [keys, ← isSome_lookup_iff, lookup_firsts]
          exact isSome_lookup_iff.2 (mem_keys_allWays hacyclic (hids id List.mem_cons_self))
        rw [List.foldlM_cons, visitRest, if_pos hseen]
        exact ih fun id' hid' => hids id' (List.mem_cons_of_mem id hid')
  rw [layoutVisits, layoutRoots_eq hacyclic, hroots]
  exact hrest _ fun id hid => hid

/-! ### The depths -/

/-- A node is placed at the depth of its visit. -/
theorem mem_visits_of_mem_columns (hids : (nodes.map (·.taskId)).Nodup)
    {visits : List (String × Nat)} (hvisits : (keys visits).Perm (nodes.map (·.taskId)))
    {n : LayoutNode}
    (h : n ∈ (stateOf visits).depthBuckets.flatMap (column (buildAdjacency nodes edges))) :
    (n.node.taskId, n.depth) ∈ visits := by
  obtain ⟨bucket, hbucket, hn⟩ := List.mem_flatMap.1 h
  obtain ⟨id, hid, hnode, hdepth, -⟩ := mem_column hn
  rw [depthBuckets_stateOf hbucket] at hid
  obtain ⟨e, he, rfl⟩ := List.mem_map.1 hid
  obtain ⟨he, hbucket⟩ := List.mem_filter.1 he
  obtain ⟨m, hm, hmid⟩ := List.mem_map.1 (hvisits.mem_iff.1 (List.mem_map_of_mem he))
  have hsame : n.node = m := by
    rw [← hmid, nodeOf_buildAdjacency hids hm] at hnode
    exact (Option.some.inj hnode).symm
  rw [hsame, hmid, hdepth, ← of_decide_eq_true hbucket]
  exact he

/-- Without cycles the layout places every task at the length of the first way to it. -/
theorem computeLayout_depths (hids : (nodes.map (·.taskId)).Nodup)
    (hacyclic : IsAcyclic (Linked (drawn nodes edges))) (rootId : String) :
    ∃ placed, (∀ fuel, nodes.length < fuel →
        computeLayout fuel nodes edges rootId = some placed) ∧
      (placed.map (·.node)).Perm nodes ∧
      ∀ n ∈ placed, (allWays nodes edges rootId).lookup n.node.taskId = some n.depth := by
  obtain ⟨visits, hperm, hrun⟩ := computeLayout_visits hids edges rootId
  have hvisits : visits = firsts [] (allWays nodes edges rootId) := by
    have hfuel := (hrun _ (Nat.lt_succ_self _)).1
    rw [layoutVisits_eq hacyclic rootId (Nat.lt_succ_self _)] at hfuel
    exact (Option.some.inj hfuel).symm
  have hkeys : (keys visits).Nodup := hperm.nodup_iff.2 hids
  have hlookup : ∀ id, (allWays nodes edges rootId).lookup id = visits.lookup id := by
    intro id
    rw [hvisits, lookup_firsts]
    rfl
  refine ⟨_, fun fuel hfuel => (hrun fuel hfuel).2, (isLayout_columns hids hperm).once, ?_⟩
  intro n hn
  rw [hlookup]
  exact lookup_of_mem hkeys (mem_visits_of_mem_columns hids hperm hn)

/-- Placed at these depths, the edges go to the right exactly if every step between two tasks leads
to a deeper one. -/
theorem flowsRight_iff {placed : List LayoutNode} (honce : (placed.map (·.node)).Perm nodes)
    {depths : List (String × Nat)}
    (hdepth : ∀ n ∈ placed, depths.lookup n.node.taskId = some n.depth) :
    FlowsRight edges placed ↔ ∀ u, ∀ c ∈ nextTasks nodes edges u, ∀ d d',
      depths.lookup u = some d → depths.lookup c = some d' → d < d' := by
  constructor
  · intro hflows u c hc d d' hu hd'
    obtain ⟨e, he, rfl, rfl⟩ := mem_nextTasks.1 hc
    have hfound : ∀ id ∈ nodes.map (·.taskId), ∃ n ∈ placed, n.node.taskId = id := by
      intro id hid
      obtain ⟨m, hm, rfl⟩ := List.mem_map.1 hid
      obtain ⟨n, hn, rfl⟩ := List.mem_map.1 (honce.mem_iff.2 hm)
      exact ⟨n, hn, rfl⟩
    obtain ⟨hsource, htarget⟩ := linked_drawn (mem_nextTasks.1 hc)
    obtain ⟨a, ha, hasource⟩ := hfound _ hsource
    obtain ⟨b, hb, hbtarget⟩ := hfound _ htarget
    have hda := hdepth a ha
    have hdb := hdepth b hb
    rw [hasource, hu] at hda
    rw [hbtarget, hd'] at hdb
    cases hda
    cases hdb
    exact hflows e (List.mem_filter.1 he).1 a ha b hb hasource hbtarget
  · intro hlt e he a ha b hb hsource htarget
    have hknown : ∀ n ∈ placed, n.node.taskId ∈ nodes.map (·.taskId) := fun n hn =>
      List.mem_map_of_mem (honce.mem_iff.1 (List.mem_map_of_mem hn))
    have hdrawn : e ∈ drawn nodes edges := by
      rw [drawn, List.mem_filter, Bool.and_eq_true, decide_eq_true_eq, decide_eq_true_eq]
      exact ⟨he, hsource ▸ hknown a ha, htarget ▸ hknown b hb⟩
    exact hlt e.source e.target (mem_nextTasks.2 ⟨e, hdrawn, rfl, rfl⟩) a.depth b.depth
      (hsource ▸ hdepth a ha) (htarget ▸ hdepth b hb)

/-- **Left to right.** In a graph without cycles the edges of a layout go to the right exactly if
the first way to every task is as long as any. -/
theorem computeLayout_flows_iff (hids : (nodes.map (·.taskId)).Nodup)
    (hacyclic : IsAcyclic (Linked (drawn nodes edges))) (rootId : String) :
    (∃ placed, (∀ fuel, nodes.length < fuel →
        computeLayout fuel nodes edges rootId = some placed) ∧ FlowsRight edges placed) ↔
      FirstLongest (allWays nodes edges rootId) := by
  obtain ⟨placed, hrun, honce, hdepth⟩ := computeLayout_depths hids hacyclic rootId
  have hlongest := lookup_lt_iff_firstLongest
    (fun u d hu c hc => @allWays_step nodes edges rootId hacyclic u c d hu hc)
    fun c d h => allWays_cases h
  rw [← hlongest, ← flowsRight_iff honce hdepth]
  constructor
  · intro h
    obtain ⟨placed', hcomputed, hflows⟩ := h
    have hsame : placed' = placed := Option.some.inj
      ((hcomputed _ (Nat.lt_succ_self _)).symm.trans (hrun _ (Nat.lt_succ_self _)))
    exact hsame ▸ hflows
  · intro hflows
    exact ⟨placed, hrun, hflows⟩

/-! ### Samples -/

/-- Two tasks of a group that `a` sent, and the callback of their chord, sent by the first. -/
def sampleChord : List DagNode :=
  [Views.sampleNode "a" none,
    { Views.sampleNode "b1" (some "a") with groupId := some "g", chordId := some "c" },
    { Views.sampleNode "b2" (some "a") with groupId := some "g", chordId := some "c" },
    Views.sampleNode "c" (some "b1")]

def sampleChordEdges : List DagEdge := (Views.buildDag Views.insertionOrder sampleChord).edges

theorem sampleChord_acyclic : IsAcyclic (Linked sampleChordEdges) := by
  refine @isAcyclic_of_rank _ _ (fun id => ["a", "b1", "b2", "c"].idxOf id) ?_
  rintro a b ⟨e, he, rfl, rfl⟩
  have hup : ∀ e ∈ sampleChordEdges, ["a", "b1", "b2", "c"].idxOf e.source <
      ["a", "b1", "b2", "c"].idxOf e.target := by decide
  exact hup e he

theorem drawn_sampleChord : drawn sampleChord sampleChordEdges = sampleChordEdges := by decide

theorem computeLayout_flows_iff_chord :
    (∃ placed, (∀ fuel, sampleChord.length < fuel →
        computeLayout fuel sampleChord sampleChordEdges "a" = some placed) ∧
      FlowsRight sampleChordEdges placed) ↔
      FirstLongest (allWays sampleChord sampleChordEdges "a") :=
  computeLayout_flows_iff (by decide) (drawn_sampleChord ▸ sampleChord_acyclic) "a"

/-- `c` is reached through `b1` first, and stays level with `b2`, which leads to it. -/
theorem computeLayout_chord_level :
    (sampleChord.map (·.taskId)).Nodup ∧ IsAcyclic (Linked sampleChordEdges) ∧
      ∃ placed, computeLayout 5 sampleChord sampleChordEdges "a" = some placed ∧
        ¬ FlowsRight sampleChordEdges placed :=
  ⟨by decide, sampleChord_acyclic, _, rfl, by decide⟩

end Feloxi.Web
