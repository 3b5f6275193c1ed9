import Feloxi.Lib.Assoc
import Feloxi.Lib.DepthFirst
import Feloxi.Lib.Grouping
import Feloxi.Views.Dag

/-!
# Feloxi.Web.Layout

Where the nodes of a workflow are drawn (`computeLayout` in
`apps/web/src/components/shared/workflow-dag.tsx`). The graph may have any edges, cycles too: every
node is placed once, apart from the others.
-/

namespace Feloxi.Web

open Assoc DepthFirst Grouping
open Views (DagNode DagEdge EdgeType)

/-! ### The graph -/

/-- The maps of `buildAdjacency`. -/
structure Adjacency where
  nodeMap : List (String × DagNode)
  children : List (String × List String)
  parents : List (String × List String)

def Adjacency.empty : Adjacency := ⟨[], [], []⟩

def Adjacency.nodeOf (g : Adjacency) (id : String) : Option DagNode := g.nodeMap.lookup id

def Adjacency.hasNode (g : Adjacency) (id : String) : Bool := (g.nodeOf id).isSome

def Adjacency.childrenOf (g : Adjacency) (id : String) : List String :=
  (g.children.lookup id).getD []

def Adjacency.parentsOf (g : Adjacency) (id : String) : List String :=
  (g.parents.lookup id).getD []

def addNode (g : Adjacency) (node : DagNode) : Adjacency where
  nodeMap := put node.taskId node g.nodeMap
  children := put node.taskId [] g.children
  parents := put node.taskId [] g.parents

/-- `map.get(key)!.push(value)`. -/
def push (m : List (String × List String)) (e : String × String) : List (String × List String) :=
  put e.1 ((m.lookup e.1).getD [] ++ [e.2]) m

/-- An edge counts if both its ends are known. -/
def addEdge (g : Adjacency) (edge : DagEdge) : Adjacency :=
  if g.hasNode edge.source && g.hasNode edge.target then
    { g with
      children := push g.children (edge.source, edge.target)
      parents := push g.parents (edge.target, edge.source) }
  else g

def buildAdjacency (nodes : List DagNode) (edges : List DagEdge) : Adjacency :=
  edges.foldl addEdge (nodes.foldl addNode .empty)

/-! ### The loops -/

/-- `DAG_LAYOUT`. -/
def nodeWidth : Nat := 320
def nodeHeight : Nat := 80
def horizontalGap : Nat := 60
def verticalGap : Nat := 44

structure LayoutState where
  visited : List String
  depthMap : List (String × Nat)
  depthBuckets : List (Nat × List String)

def LayoutState.empty : LayoutState := ⟨[], [], []⟩

/-- A node at a depth: at the end of its bucket, which may be new. -/
def LayoutState.place (s : LayoutState) (taskId : String) (depth : Nat) : LayoutState where
  visited := s.visited ++ [taskId]
  depthMap := put taskId depth s.depthMap
  depthBuckets := upsert Prod.snd (fun e => [e.1]) (fun ids e => ids ++ [e.1]) s.depthBuckets
    (taskId, depth)

def assignDepths (g : Adjacency) : Nat → LayoutState → String → Nat → Option LayoutState
  | 0, _, _, _ => none
  | fuel + 1, s, taskId, depth =>
    if taskId ∈ s.visited then some s
    else (g.childrenOf taskId).foldlM (fun s childId => assignDepths g fuel s childId (depth + 1))
      (s.place taskId depth)

/-- The nodes without parents and the root; of a graph that has neither, its first node. -/
def layoutRoots (g : Adjacency) (nodes : List DagNode) (rootId : String) : List DagNode :=
  let roots := nodes.filter fun n => (g.parentsOf n.taskId).isEmpty || n.taskId == rootId
  if roots.isEmpty then nodes.take 1 else roots

/-- `Math.max(0, ...depthMap.values())`. -/
def maxDepth (depthMap : List (String × Nat)) : Nat := (depthMap.map Prod.snd).foldl max 0

def assignRoot (g : Adjacency) (fuel : Nat) (s : LayoutState) (root : DagNode) :
    Option LayoutState :=
  assignDepths g fuel s root.taskId 0

/-- What the roots do not reach goes to the right of everything else. -/
def assignRest (g : Adjacency) (fuel : Nat) (s : LayoutState) (node : DagNode) :
    Option LayoutState :=
  if node.taskId ∈ s.visited then some s
  else assignDepths g fuel s node.taskId (maxDepth s.depthMap + 1)

structure LayoutNode where
  node : DagNode
  x : Nat
  y : Nat
  depth : Nat
  deriving Repr, DecidableEq

/-- The nodes of a bucket, from the top; an id without a node is an error. -/
def emitBucket (g : Adjacency) (bucket : Nat × List String) : Option (List LayoutNode) :=
  bucket.2.zipIdx.mapM fun entry => (g.nodeOf entry.1).map fun node =>
    { node, x := bucket.1 * (nodeWidth + horizontalGap),
      y := entry.2 * (nodeHeight + verticalGap), depth := bucket.1 }

def computeLayout (fuel : Nat) (nodes : List DagNode) (edges : List DagEdge) (rootId : String) :
    Option (List LayoutNode) := do
  let g := buildAdjacency nodes edges
  let s ← (layoutRoots g nodes rootId).foldlM (assignRoot g fuel) .empty
  let s ← nodes.foldlM (assignRest g fuel) s
  let columns ← s.depthBuckets.mapM (emitBucket g)
  pure columns.flatten

/-! ### What the graph knows -/

/-- The edges that count. -/
def drawn (nodes : List DagNode) (edges : List DagEdge) : List DagEdge :=
  edges.filter fun e => decide (e.source ∈ nodes.map (·.taskId)) &&
    decide (e.target ∈ nodes.map (·.taskId))

variable {nodes : List DagNode} {edges : List DagEdge}

theorem addNode_foldl (g : Adjacency) (nodes : List DagNode) :
    nodes.foldl addNode g =
      { nodeMap := putAll g.nodeMap (nodes.map fun n => (n.taskId, n)),
        children := putAll g.children (nodes.map fun n => (n.taskId, [])),
        parents := putAll g.parents (nodes.map fun n => (n.taskId, [])) } := by
  induction nodes generalizing g with
  | nil => rfl
  | cons n nodes ih => rw [List.foldl_cons, ih]; rfl

/-- The edges whose ends a graph knows. -/
def known (g : Adjacency) (edges : List DagEdge) : List DagEdge :=
  edges.filter fun e => g.hasNode e.source && g.hasNode e.target

theorem addEdge_foldl (g : Adjacency) (edges : List DagEdge) :
    edges.foldl addEdge g =
      { g with
        children := ((known g edges).map fun e => (e.source, e.target)).foldl push g.children
        parents := ((known g edges).map fun e => (e.target, e.source)).foldl push g.parents } := by
  induction edges generalizing g with
  | nil => rfl
  | cons e edges ih =>
      rw [List.foldl_cons, ih]
      by_cases h : (g.hasNode e.source && g.hasNode e.target) = true
      · have hknown : known g (e :: edges) = e :: known g edges := List.filter_cons_of_pos h
        rw [show addEdge g e = _ from if_pos h, hknown]
        rfl
      · have hknown : known g (e :: edges) = known g edges := List.filter_cons_of_neg h
        rw [show addEdge g e = _ from if_neg h, hknown]

theorem nodeMap_buildAdjacency (nodes : List DagNode) (edges : List DagEdge) :
    (buildAdjacency nodes edges).nodeMap = putAll [] (nodes.map fun n => (n.taskId, n)) := by
  rw [buildAdjacency, addEdge_foldl, addNode_foldl]
  rfl

theorem nodeOf_buildAdjacency (hids : (nodes.map (·.taskId)).Nodup) {node : DagNode}
    (hnode : node ∈ nodes) : (buildAdjacency nodes edges).nodeOf node.taskId = some node := by
  have hkeys : ((nodes.map fun n => (n.taskId, n)).map Prod.fst).Nodup := by rwa [List.map_map]
  rw [Adjacency.nodeOf, nodeMap_buildAdjacency]
  exact lookup_putAll_of_nodup hkeys (List.mem_map_of_mem hnode)

theorem hasNode_nodes {id : String} :
    (nodes.foldl addNode .empty).hasNode id = decide (id ∈ nodes.map (·.taskId)) := by
  rw [addNode_foldl, Adjacency.hasNode, Adjacency.nodeOf, Bool.eq_iff_iff, isSome_lookup_iff, decide_eq_true_eq]
  show id ∈ (putAll [] (nodes.map fun n => (n.taskId, n))).map Prod.fst ↔ _
  rw [mem_keys_putAll, List.map_map]
  rfl

/-- The lists that the pushes make of empty ones. -/
theorem getD_lookup_push (nodes : List DagNode) (es : List (String × String)) (id : String) :
    ((es.foldl push (putAll [] (nodes.map fun n => (n.taskId, [])))).lookup id).getD [] =
      (es.filter fun e => e.1 = id).map Prod.snd := by
  induction es using List.reverseRecOn with
  | nil =>
      cases h : (putAll [] (nodes.map fun n => (n.taskId, ([] : List String)))).lookup id with
      | none => simp [h]
      | some l =>
          obtain ⟨n, -, heq⟩ := List.mem_map.1 (mem_putAll (mem_of_lookup h))
          simp [h, ← (Prod.mk.inj heq).2]
  | append_singleton es e ih =>
      rw [List.foldl_append, List.foldl_cons, List.foldl_nil, push, List.filter_append,
        List.map_append]
      by_cases h : id = e.1
      · rw [h] at ih ⊢
        simp [ih]
      · rw [lookup_put_of_ne h, ih]
        simp [Ne.symm h]

theorem known_nodes (nodes : List DagNode) (edges : List DagEdge) :
    known (nodes.foldl addNode .empty) edges = drawn nodes edges := by
  simp only [known, hasNode_nodes, drawn]

theorem childrenOf_buildAdjacency (nodes : List DagNode) (edges : List DagEdge) (id : String) :
    (buildAdjacency nodes edges).childrenOf id =
      ((drawn nodes edges).filter fun e => e.source = id).map (·.target) := by
  have hpush := getD_lookup_push nodes ((drawn nodes edges).map fun e => (e.source, e.target)) id
  rw [buildAdjacency, addEdge_foldl, known_nodes, Adjacency.childrenOf, addNode_foldl]
  rw [List.filter_map, List.map_map] at hpush
  exact hpush

theorem parentsOf_buildAdjacency (nodes : List DagNode) (edges : List DagEdge) (id : String) :
    (buildAdjacency nodes edges).parentsOf id =
      ((drawn nodes edges).filter fun e => e.target = id).map (·.source) := by
  have hpush := getD_lookup_push nodes ((drawn nodes edges).map fun e => (e.target, e.source)) id
  rw [buildAdjacency, addEdge_foldl, known_nodes, Adjacency.parentsOf, addNode_foldl]
  rw [List.filter_map, List.map_map] at hpush
  exact hpush

/-! ### The state by its visits -/

/-- The state that some visits leave. -/
def stateOf (visits : List (String × Nat)) : LayoutState where
  visited := keys visits
  depthMap := visits
  depthBuckets := fill Prod.snd (fun e => [e.1]) (fun ids e => ids ++ [e.1]) visits

theorem place_stateOf {visits : List (String × Nat)} {id : String} (h : id ∉ keys visits)
    (depth : Nat) : (stateOf visits).place id depth = stateOf (visits ++ [(id, depth)]) := by
  have hput : put id depth visits = visits ++ [(id, depth)] := by
    rw [put, List.filter_eq_self.2]
    intro e he
    have hne : e.1 ≠ id := fun heq => h (heq ▸ List.mem_map_of_mem he)
    simpa using hne
  simp [stateOf, LayoutState.place, hput, fill_concat]

/-- A loop on states that follows one on visits. -/
theorem foldlM_stateOf {α : Type} {step : List (String × Nat) → α → Option (List (String × Nat))}
    {step' : LayoutState → α → Option LayoutState}
    (h : ∀ visits a, step' (stateOf visits) a = (step visits a).map stateOf) (l : List α)
    (visits : List (String × Nat)) :
    l.foldlM step' (stateOf visits) = (l.foldlM step visits).map stateOf := by
  induction l generalizing visits with
  | nil => rfl
  | cons a l ih =>
      rw [List.foldlM_cons, List.foldlM_cons, h]
      cases step visits a with
      | none => rfl
      | some next => exact ih next

theorem assignDepths_stateOf (g : Adjacency) (fuel : Nat) (visits : List (String × Nat))
    (id : String) (depth : Nat) : assignDepths g fuel (stateOf visits) id depth =
      (visit g.childrenOf fuel id depth visits).map stateOf := by
  induction fuel generalizing visits id depth with
  | zero => rfl
  | succ fuel ih =>
      by_cases h : id ∈ keys visits
      · rw [visit_seen h]
        exact if_pos h
      · have hstep : assignDepths g (fuel + 1) (stateOf visits) id depth =
            (g.childrenOf id).foldlM (fun s c => assignDepths g fuel s c (depth + 1))
              ((stateOf visits).place id depth) := if_neg h
        rw [hstep, place_stateOf h, visit_new h]
        exact foldlM_stateOf (fun visits c => ih visits c (depth + 1)) _ _

/-- What the loops visit. -/
def visitRoot (g : Adjacency) (fuel : Nat) (visits : List (String × Nat)) (id : String) :
    Option (List (String × Nat)) :=
  visit g.childrenOf fuel id 0 visits

def visitRest (g : Adjacency) (fuel : Nat) (visits : List (String × Nat)) (id : String) :
    Option (List (String × Nat)) :=
  if id ∈ keys visits then some visits
  else visit g.childrenOf fuel id (maxDepth visits + 1) visits

def layoutVisits (g : Adjacency) (fuel : Nat) (roots ids : List String) :
    Option (List (String × Nat)) :=
  (roots.foldlM (visitRoot g fuel) []).bind (ids.foldlM (visitRest g fuel))

theorem assignRoot_stateOf (g : Adjacency) (fuel : Nat) (visits : List (String × Nat))
    (root : DagNode) :
    assignRoot g fuel (stateOf visits) root = (visitRoot g fuel visits root.taskId).map stateOf :=
  assignDepths_stateOf g fuel visits root.taskId 0

theorem assignRest_stateOf (g : Adjacency) (fuel : Nat) (visits : List (String × Nat))
    (node : DagNode) :
    assignRest g fuel (stateOf visits) node = (visitRest g fuel visits node.taskId).map stateOf := by
  unfold visitRest
  by_cases h : node.taskId ∈ keys visits
  · rw [if_pos h]
    exact if_pos h
  · rw [if_neg h, ← assignDepths_stateOf]
    exact if_neg h

/-- The columns of some visits. -/
def emit (g : Adjacency) (visits : List (String × Nat)) : Option (List LayoutNode) :=
  ((stateOf visits).depthBuckets.mapM (emitBucket g)).map List.flatten

theorem computeLayout_eq (fuel : Nat) (nodes : List DagNode) (edges : List DagEdge)
    (rootId : String) : computeLayout fuel nodes edges rootId =
      (layoutVisits (buildAdjacency nodes edges) fuel
        ((layoutRoots (buildAdjacency nodes edges) nodes rootId).map (·.taskId))
        (nodes.map (·.taskId))).bind (emit (buildAdjacency nodes edges)) := by
  have hroots := foldlM_stateOf (assignRoot_stateOf (buildAdjacency nodes edges) fuel)
    (layoutRoots (buildAdjacency nodes edges) nodes rootId) []
  have hrest := foldlM_stateOf (assignRest_stateOf (buildAdjacency nodes edges) fuel) nodes
  have hempty : stateOf [] = .empty := rfl
  rw [hempty] at hroots
  simp only [computeLayout, layoutVisits, hroots, List.foldlM_map, Option.bind_eq_bind,
    Option.bind_map, Option.bind_assoc]
  refine congrArg _ (funext fun visits => ?_)
  rw [Function.comp_apply, hrest, Option.bind_map]
  refine congrArg _ (funext fun visits => ?_)
  rw [Function.comp_apply, emit, Option.map_eq_bind]
  rfl

/-! ### Every node once -/

theorem mem_childrenOf {u c : String} (h : c ∈ (buildAdjacency nodes edges).childrenOf u) :
    c ∈ nodes.map (·.taskId) := by
  rw [childrenOf_buildAdjacency] at h
  obtain ⟨e, he, rfl⟩ := List.mem_map.1 h
  have hdrawn := (List.mem_filter.1 (List.mem_filter.1 he).1).2
  rw [Bool.and_eq_true, decide_eq_true_eq, decide_eq_true_eq] at hdrawn
  exact hdrawn.2

theorem mem_layoutRoots {g : Adjacency} {rootId : String} {n : DagNode}
    (h : n ∈ layoutRoots g nodes rootId) : n ∈ nodes := by
  rw [layoutRoots] at h
  split at h
  · exact List.mem_of_mem_take h
  · exact (List.mem_filter.1 h).1

theorem explored_of_visitRest {g : Adjacency} {fuel : Nat} {visits result : List (String × Nat)}
    {id : String} (h : visitRest g fuel visits id = some result) :
    Explored g.childrenOf [id] visits result := by
  unfold visitRest at h
  split at h
  · rename_i hseen
    cases h
    exact .none (by simpa using hseen)
  · exact explored_of_visit h

theorem explored_of_layoutVisits {g : Adjacency} {fuel : Nat} {roots ids : List String}
    {visits : List (String × Nat)} (h : layoutVisits g fuel roots ids = some visits) :
    Explored g.childrenOf (roots ++ ids) [] visits := by
  obtain ⟨mid, hroots, hrest⟩ := Option.bind_eq_some_iff.1 h
  exact (explored_of_foldlM (fun _ _ _ => explored_of_visit) hroots).append
    (explored_of_foldlM (fun _ _ _ => explored_of_visitRest) hrest)

theorem visitRest_total {g : Adjacency} {known : List String}
    (hknown : ∀ u, ∀ c ∈ g.childrenOf u, c ∈ known) {fuel : Nat} {id : String} (hid : id ∈ known)
    {visits : List (String × Nat)} (hfuel : (unseen known visits).length < fuel) :
    ∃ result, visitRest g fuel visits id = some result := by
  unfold visitRest
  split
  · exact ⟨visits, rfl⟩
  · exact visit_total hknown hid _ hfuel

theorem visitRest_mono {g : Adjacency} {fuel fuel' : Nat} (hle : fuel ≤ fuel') {id : String}
    {visits result : List (String × Nat)} (h : visitRest g fuel visits id = some result) :
    visitRest g fuel' visits id = some result := by
  unfold visitRest at h ⊢
  split
  · rwa [if_pos ‹_›] at h
  · rw [if_neg ‹_›] at h
    exact visit_mono hle h

/-- With the fuel of all nodes, the loops end, and more fuel changes nothing. -/
theorem layoutVisits_total {g : Adjacency} {known roots ids : List String}
    (hknown : ∀ u, ∀ c ∈ g.childrenOf u, c ∈ known) (hroots : ∀ id ∈ roots, id ∈ known)
    (hids : ∀ id ∈ ids, id ∈ known) :
    ∃ visits, ∀ fuel, known.length < fuel → layoutVisits g fuel roots ids = some visits := by
  have hfuel : ∀ visits, (unseen known visits).length < known.length + 1 := fun visits =>
    Nat.lt_succ_of_le (List.length_filter_le _ _)
  obtain ⟨mid, hmid⟩ : ∃ mid, roots.foldlM (visitRoot g (known.length + 1)) [] = some mid :=
    foldlM_total (fun _ _ _ => explored_of_visit) (fun _ hv _ h => visit_total hknown hv 0 h)
      hroots (hfuel [])
  obtain ⟨visits, hvisits⟩ :
      ∃ visits, ids.foldlM (visitRest g (known.length + 1)) mid = some visits :=
    foldlM_total (fun _ _ _ => explored_of_visitRest) (fun _ hv _ h => visitRest_total hknown hv h)
      hids (hfuel mid)
  refine ⟨visits, fun fuel hle => ?_⟩
  have hroots' : roots.foldlM (visitRoot g fuel) [] = some mid :=
    foldlM_mono (fun _ _ _ => visit_mono hle) hmid
  rw [layoutVisits, hroots']
  exact foldlM_mono (fun _ _ _ => visitRest_mono hle) hvisits

/-- What the loops visit: every node once. -/
theorem perm_of_layoutVisits {rootId : String} (hids : (nodes.map (·.taskId)).Nodup) {fuel : Nat}
    {visits : List (String × Nat)}
    (h : layoutVisits (buildAdjacency nodes edges) fuel
      ((layoutRoots (buildAdjacency nodes edges) nodes rootId).map (·.taskId))
      (nodes.map (·.taskId)) = some visits) : (keys visits).Perm (nodes.map (·.taskId)) := by
  have hexplored := explored_of_layoutVisits h
  rw [List.perm_ext_iff_of_nodup (hexplored.distinct .nil) hids]
  intro id
  refine ⟨fun hid => ?_, fun hid => hexplored.reached id (List.mem_append_right _ hid)⟩
  obtain ⟨v, hv, hpath⟩ := hexplored.origin id hid List.not_mem_nil
  cases hpath.cases_tail with
  | inl heq =>
      rw [heq]
      rcases List.mem_append.1 hv with hroot | hrest
      · obtain ⟨n, hn, rfl⟩ := List.mem_map.1 hroot
        exact List.mem_map_of_mem (mem_layoutRoots hn)
      · exact hrest
  | inr hstep =>
      obtain ⟨u, -, hchild⟩ := hstep
      exact mem_childrenOf hchild

/-! ### The columns -/

/-- The nodes are placed once each, no two at the same position. -/
structure IsLayout (nodes : List DagNode) (placed : List LayoutNode) : Prop where
  once : (placed.map (·.node)).Perm nodes
  apart : (placed.map fun n => (n.x, n.y)).Nodup

/-- The bucket of a depth holds the ids that were visited at it. -/
theorem depthBuckets_stateOf {visits : List (String × Nat)} {bucket : Nat × List String}
    (h : bucket ∈ (stateOf visits).depthBuckets) :
    bucket.2 = (visits.filter fun e => e.2 = bucket.1).map Prod.fst := by
  have hcollect := collect_of_mem_fill (k := bucket.1) (c := bucket.2) h
  generalize (visits.filter fun e => decide (e.2 = bucket.1)) = here at hcollect
  cases here with
  | nil => cases hcollect
  | cons e here =>
      have hfold : ∀ (ids : List String) (l : List (String × Nat)),
          l.foldl (fun ids e => ids ++ [e.1]) ids = ids ++ l.map Prod.fst := by
        intro ids l
        induction l generalizing ids with
        | nil => simp
        | cons e l ih => simp [ih]
      rw [collect, Option.some_inj, hfold] at hcollect
      rw [← hcollect]
      rfl

theorem nodup_depthBuckets (visits : List (String × Nat)) :
    ((stateOf visits).depthBuckets.map Prod.fst).Nodup := nodup_keys_fill _

theorem flatMap_depthBuckets_perm (visits : List (String × Nat)) :
    ((stateOf visits).depthBuckets.flatMap Prod.snd).Perm (keys visits) := by
  have hkeys : ∀ e ∈ visits, ∀ k, some e.2 = some k →
      k ∈ (stateOf visits).depthBuckets.map Prod.fst := fun e he k hk =>
    mem_keys_fill.2 ⟨e, he, Option.some.inj hk⟩
  have hgroups := flatMap_groups_perm (nodup_depthBuckets visits) hkeys fun _ e => some e.1
  have hbuckets : (stateOf visits).depthBuckets.flatMap Prod.snd =
      ((stateOf visits).depthBuckets.map Prod.fst).flatMap fun k =>
        (visits.filter fun e => some e.2 == some k).filterMap fun e => some e.1 := by
    rw [List.flatMap_map]
    refine List.flatMap_congr fun bucket hbucket => ?_
    rw [depthBuckets_stateOf hbucket, List.filterMap_eq_map']
    refine congrArg (List.map Prod.fst) (List.filter_congr fun e _ => ?_)
    rw [Bool.eq_iff_iff]
    simp
  rw [hbuckets]
  refine hgroups.trans (.of_eq ?_)
  simp [keys, List.filterMap_eq_map']

/-- A loop that may fail, where it does not. -/
theorem mapM_eq_filterMap {α β : Type} {f : α → Option β} {l : List α}
    (h : ∀ a ∈ l, (f a).isSome) : l.mapM f = some (l.filterMap f) := by
  induction l with
  | nil => rfl
  | cons a l ih =>
      obtain ⟨b, hb⟩ := Option.isSome_iff_exists.1 (h a List.mem_cons_self)
      rw [List.mapM_cons, hb, ih fun a' ha' => h a' (List.mem_cons_of_mem a ha'),
        List.filterMap_cons_some hb]
      rfl

/-- The nodes of a bucket, with their positions. -/
def column (g : Adjacency) (bucket : Nat × List String) : List LayoutNode :=
  bucket.2.zipIdx.filterMap fun entry => (g.nodeOf entry.1).map fun node =>
    { node, x := bucket.1 * (nodeWidth + horizontalGap),
      y := entry.2 * (nodeHeight + verticalGap), depth := bucket.1 }

theorem emit_eq {g : Adjacency} {visits : List (String × Nat)}
    (hknown : ∀ id ∈ keys visits, (g.nodeOf id).isSome) :
    emit g visits = some ((stateOf visits).depthBuckets.flatMap (column g)) := by
  have hbucket : ∀ bucket ∈ (stateOf visits).depthBuckets,
      emitBucket g bucket = some (column g bucket) := by
    intro bucket hbucket
    refine mapM_eq_filterMap fun entry hentry => ?_
    have hid : entry.1 ∈ keys visits :=
      (flatMap_depthBuckets_perm visits).mem_iff.1
        (List.mem_flatMap.2 ⟨bucket, hbucket, List.fst_mem_of_mem_zipIdx hentry⟩)
    rw [Option.isSome_map]
    exact hknown _ hid
  rw [emit, mapM_eq_filterMap fun bucket h => by rw [hbucket bucket h]; rfl, Option.map_some,
    List.flatMap_def, List.filterMap_congr hbucket, List.filterMap_eq_map']

theorem mem_column {g : Adjacency} {bucket : Nat × List String} {n : LayoutNode}
    (h : n ∈ column g bucket) : ∃ id ∈ bucket.2, g.nodeOf id = some n.node ∧
      n.depth = bucket.1 ∧ n.x = bucket.1 * (nodeWidth + horizontalGap) := by
  obtain ⟨entry, hentry, hsome⟩ := List.mem_filterMap.1 h
  obtain ⟨node, hnode, rfl⟩ := Option.map_eq_some_iff.1 hsome
  exact ⟨entry.1, List.fst_mem_of_mem_zipIdx hentry, hnode, rfl, rfl⟩

/-- Columns differ in `x`, and the nodes of one in `y`. -/
theorem apart_columns (g : Adjacency) {buckets : List (Nat × List String)}
    (hkeys : (buckets.map Prod.fst).Nodup) :
    ((buckets.flatMap (column g)).map fun n => (n.x, n.y)).Nodup := by
  have hwidth : 0 < nodeWidth + horizontalGap := by decide
  have hheight : 0 < nodeHeight + verticalGap := by decide
  rw [List.Nodup, List.pairwise_map, List.pairwise_flatMap]
  constructor
  · intro bucket _
    rw [column, List.pairwise_filterMap]
    have hindices : (bucket.2.zipIdx.map Prod.snd).Nodup := by
      rw [List.zipIdx_map_snd]
      exact List.nodup_range'
    refine (List.pairwise_map.1 hindices).imp fun hne => ?_
    intro n hn n' hn' heq
    obtain ⟨node, -, rfl⟩ := Option.map_eq_some_iff.1 hn
    obtain ⟨node', -, rfl⟩ := Option.map_eq_some_iff.1 hn'
    exact hne (Nat.eq_of_mul_eq_mul_right hheight (Prod.mk.inj heq).2)
  · refine (List.pairwise_map.1 hkeys).imp fun hne n hn n' hn' heq => ?_
    obtain ⟨-, -, -, -, hx⟩ := mem_column hn
    obtain ⟨-, -, -, -, hx'⟩ := mem_column hn'
    rw [hx, hx'] at heq
    exact hne (Nat.eq_of_mul_eq_mul_right hwidth (Prod.mk.inj heq).1)

theorem map_node_column (g : Adjacency) (bucket : Nat × List String) :
    (column g bucket).map (·.node) = bucket.2.filterMap g.nodeOf := by
  have hids : bucket.2 = bucket.2.zipIdx.map Prod.fst := (List.zipIdx_map_fst 0 bucket.2).symm
  rw [column, List.map_filterMap]
  conv_rhs => rw [hids, List.filterMap_map]
  refine List.filterMap_congr fun entry _ => ?_
  cases h : g.nodeOf entry.1 <;> simp [h]

/-- The graph gives each id its node. -/
theorem filterMap_nodeOf (hids : (nodes.map (·.taskId)).Nodup) (edges : List DagEdge) :
    (nodes.map (·.taskId)).filterMap (buildAdjacency nodes edges).nodeOf = nodes := by
  rw [List.filterMap_map]
  have hfound : ∀ n ∈ nodes,
      ((buildAdjacency nodes edges).nodeOf ∘ fun n => n.taskId) n = some n :=
    fun n hn => nodeOf_buildAdjacency hids hn
  rw [List.filterMap_congr hfound, List.filterMap_some]

theorem isLayout_columns (hids : (nodes.map (·.taskId)).Nodup) {visits : List (String × Nat)}
    (hvisits : (keys visits).Perm (nodes.map (·.taskId))) :
    IsLayout nodes
      ((stateOf visits).depthBuckets.flatMap (column (buildAdjacency nodes edges))) where
  once := by
    rw [List.map_flatMap]
    simp only [map_node_column]
    rw [← List.filterMap_flatMap]
    have hperm := ((flatMap_depthBuckets_perm visits).trans hvisits).filterMap
      (buildAdjacency nodes edges).nodeOf
    rwa [filterMap_nodeOf hids] at hperm
  apart := apart_columns _ (nodup_depthBuckets visits)

/-! ### The layout -/

/-- The visits of a layout, and what is made of them. -/
theorem computeLayout_visits (hids : (nodes.map (·.taskId)).Nodup) (edges : List DagEdge)
    (rootId : String) :
    ∃ visits, (keys visits).Perm (nodes.map (·.taskId)) ∧ ∀ fuel, nodes.length < fuel →
      layoutVisits (buildAdjacency nodes edges) fuel
        ((layoutRoots (buildAdjacency nodes edges) nodes rootId).map (·.taskId))
        (nodes.map (·.taskId)) = some visits ∧
      computeLayout fuel nodes edges rootId =
        some ((stateOf visits).depthBuckets.flatMap (column (buildAdjacency nodes edges))) := by
  have hroots : ∀ id ∈ (layoutRoots (buildAdjacency nodes edges) nodes rootId).map (·.taskId),
      id ∈ nodes.map (·.taskId) := by
    intro id hid
    obtain ⟨n, hn, rfl⟩ := List.mem_map.1 hid
    exact List.mem_map_of_mem (mem_layoutRoots hn)
  obtain ⟨visits, hvisits⟩ := layoutVisits_total (g := buildAdjacency nodes edges)
    (fun _ _ => mem_childrenOf) hroots fun _ hid => hid
  rw [List.length_map] at hvisits
  have hperm := perm_of_layoutVisits hids (hvisits _ (Nat.lt_succ_self _))
  refine ⟨visits, hperm, fun fuel hfuel => ⟨hvisits fuel hfuel, ?_⟩⟩
  rw [computeLayout_eq, hvisits fuel hfuel, Option.bind_some]
  refine emit_eq fun id hid => ?_
  obtain ⟨n, hn, rfl⟩ := List.mem_map.1 (hperm.mem_iff.1 hid)
  rw [nodeOf_buildAdjacency hids hn]
  rfl

/-- **The layout.** Whatever the edges are, the layout is computed, and has every node once, each at
a position of its own. -/
theorem computeLayout_total (hids : (nodes.map (·.taskId)).Nodup) (edges : List DagEdge)
    (rootId : String) :
    ∃ placed, (∀ fuel, nodes.length < fuel → computeLayout fuel nodes edges rootId = some placed) ∧
      IsLayout nodes placed := by
  obtain ⟨visits, hperm, hrun⟩ := computeLayout_visits hids edges rootId
  exact ⟨_, fun fuel hfuel => (hrun fuel hfuel).2, isLayout_columns hids hperm⟩

def sampleNodes : List DagNode := [Views.sampleNode "a" none, Views.sampleNode "b" none]

/-- A cycle of two, a loop, an edge that comes twice, and one to a task that is not there. -/
def sampleCycle : List DagEdge :=
  [⟨"a", "b", .group⟩, ⟨"b", "a", .group⟩, ⟨"b", "b", .chain⟩, ⟨"a", "b", .chord⟩, ⟨"a", "c", .chain⟩]

theorem computeLayout_total_cycle :
    ∃ placed, (∀ fuel, sampleNodes.length < fuel →
        computeLayout fuel sampleNodes sampleCycle "c" = some placed) ∧
      IsLayout sampleNodes placed :=
  computeLayout_total (by decide) sampleCycle "c"

end Feloxi.Web
