import Feloxi.Lib.Assoc
import Mathlib.Data.List.Dedup
import Mathlib.Logic.Relation

/-!
# Feloxi.Lib.DepthFirst

Depth-first search. A node keeps the depth of its first visit. In a graph without cycles that is the
depth at which it first occurs when every way to every node is written out.
-/

namespace Feloxi.DepthFirst

variable {κ : Type*} {succ : κ → List κ}

/-! ### The search -/

/-- The nodes that have been visited. -/
def keys (seen : List (κ × Nat)) : List κ := seen.map Prod.fst

variable (succ) in
/-- Visit a node, then what is below it; out of fuel, nothing is known. -/
def visit [DecidableEq κ] : Nat → κ → Nat → List (κ × Nat) → Option (List (κ × Nat))
  | 0, _, _, _ => none
  | fuel + 1, v, depth, seen =>
    if v ∈ keys seen then some seen
    else (succ v).foldlM (fun seen c => visit fuel c (depth + 1) seen) (seen ++ [(v, depth)])

@[simp] theorem keys_append (seen more : List (κ × Nat)) :
    keys (seen ++ more) = keys seen ++ keys more := List.map_append

@[simp] theorem keys_singleton (e : κ × Nat) : keys [e] = [e.1] := rfl

theorem visit_seen [DecidableEq κ] {v : κ} {seen : List (κ × Nat)} (h : v ∈ keys seen)
    (fuel depth : Nat) : visit succ (fuel + 1) v depth seen = some seen := if_pos h

theorem visit_new [DecidableEq κ] {v : κ} {seen : List (κ × Nat)} (h : v ∉ keys seen) (fuel depth : Nat) :
    visit succ (fuel + 1) v depth seen =
      (succ v).foldlM (fun seen c => visit succ fuel c (depth + 1) seen) (seen ++ [(v, depth)]) :=
  if_neg h

/-! ### What a search adds -/

variable (succ) in
/-- The search has gone through the nodes it started from, and what it added is complete below. -/
structure Explored (starts : List κ) (seen result : List (κ × Nat)) : Prop where
  grows : ∀ k ∈ keys seen, k ∈ keys result
  distinct : (keys seen).Nodup → (keys result).Nodup
  reached : ∀ v ∈ starts, v ∈ keys result
  closed : ∀ u ∈ keys result, u ∉ keys seen → ∀ c ∈ succ u, c ∈ keys result
  origin : ∀ u ∈ keys result, u ∉ keys seen →
    ∃ v ∈ starts, Relation.ReflTransGen (fun a b => b ∈ succ a) v u

theorem Explored.none {starts : List κ} {seen : List (κ × Nat)}
    (h : ∀ v ∈ starts, v ∈ keys seen) : Explored succ starts seen seen where
  grows _ hk := hk
  distinct hseen := hseen
  reached := h
  closed _ hu hnew := absurd hu hnew
  origin _ hu hnew := absurd hu hnew

theorem Explored.append {first second : List κ} {seen mid result : List (κ × Nat)}
    (hfirst : Explored succ first seen mid) (hsecond : Explored succ second mid result) :
    Explored succ (first ++ second) seen result where
  grows k hk := hsecond.grows k (hfirst.grows k hk)
  distinct hseen := hsecond.distinct (hfirst.distinct hseen)
  reached v hv := by
    rcases List.mem_append.1 hv with hv | hv
    · exact hsecond.grows v (hfirst.reached v hv)
    · exact hsecond.reached v hv
  closed u hu hnew c hc := by
    by_cases hmid : u ∈ keys mid
    · exact hsecond.grows c (hfirst.closed u hmid hnew c hc)
    · exact hsecond.closed u hu hmid c hc
  origin u hu hnew := by
    by_cases hmid : u ∈ keys mid
    · obtain ⟨v, hv, hpath⟩ := hfirst.origin u hmid hnew
      exact ⟨v, List.mem_append_left _ hv, hpath⟩
    · obtain ⟨v, hv, hpath⟩ := hsecond.origin u hu hmid
      exact ⟨v, List.mem_append_right _ hv, hpath⟩

/-- A node, then all that is below it. -/
theorem Explored.node {v : κ} {depth : Nat} {seen result : List (κ × Nat)} (hv : v ∉ keys seen)
    (h : Explored succ (succ v) (seen ++ [(v, depth)]) result) : Explored succ [v] seen result where
  grows k hk := h.grows k (by simp [hk])
  distinct hseen := h.distinct (by
    rw [keys_append, List.nodup_append]
    refine ⟨hseen, List.nodup_singleton _, fun a ha b hb heq => hv ?_⟩
    have hlast : b = v := List.mem_singleton.1 hb
    rwa [← hlast, ← heq])
  reached w hw := by
    rw [List.mem_singleton.1 hw]
    exact h.grows v (by simp)
  closed u hu hnew c hc := by
    by_cases heq : u = v
    · exact h.reached c (heq ▸ hc)
    · exact h.closed u hu (by simp [hnew, heq]) c hc
  origin u hu hnew := by
    by_cases heq : u = v
    · exact ⟨v, List.mem_singleton_self v, heq ▸ .refl⟩
    · obtain ⟨c, hc, hpath⟩ := h.origin u hu (by simp [hnew, heq])
      exact ⟨v, List.mem_singleton_self v, hpath.head hc⟩

/-- A loop of searches. -/
theorem explored_of_foldlM {step : List (κ × Nat) → κ → Option (List (κ × Nat))}
    (hstep : ∀ v seen result, step seen v = some result → Explored succ [v] seen result)
    {starts : List κ} {seen result : List (κ × Nat)} (h : starts.foldlM step seen = some result) :
    Explored succ starts seen result := by
  induction starts generalizing seen with
  | nil =>
      cases h
      exact .none (by simp)
  | cons v starts ih =>
      rw [List.foldlM_cons] at h
      obtain ⟨mid, hfirst, hrest⟩ := Option.bind_eq_some_iff.1 h
      exact (hstep v seen mid hfirst).append (ih hrest)

variable [DecidableEq κ]

theorem explored_of_visit {fuel : Nat} {v : κ} {depth : Nat} {seen result : List (κ × Nat)}
    (h : visit succ fuel v depth seen = some result) : Explored succ [v] seen result := by
  induction fuel generalizing v depth seen result with
  | zero => cases h
  | succ fuel ih =>
      by_cases hv : v ∈ keys seen
      · rw [visit_seen hv] at h
        cases h
        exact .none (by simpa using hv)
      · rw [visit_new hv] at h
        exact .node hv (explored_of_foldlM (fun _ _ _ => ih) h)

/-! ### Termination -/

/-- The known nodes that have not been visited. -/
def unseen (known : List κ) (seen : List (κ × Nat)) : List κ := known.filter fun k => k ∉ keys seen

theorem unseen_le (known : List κ) {seen result : List (κ × Nat)}
    (h : ∀ k ∈ keys seen, k ∈ keys result) :
    (unseen known result).length ≤ (unseen known seen).length := by
  refine (List.monotone_filter_right known fun k hk => ?_).length_le
  simp only [decide_eq_true_eq] at hk ⊢
  exact fun hseen => hk (h k hseen)

theorem unseen_lt {known : List κ} {v : κ} (hknown : v ∈ known) {seen : List (κ × Nat)}
    (hv : v ∉ keys seen) (depth : Nat) :
    (unseen known (seen ++ [(v, depth)])).length < (unseen known seen).length := by
  have hfilter : unseen known (seen ++ [(v, depth)]) =
      (unseen known seen).filter fun k => k ≠ v := by
    rw [unseen, unseen, List.filter_filter]
    refine List.filter_congr fun k _ => ?_
    rw [Bool.eq_iff_iff]
    simp [and_comm]
  rw [hfilter, List.length_filter_lt_length_iff_exists]
  exact ⟨v, List.mem_filter.2 ⟨hknown, by simp [hv]⟩, by simp⟩

/-- A loop ends if each of its searches does. -/
theorem foldlM_total {step : List (κ × Nat) → κ → Option (List (κ × Nat))} {known : List κ}
    {fuel : Nat}
    (hstep : ∀ v seen result, step seen v = some result → Explored succ [v] seen result)
    (htotal : ∀ v ∈ known, ∀ seen, (unseen known seen).length < fuel →
      ∃ result, step seen v = some result)
    {starts : List κ} (hstarts : ∀ v ∈ starts, v ∈ known) {seen : List (κ × Nat)}
    (hfuel : (unseen known seen).length < fuel) :
    ∃ result, starts.foldlM step seen = some result := by
  induction starts generalizing seen with
  | nil => exact ⟨seen, rfl⟩
  | cons v starts ih =>
      obtain ⟨mid, hmid⟩ := htotal v (hstarts v List.mem_cons_self) seen hfuel
      have hle := unseen_le known (hstep v seen mid hmid).grows
      obtain ⟨result, hresult⟩ :=
        ih (fun w hw => hstarts w (List.mem_cons_of_mem v hw)) (Nat.lt_of_le_of_lt hle hfuel)
      exact ⟨result, by rw [List.foldlM_cons, hmid]; exact hresult⟩

/-- **Termination.** The search goes as deep as there are nodes to visit. -/
theorem visit_total {known : List κ} (hknown : ∀ u, ∀ c ∈ succ u, c ∈ known) {fuel : Nat} {v : κ}
    (hv : v ∈ known) (depth : Nat) {seen : List (κ × Nat)}
    (hfuel : (unseen known seen).length < fuel) :
    ∃ result, visit succ fuel v depth seen = some result := by
  induction fuel generalizing v depth seen with
  | zero => exact absurd hfuel (Nat.not_lt_zero _)
  | succ fuel ih =>
      by_cases hnew : v ∈ keys seen
      · exact ⟨seen, visit_seen hnew fuel depth⟩
      · have hlt := unseen_lt hv hnew depth
        rw [visit_new hnew]
        exact foldlM_total (fun _ _ _ => explored_of_visit) (fun c hc _ h => ih hc (depth + 1) h)
          (hknown v) (by omega)

omit [DecidableEq κ] in
/-- A loop whose steps can only fail less. -/
theorem foldlM_mono {σ α : Type*} {step step' : σ → α → Option σ}
    (h : ∀ a s t, step s a = some t → step' s a = some t) {l : List α} {s t : σ}
    (hrun : l.foldlM step s = some t) : l.foldlM step' s = some t := by
  induction l generalizing s with
  | nil => exact hrun
  | cons a l ih =>
      rw [List.foldlM_cons] at hrun
      obtain ⟨mid, hfirst, hrest⟩ := Option.bind_eq_some_iff.1 hrun
      rw [List.foldlM_cons, h a s mid hfirst]
      exact ih hrest

/-- More fuel changes nothing. -/
theorem visit_succ_fuel {fuel : Nat} {v : κ} {depth : Nat} {seen result : List (κ × Nat)}
    (h : visit succ fuel v depth seen = some result) :
    visit succ (fuel + 1) v depth seen = some result := by
  induction fuel generalizing v depth seen result with
  | zero => cases h
  | succ fuel ih =>
      by_cases hv : v ∈ keys seen
      · rwa [visit_seen hv] at h ⊢
      · rw [visit_new hv] at h ⊢
        exact foldlM_mono (fun _ _ _ => ih) h

theorem visit_mono {fuel fuel' : Nat} (hle : fuel ≤ fuel') {v : κ} {depth : Nat}
    {seen result : List (κ × Nat)} (h : visit succ fuel v depth seen = some result) :
    visit succ fuel' v depth seen = some result := by
  induction hle with
  | refl => exact h
  | step _ ih => exact visit_succ_fuel ih

/-! ### Every way to every node -/

variable (succ) in
/-- The ways down from a node, of at most so many nodes: the node each ends at, and its length. -/
def ways : Nat → κ → Nat → List (κ × Nat)
  | 0, _, _ => []
  | n + 1, v, depth => (v, depth) :: (succ v).flatMap fun c => ways n c (depth + 1)

omit [DecidableEq κ] in
theorem path_of_mem_ways {n : Nat} {v : κ} {depth : Nat} {e : κ × Nat}
    (h : e ∈ ways succ n v depth) : Relation.ReflTransGen (fun a b => b ∈ succ a) v e.1 := by
  induction n generalizing v depth with
  | zero => cases h
  | succ n ih =>
      rw [ways, List.mem_cons] at h
      rcases h with rfl | h
      · exact .refl
      · obtain ⟨c, hc, he⟩ := List.mem_flatMap.1 h
        exact (ih he).head hc

omit [DecidableEq κ] in
/-- A way goes on, unless it is too long. -/
theorem ways_step {n : Nat} {v : κ} {depth : Nat} {u c : κ} {d : Nat} (hc : c ∈ succ u)
    (h : (u, d) ∈ ways succ n v depth) (hlong : d + 1 < depth + n) :
    (c, d + 1) ∈ ways succ n v depth := by
  induction n generalizing v depth with
  | zero => cases h
  | succ n ih =>
      rw [ways, List.mem_cons] at h
      refine List.mem_cons_of_mem _ (List.mem_flatMap.2 ?_)
      rcases h with h | h
      · cases h
        cases n with
        | zero => omega
        | succ n => exact ⟨c, hc, List.mem_cons_self⟩
      · obtain ⟨w, hw, hmem⟩ := List.mem_flatMap.1 h
        exact ⟨w, hw, ih hmem (by omega)⟩

omit [DecidableEq κ] in
/-- A way is no more than its start, or the last step of it is from a shorter one. -/
theorem ways_cases {n : Nat} {v : κ} {depth : Nat} {c : κ} {d : Nat}
    (h : (c, d) ∈ ways succ n v depth) :
    (c = v ∧ d = depth) ∨ ∃ u d', c ∈ succ u ∧ d = d' + 1 ∧ (u, d') ∈ ways succ n v depth := by
  induction n generalizing v depth with
  | zero => cases h
  | succ n ih =>
      rw [ways, List.mem_cons] at h
      rcases h with h | h
      · cases h
        exact .inl ⟨rfl, rfl⟩
      · obtain ⟨w, hw, hmem⟩ := List.mem_flatMap.1 h
        right
        rcases ih hmem with ⟨rfl, rfl⟩ | ⟨u, d', hc, hd, hu⟩
        · exact ⟨v, depth, hw, rfl, List.mem_cons_self⟩
        · exact ⟨u, d', hc, hd, List.mem_cons_of_mem _ (List.mem_flatMap.2 ⟨w, hw, hu⟩)⟩

/-! ### Without cycles -/

/-- Keep the first of each key. -/
def addFirst (seen : List (κ × Nat)) (e : κ × Nat) : List (κ × Nat) :=
  if e.1 ∈ keys seen then seen else seen ++ [e]

def firsts (seen more : List (κ × Nat)) : List (κ × Nat) := more.foldl addFirst seen

theorem firsts_append (seen first second : List (κ × Nat)) :
    firsts seen (first ++ second) = firsts (firsts seen first) second := List.foldl_append

theorem firsts_eq_self {seen more : List (κ × Nat)} (h : ∀ e ∈ more, e.1 ∈ keys seen) :
    firsts seen more = seen := by
  induction more with
  | nil => rfl
  | cons e more ih =>
      rw [firsts, List.foldl_cons, addFirst, if_pos (h e List.mem_cons_self)]
      exact ih fun e' he' => h e' (List.mem_cons_of_mem e he')

theorem lookup_firsts (seen more : List (κ × Nat)) (k : κ) :
    (firsts seen more).lookup k = (seen.lookup k).or (more.lookup k) := by
  induction more generalizing seen with
  | nil => simp [firsts]
  | cons e more ih =>
      have hstep : (addFirst seen e).lookup k = (seen.lookup k).or ([e].lookup k) := by
        rw [addFirst]
        split
        · rename_i hseen
          by_cases hk : k = e.1
          · obtain ⟨d, hd⟩ := Option.isSome_iff_exists.1 (Assoc.isSome_lookup_iff.2 hseen)
            rw [hk, hd, Option.some_or]
          · have hnone : [e].lookup k = none := by simp [hk]
            rw [hnone, Option.or_none]
        · exact List.lookup_append
      rw [firsts, List.foldl_cons, ← firsts, ih, hstep, Option.or_assoc, ← List.lookup_append]
      rfl

/-- Below a node, what has been visited is complete. -/
def ClosedBelow (succ : κ → List κ) (v : κ) (seen : List (κ × Nat)) : Prop :=
  ∀ u, Relation.ReflTransGen (fun a b => b ∈ succ a) v u → u ∈ keys seen →
    ∀ c ∈ succ u, c ∈ keys seen

omit [DecidableEq κ] in
theorem ClosedBelow.mem {v u : κ} {seen : List (κ × Nat)} (h : ClosedBelow succ v seen)
    (hv : v ∈ keys seen) (hpath : Relation.ReflTransGen (fun a b => b ∈ succ a) v u) :
    u ∈ keys seen := by
  induction hpath with
  | refl => exact hv
  | tail hfirst hlast ih => exact h _ hfirst ih _ hlast

omit [DecidableEq κ] in
/-- What a search adds is complete, so it leaves complete what was. -/
theorem ClosedBelow.explored {v : κ} {starts : List κ} {seen result : List (κ × Nat)}
    (h : ClosedBelow succ v seen) (hexplored : Explored succ starts seen result) :
    ClosedBelow succ v result := by
  intro u hpath hu c hc
  by_cases hseen : u ∈ keys seen
  · exact hexplored.grows c (h u hpath hseen c hc)
  · exact hexplored.closed u hu hseen c hc

/-- A loop of searches that each take the first ways. -/
theorem foldlM_eq_firsts {step : List (κ × Nat) → κ → Option (List (κ × Nat))}
    {way : κ → List (κ × Nat)} {starts : List κ}
    (hstep : ∀ v ∈ starts, ∀ seen, ClosedBelow succ v seen → step seen v = some (firsts seen (way v)))
    (hexplored : ∀ v seen result, step seen v = some result → Explored succ [v] seen result)
    {seen : List (κ × Nat)} (hclosed : ∀ v ∈ starts, ClosedBelow succ v seen) :
    starts.foldlM step seen = some (firsts seen (starts.flatMap way)) := by
  induction starts generalizing seen with
  | nil => rfl
  | cons v starts ih =>
      have hv := hstep v List.mem_cons_self seen (hclosed v List.mem_cons_self)
      rw [List.foldlM_cons, hv, List.flatMap_cons, firsts_append]
      exact ih (fun w hw => hstep w (List.mem_cons_of_mem v hw)) fun w hw =>
        (hclosed w (List.mem_cons_of_mem v hw)).explored (hexplored v _ _ hv)

/-- **The first way.** Where the edges go up some numbering, the search gives each node the length
of the first way to it. -/
theorem visit_eq_firsts {rank : κ → Nat} (hrank : ∀ u, ∀ c ∈ succ u, rank u < rank c) {top : Nat}
    (htop : ∀ u, ∀ c ∈ succ u, rank c < top) {fuel : Nat} {v : κ} (hv : rank v < top)
    (hfuel : top ≤ fuel + rank v) (depth : Nat) {seen : List (κ × Nat)} (hclosed : ClosedBelow succ v seen) :
    visit succ fuel v depth seen = some (firsts seen (ways succ fuel v depth)) := by
  induction fuel generalizing v depth seen with
  | zero => omega
  | succ fuel ih =>
      by_cases hseen : v ∈ keys seen
      · rw [visit_seen hseen, firsts_eq_self fun e he => hclosed.mem hseen (path_of_mem_ways he)]
      · have hcons : firsts seen (ways succ (fuel + 1) v depth) =
            firsts (seen ++ [(v, depth)])
              ((succ v).flatMap fun c => ways succ fuel c (depth + 1)) := by
          rw [ways, firsts, List.foldl_cons, addFirst, if_neg hseen, ← firsts]
        have hup : ∀ {a b}, Relation.ReflTransGen (fun a b => b ∈ succ a) a b →
            rank a ≤ rank b := by
          intro a b hpath
          induction hpath with
          | refl => exact Nat.le_refl _
          | tail _ hlast ih => exact Nat.le_of_lt (Nat.lt_of_le_of_lt ih (hrank _ _ hlast))
        rw [visit_new hseen, hcons]
        refine foldlM_eq_firsts ?_ (fun _ _ _ => explored_of_visit) ?_
        · intro c hc seen hbelow
          have := hrank v c hc
          exact ih (htop v c hc) (by omega) (depth + 1) hbelow
        · -- the node itself is not below its children
          intro c hc u hpath hu c' hc'
          have hne : u ≠ v := by
            rintro rfl
            have := hrank _ c hc
            have := hup hpath
            omega
          have hseen : u ∈ keys seen := by simpa [hne] using hu
          simp [hclosed u (hpath.head hc) hseen c' hc']

/-! ### Longest ways -/

/-- The first way to a node is as long as any. -/
def FirstLongest (l : List (κ × Nat)) : Prop :=
  ∀ e ∈ l, ∀ d, l.lookup e.1 = some d → e.2 ≤ d

/-- **Edges go down.** Where the ways are all there, the first way to a node is longer than that to
any node above it exactly if first ways are longest. -/
theorem lookup_lt_iff_firstLongest {l : List (κ × Nat)}
    (hstep : ∀ u d, (u, d) ∈ l → ∀ c ∈ succ u, (c, d + 1) ∈ l)
    (hcases : ∀ c d, (c, d) ∈ l → d = 0 ∨ ∃ u d', c ∈ succ u ∧ d = d' + 1 ∧ (u, d') ∈ l) :
    (∀ u, ∀ c ∈ succ u, ∀ d d', l.lookup u = some d → l.lookup c = some d' → d < d') ↔
      FirstLongest l := by
  constructor
  · intro hdown
    have hlongest : ∀ d c, (c, d) ∈ l → ∀ first, l.lookup c = some first → d ≤ first := by
      intro d
      induction d with
      | zero => exact fun c _ first _ => Nat.zero_le first
      | succ d ih =>
          intro c hc first hfirst
          obtain ⟨u, d', hu, hd, hmem⟩ := (hcases c (d + 1) hc).resolve_left (Nat.succ_ne_zero d)
          cases hd
          obtain ⟨above, habove⟩ :=
            Option.isSome_iff_exists.1 (Assoc.isSome_lookup_iff.2 (List.mem_map_of_mem hmem))
          have hle := ih u hmem above habove
          have hlt := hdown u c hu above first habove hfirst
          omega
    exact fun e he first hfirst => hlongest e.2 e.1 he first hfirst
  · intro hlongest u c hc d d' hu hd'
    exact hlongest (c, d + 1) (hstep u d (Assoc.mem_of_lookup hu) c hc) d' hd'

end Feloxi.DepthFirst
