import Feloxi.Alerting.Attempts

/-!
# Feloxi.Alerting.Budget

The retry policy over the life of a deployment: how often a channel is attempted for
one incident, when a retry is scheduled, and when it is made.

The budget is an invariant of the queue: for an incident and a channel there is at
most one job, queued or popped, and its number is above those of the attempts made.
-/

namespace Feloxi.Alerting

/-! ### Delays -/

/-- The hint of the provider; one that is not finite counts as absent. -/
def SendResult.retryHint (r : SendResult) : Option ℚ :=
  match r.retryAfter with
  | some (.fin q) => some q
  | _ => none

/-- The shortest delay the policy allows, in seconds. -/
def leastDelay (hint : Option ℚ) : ℚ := max 60 (min (hint.getD 0) 3600)

/-- A score between the shortest delay and an hour after a time. -/
def Spaced (t : Instant) (result : SendResult) (score : F64) : Prop :=
  ∃ s : ℚ, score = .fin s ∧ (t : ℚ) / nanosPerSec + leastDelay result.retryHint ≤ s ∧
    s ≤ (t : ℚ) / nanosPerSec + 3600

/-- Without a hint the backoff is between one and fifteen minutes. -/
theorem backoffSecs_base (attempt : Nat) : ∃ base : ℚ, 60 ≤ base ∧ base ≤ 900 ∧
    ∀ retryAfter, backoffSecs attempt retryAfter = match retryAfter with
      | some ra => if ra.isFinite && ra.gt (.fin base) then ra.min (.fin 3600) else .fin base
      | none => .fin base := by
  unfold backoffSecs
  split
  · exact ⟨60, by norm_num, by norm_num, fun _ => rfl⟩
  · exact ⟨300, by norm_num, by norm_num, fun _ => rfl⟩
  · exact ⟨900, by norm_num, by norm_num, fun _ => rfl⟩

/-- The backoff is finite and in bounds, whatever the hint. -/
theorem backoffSecs_bounds (attempt : Nat) (result : SendResult) :
    ∃ q, backoffSecs attempt result.retryAfter = .fin q ∧ leastDelay result.retryHint ≤ q ∧
      q ≤ 3600 := by
  obtain ⟨base, hlow, hhigh, hbackoff⟩ := backoffSecs_base attempt
  -- without a finite hint the base is the delay
  have hbare : leastDelay none ≤ base ∧ base ≤ 3600 := by
    refine ⟨?_, by linarith⟩
    rw [leastDelay, Option.getD_none, min_eq_left (by norm_num), max_eq_left (by norm_num)]
    exact hlow
  rw [hbackoff]
  unfold SendResult.retryHint
  cases result.retryAfter with
  | none => exact ⟨base, rfl, hbare⟩
  | some ra =>
      cases ra with
      | nan => exact ⟨base, rfl, hbare⟩
      | inf => exact ⟨base, rfl, hbare⟩
      | fin q =>
          simp only [F64.isFinite, Bool.true_and, F64.gt, F64.lt, decide_eq_true_eq, F64.min,
            leastDelay, Option.getD_some]
          by_cases hlonger : base < q
          · rw [if_pos hlonger]
            by_cases hcap : (3600 : ℚ) < q
            · rw [if_pos hcap]
              exact ⟨3600, rfl, max_le (by norm_num) (min_le_right _ _), le_refl _⟩
            · rw [if_neg hcap]
              exact ⟨q, rfl, max_le (by linarith) (min_le_left _ _), not_lt.1 hcap⟩
          · rw [if_neg hlonger]
            exact ⟨base, rfl, max_le hlow ((min_le_left _ _).trans (not_lt.1 hlonger)),
              by linarith⟩

theorem spaced_retryScore (t : Instant) (attempt : Nat) (result : SendResult) :
    Spaced t result (retryScore t attempt result) := by
  obtain ⟨q, hq, hlow, hhigh⟩ := backoffSecs_bounds attempt result
  refine ⟨(t : ℚ) / nanosPerSec + q, ?_, by linarith, by linarith⟩
  rw [retryScore, hq, toUnixF64, F64.add]

/-- What a call adds to the queue is spaced from the time of the call. -/
theorem maybeScheduleRetry_spaced (call : Call) (tenantId historyId : Uuid) (attempt : Nat)
    (channel : AlertChannel) (alert : FiredAlert) (result : SendResult) (w : World) :
    ∀ e ∈ (maybeScheduleRetry call tenantId historyId attempt channel alert result w).deliveryRetry,
      e ∈ w.deliveryRetry ∨ Spaced w.now result e.1 := by
  intro e he
  rcases maybeScheduleRetry_queue call tenantId historyId attempt channel alert result w with
    hsame | ⟨-, -, hqueued⟩
  · exact .inl (hsame ▸ he)
  · rw [hqueued] at he
    rcases List.mem_append.1 he with hold | hnew
    · exact .inl (List.mem_of_mem_filter hold)
    · rw [List.mem_singleton.1 hnew]
      exact .inr (spaced_retryScore w.now attempt result)

/-- A score that is due stays due. -/
theorem le_toUnixF64_of_le {score : F64} {t t' : Instant} (h : score.le (toUnixF64 t) = true)
    (hle : t ≤ t') : score.le (toUnixF64 t') = true := by
  cases score with
  | nan => cases h
  | inf neg => exact h
  | fin q =>
      simp only [F64.le, toUnixF64, decide_eq_true_eq] at h ⊢
      have hcast : (t : ℚ) ≤ t' := Nat.cast_le.2 hle
      have hnanos : (0 : ℚ) ≤ nanosPerSec := Nat.cast_nonneg _
      exact h.trans (div_le_div_of_nonneg_right hcast hnanos)

/-! ### The budget of one channel -/

/-- The attempts of an incident on a channel. -/
def attemptsOn (c : AlertChannel) (row : Uuid) (firing : Nat) (trace : List Event) :
    List (Nat × Delivery) :=
  (incidentAttempts row firing trace).filter fun a => decide (a.2.channel = c)

/-- The jobs for a channel of an incident. -/
def jobsOn (c : AlertChannel) (row : Uuid) (jobs : List DeliveryRetryJob) : List DeliveryRetryJob :=
  jobs.filter fun j => decide (j.historyId = row ∧ j.channel = c)

/-- The inline sends of a firing on a channel, also of one that got no row. -/
def firedOn (c : AlertChannel) (firing : Nat) (trace : List Event) : List Delivery :=
  (trace.filterMap Event.delivery?).filter fun d =>
    decide (d.notice = .fire firing ∧ d.channel = c)

/-- The numbers of the attempts made, and the jobs that wait. -/
structure InBudget (made : List Nat) (waiting : List DeliveryRetryJob) : Prop where
  increasing : made.Pairwise (· < ·)
  range : ∀ k ∈ made, 1 ≤ k ∧ k ≤ maxDeliveryAttempts
  single : waiting.length ≤ 1
  next : ∀ j ∈ waiting, 1 ≤ j.attempt ∧ j.attempt ≤ maxDeliveryAttempts ∧ ∀ k ∈ made, k < j.attempt

namespace InBudget

variable {made : List Nat} {waiting waiting' : List DeliveryRetryJob}

/-- Increasing numbers between one and the maximum are at most that many. -/
theorem length_le (h : InBudget made waiting) : made.length ≤ maxDeliveryAttempts := by
  have hnodup : made.Nodup := h.increasing.imp fun hlt => Nat.ne_of_lt hlt
  have hsub : made ⊆ [1, 2, 3] := by
    intro k hk
    have hrange := h.range k hk
    have hmax : maxDeliveryAttempts = 3 := rfl
    simp only [List.mem_cons, List.not_mem_nil, or_false]
    omega
  exact (List.subperm_of_subset hnodup hsub).length_le

/-- Jobs may be lost. -/
theorem mono (h : InBudget made waiting) (hsub : waiting'.Subperm waiting) :
    InBudget made waiting' where
  increasing := h.increasing
  range := h.range
  single := Nat.le_trans hsub.length_le h.single
  next j hj := h.next j (hsub.subset hj)

/-- The waiting job is taken up, and at most the next one is queued. -/
theorem attempted {job : DeliveryRetryJob} (h : InBudget made waiting) (hjob : job ∈ waiting)
    (hsingle : waiting'.length ≤ 1)
    (hnext : ∀ j ∈ waiting', job.attempt < maxDeliveryAttempts ∧ j.attempt = job.attempt + 1) :
    InBudget (made ++ [job.attempt]) waiting' := by
  obtain ⟨hone, hmax, hlater⟩ := h.next job hjob
  refine ⟨?_, ?_, hsingle, ?_⟩
  · rw [List.pairwise_append]
    refine ⟨h.increasing, List.pairwise_singleton _ _, ?_⟩
    intro k hk k' hk'
    rw [List.mem_singleton.1 hk']
    exact hlater k hk
  · intro k hk
    rcases List.mem_append.1 hk with hk | hk
    · exact h.range k hk
    · rw [List.mem_singleton.1 hk]
      exact ⟨hone, hmax⟩
  · intro j hj
    obtain ⟨hlt, hattempt⟩ := hnext j hj
    refine ⟨by omega, by omega, ?_⟩
    intro k hk
    rcases List.mem_append.1 hk with hk | hk
    · have := hlater k hk
      omega
    · rw [List.mem_singleton.1 hk]
      omega

end InBudget

theorem mem_jobsOn {c : AlertChannel} {row : Uuid} {jobs : List DeliveryRetryJob}
    {j : DeliveryRetryJob} : j ∈ jobsOn c row jobs ↔ j ∈ jobs ∧ j.historyId = row ∧ j.channel = c := by
  rw [jobsOn, List.mem_filter, decide_eq_true_eq]

/-- Jobs of another row or another channel. -/
theorem jobsOn_eq_nil {c : AlertChannel} {row : Uuid} {jobs : List DeliveryRetryJob}
    (h : ∀ j ∈ jobs, j.historyId = row → j.channel ≠ c) : jobsOn c row jobs = [] := by
  refine List.filter_eq_nil_iff.2 fun j hj => ?_
  rw [decide_eq_true_eq]
  exact fun ⟨hrow, hchannel⟩ => h j hj hrow hchannel

theorem jobsOn_append (c : AlertChannel) (row : Uuid) (jobs jobs' : List DeliveryRetryJob) :
    jobsOn c row (jobs ++ jobs') = jobsOn c row jobs ++ jobsOn c row jobs' :=
  List.filter_append ..

/-- Deliveries to distinct channels hit a channel at most once. -/
theorem length_filter_channel_le {ds : List Delivery} (h : (ds.map (·.channel)).Nodup)
    (c : AlertChannel) : (ds.filter fun d => decide (d.channel = c)).length ≤ 1 := by
  have hcount : (ds.map (·.channel)).count c ≤ 1 := List.nodup_iff_count_le_one.1 h c
  rwa [List.count_eq_countP, List.countP_map, List.countP_eq_length_filter] at hcount

/-! ### The invariant -/

/-- No channel of an incident exceeds its budget. -/
structure Budgeted (pending : List DeliveryRetryJob) (w : World) : Prop where
  ledger : Ledger pending w
  budget : ∀ t r row firing, .opened t r row firing ∈ w.trace → ∀ c,
    InBudget ((attemptsOn c row firing w.trace).map Prod.fst) (jobsOn c row (w.jobs ++ pending))
  fired : ∀ firing c, (firedOn c firing w.trace).length ≤ 1

section Budgeted

variable {pending pending' : List DeliveryRetryJob} {w w' : World}

/-- Events without a fire notice. -/
theorem firedOn_append {trace events : List Event} {firing : Nat}
    (h : ∀ d, .delivery d ∈ events → d.notice ≠ .fire firing) (c : AlertChannel) :
    firedOn c firing (trace ++ events) = firedOn c firing trace := by
  have hnone : (events.filterMap Event.delivery?).filter
      (fun d => decide (d.notice = .fire firing ∧ d.channel = c)) = [] := by
    refine List.filter_eq_nil_iff.2 fun d hd => ?_
    rw [decide_eq_true_eq]
    exact fun hfire => h d (mem_deliveries.1 hd) hfire.1
  rw [firedOn, List.filterMap_append, List.filter_append, hnone, List.append_nil, firedOn]

theorem Budgeted.idle (h : Budgeted pending w) (hidle : Idle pending pending' w w') :
    Budgeted pending' w' where
  ledger := h.ledger.idle hidle
  budget t r row firing hopened c := by
    have hbudget := h.budget t r row firing (hidle.opened hopened) c
    rw [attemptsOn, hidle.incidentAttempts]
    exact hbudget.mono (hidle.jobs.filter _)
  fired firing c := by
    obtain ⟨events, htrace, hresolved, -⟩ := hidle.trace
    rw [htrace, firedOn_append]
    · exact h.fired firing c
    · intro d hd hfire
      obtain ⟨incident, hnotice⟩ := hresolved d hd
      rw [hnotice] at hfire
      cases hfire

/-- The first attempts of an incident, and their retries. -/
theorem inBudget_of_fired {ds : List Delivery} {jobs : List DeliveryRetryJob} {row : Uuid}
    {tenantId : Uuid} (hchannels : (ds.map (·.channel)).Nodup) (c : AlertChannel)
    (hjobs : (jobsOn c row jobs).Subperm
      ((ds.filter fun d => decide (d.channel = c)).map fun d => d.retryJob tenantId row 2)) :
    InBudget (((ds.map fun d => (1, d)).filter fun a => decide (a.2.channel = c)).map Prod.fst)
      (jobsOn c row jobs) := by
  have hhit := length_filter_channel_le hchannels c
  have hmade : ((ds.map fun d => (1, d)).filter fun a => decide (a.2.channel = c)).map Prod.fst =
      (ds.filter fun d => decide (d.channel = c)).map fun _ => 1 := by
    rw [List.filter_map, List.map_map]
    rfl
  rw [hmade]
  have hattempt : ∀ j ∈ jobsOn c row jobs, j.attempt = 2 := by
    intro j hj
    obtain ⟨d, -, rfl⟩ := List.mem_map.1 (hjobs.subset hj)
    rfl
  have hmax : maxDeliveryAttempts = 3 := rfl
  refine ⟨?_, ?_, ?_, ?_⟩
  · cases hhits : ds.filter (fun d => decide (d.channel = c)) with
    | nil => exact List.Pairwise.nil
    | cons d rest =>
        rw [hhits, List.length_cons] at hhit
        rw [List.eq_nil_of_length_eq_zero (by omega : rest.length = 0)]
        exact List.pairwise_singleton _ _
  · intro k hk
    obtain ⟨d, -, rfl⟩ := List.mem_map.1 hk
    omega
  · refine Nat.le_trans hjobs.length_le ?_
    rw [List.length_map]
    exact hhit
  · intro j hj
    have := hattempt j hj
    refine ⟨by omega, by omega, ?_⟩
    intro k hk
    obtain ⟨d, -, rfl⟩ := List.mem_map.1 hk
    omega

theorem Budgeted.raised {env : PassEnv} {tp : TenantPass} {rule : AlertRule} {alert : FiredAlert}
    {ds : List Delivery} {row : Option AlertHistoryRow} (h : Budgeted [] w)
    (hnodup : rule.channels.Nodup) (hraised : Raised env tp rule w w' alert ds row) :
    Budgeted [] w' := by
  have hchannels : (ds.map (·.channel)).Nodup := by
    rw [hraised.channels]
    unfold TenantPass.noticeChannels
    split
    · exact List.nodup_nil
    · exact hnodup.filter _
  obtain ⟨events, htrace, hds, hnotice, -⟩ := hraised.parts
  refine ⟨h.ledger.raised hraised, ?_, ?_⟩
  · intro t r id firing hopened c
    have hjobs := hraised.queue.jobs.filter fun j => decide (j.historyId = id ∧ j.channel = c)
    rw [← jobsOn, ← jobsOn, jobsOn_append] at hjobs
    rw [List.append_nil]
    rcases hraised.opened hopened with hold | ⟨-, rfl, new, hnew, rfl⟩
    · -- an earlier incident: its row is not the new one
      obtain ⟨hrow, hfiring⟩ := h.ledger.opened t r id firing hold
      have hnone : jobsOn c id (row.toList.flatMap fun h =>
          ds.map fun d => d.retryJob tp.tenant.id h.id 2) = [] := by
        refine jobsOn_eq_nil fun j hj hid => ?_
        obtain ⟨new, hnew, hj⟩ := List.mem_flatMap.1 hj
        obtain ⟨d, -, hjob⟩ := List.mem_map.1 hj
        obtain rfl : new.id = id := by
          rw [← hid, ← hjob]
          rfl
        exact absurd hrow (hraised.written new (Option.mem_toList.1 hnew)).id
      rw [hnone, List.append_nil] at hjobs
      have hbudget := h.budget t r id firing hold c
      rw [List.append_nil] at hbudget
      rw [attemptsOn, hraised.incidentAttempts_old hfiring]
      exact hbudget.mono hjobs
    · -- the new incident: nothing was queued for its row before
      have hnone : jobsOn c new.id w.jobs = [] := by
        refine jobsOn_eq_nil fun j hj hid => ?_
        have hknown := h.ledger.jobs j (List.mem_append_left _ hj)
        exact absurd (hid ▸ hknown) (hraised.written new hnew).id
      have hrow : row.toList = [new] := by
        rw [Option.mem_def.1 hnew]
        rfl
      have hqueued : jobsOn c new.id (ds.map fun d => d.retryJob tp.tenant.id new.id 2) =
          (ds.filter fun d => decide (d.channel = c)).map
            fun d => d.retryJob tp.tenant.id new.id 2 := by
        rw [jobsOn, List.filter_map]
        congr 1
        refine List.filter_congr fun d _ => ?_
        simp [Delivery.retryJob]
      rw [hnone, List.nil_append, hrow, List.flatMap_singleton, hqueued] at hjobs
      rw [attemptsOn, hraised.incidentAttempts_new h.ledger hnew]
      exact inBudget_of_fired hchannels c hjobs
  · intro firing c
    by_cases hthis : firing = w.trace.length
    · subst hthis
      have hpast : firedOn c w.trace.length w.trace = [] := by
        refine List.filter_eq_nil_iff.2 fun d hd => ?_
        rw [decide_eq_true_eq]
        intro hfire
        exact absurd (h.ledger.fired d _ (mem_deliveries.1 hd) hfire.1) (Nat.lt_irrefl _)
      have hnew : firedOn c w.trace.length events = ds.filter fun d => decide (d.channel = c) := by
        rw [firedOn, hds]
        refine List.filter_congr fun d hd => ?_
        simp [hnotice d hd]
      have hsplit : firedOn c w.trace.length (w.trace ++ events) =
          firedOn c w.trace.length w.trace ++ firedOn c w.trace.length events := by
        simp only [firedOn, List.filterMap_append, List.filter_append]
      rw [htrace, hsplit, hpast, hnew, List.nil_append]
      exact length_filter_channel_le hchannels c
    · rw [htrace, firedOn_append]
      · exact h.fired firing c
      · intro d hd hfire
        rw [hnotice d (hds ▸ mem_deliveries.2 hd), Notice.fire.injEq] at hfire
        exact hthis hfire.symm

section Retried

variable {env : DrainEnv} {job : DeliveryRetryJob} {rest : List DeliveryRetryJob}
  {ds : List Delivery}

theorem Retried.channel (h : Retried env job w w' ds) {d : Delivery} (hd : d ∈ ds) :
    d.channel = job.channel := (h.deliveries d hd).2

/-- The jobs of a channel after a retry: those that were queued, and the next attempt. -/
theorem Retried.jobsOn (h : Retried env job w w' ds) (c : AlertChannel) (row : Uuid) :
    (jobsOn c row w'.jobs).Subperm (jobsOn c row w.jobs ++
      jobsOn c row (if job.attempt < maxDeliveryAttempts
        then ds.map fun d => d.retryJob job.tenantId job.historyId (job.attempt + 1) else [])) := by
  rw [← jobsOn_append]
  exact h.queue.jobs.filter _

/-- The budget of the channel a job is for: its attempt is made. -/
theorem Retried.inBudget_self (h : Retried env job w w' ds) {firing : Nat}
    (hbudget : InBudget ((attemptsOn job.channel job.historyId firing w.trace).map Prod.fst)
      (Alerting.jobsOn job.channel job.historyId (w.jobs ++ job :: rest))) :
    InBudget ((attemptsOn job.channel job.historyId firing w'.trace).map Prod.fst)
      (Alerting.jobsOn job.channel job.historyId (w'.jobs ++ rest)) := by
  have hjobs := h.jobsOn job.channel job.historyId
  have hself : Alerting.jobsOn job.channel job.historyId [job] = [job] :=
    List.filter_eq_self.2 fun j hj => by simp [List.mem_singleton.1 hj]
  rw [jobsOn_append, ← List.singleton_append, jobsOn_append, hself] at hbudget
  -- the job is the only one that waits
  have hlone := hbudget.single
  rw [List.length_append, List.length_append, List.length_singleton] at hlone
  have hrest : Alerting.jobsOn job.channel job.historyId rest = [] :=
    List.eq_nil_of_length_eq_zero (by omega)
  have hqueue : Alerting.jobsOn job.channel job.historyId w.jobs = [] :=
    List.eq_nil_of_length_eq_zero (by omega)
  rw [hrest, hqueue, List.nil_append, List.append_nil] at hbudget
  rw [hqueue, List.nil_append] at hjobs
  have hlimit : ∀ j ∈ Alerting.jobsOn job.channel job.historyId w'.jobs, ds ≠ [] ∧
      job.attempt < maxDeliveryAttempts ∧ j.attempt = job.attempt + 1 := by
    intro j hj
    have hqueued := (mem_jobsOn.1 (hjobs.subset hj)).1
    split at hqueued
    · rename_i hlt
      obtain ⟨d, hd, rfl⟩ := List.mem_map.1 hqueued
      exact ⟨List.ne_nil_of_mem hd, hlt, rfl⟩
    · cases hqueued
  have hmade : ((ds.map fun d => (job.attempt, d)).filter fun a =>
      decide (a.2.channel = job.channel)).map Prod.fst = ds.map fun _ => job.attempt := by
    rw [List.filter_map, List.map_map, List.filter_eq_self.2]
    · rfl
    · intro d hd
      exact decide_eq_true (h.channel hd)
  rw [jobsOn_append, hrest, List.append_nil, attemptsOn, h.incidentAttempts_self,
    List.filter_append, List.map_append, hmade]
  cases hds : ds with
  | nil =>
      have hnone : Alerting.jobsOn job.channel job.historyId w'.jobs = [] :=
        List.eq_nil_iff_forall_not_mem.2 fun j hj => (hlimit j hj).1 hds
      rw [List.map_nil, List.append_nil, hnone]
      exact hbudget.mono List.nil_subperm
  | cons d more =>
      have hsingle := h.single
      rw [hds, List.length_cons] at hsingle
      obtain rfl := List.eq_nil_of_length_eq_zero (by omega : more.length = 0)
      refine hbudget.attempted (List.mem_singleton_self job) ?_ fun j hj => (hlimit j hj).2
      refine Nat.le_trans hjobs.length_le (Nat.le_trans (List.length_filter_le _ _) ?_)
      rw [hds]
      split
      · exact Nat.le_refl 1
      · exact Nat.zero_le 1

/-- Another channel or another incident: nothing is attempted, nothing is queued. -/
theorem Retried.inBudget_other (h : Retried env job w w' ds) {c : AlertChannel} {row : Uuid}
    {firing : Nat} (hother : ¬(job.historyId = row ∧ job.channel = c))
    (hbudget : InBudget ((attemptsOn c row firing w.trace).map Prod.fst)
      (Alerting.jobsOn c row (w.jobs ++ job :: rest))) :
    InBudget ((attemptsOn c row firing w'.trace).map Prod.fst)
      (Alerting.jobsOn c row (w'.jobs ++ rest)) := by
  have hjobs := h.jobsOn c row
  have hnone : Alerting.jobsOn c row (if job.attempt < maxDeliveryAttempts
      then ds.map fun d => d.retryJob job.tenantId job.historyId (job.attempt + 1) else []) = [] := by
    refine jobsOn_eq_nil fun j hj hrow hto => hother ?_
    split at hj
    · obtain ⟨d, hd, rfl⟩ := List.mem_map.1 hj
      exact ⟨hrow, (h.channel hd).symm.trans hto⟩
    · cases hj
  have hkept : attemptsOn c row firing w'.trace = attemptsOn c row firing w.trace := by
    by_cases hrow : job.historyId = row
    · subst hrow
      have hnew : ((ds.map fun d => (job.attempt, d)).filter fun a =>
          decide (a.2.channel = c)) = [] := by
        refine List.filter_eq_nil_iff.2 fun a ha => ?_
        obtain ⟨d, hd, rfl⟩ := List.mem_map.1 ha
        rw [decide_eq_true_eq]
        exact fun hto => hother ⟨rfl, (h.channel hd).symm.trans hto⟩
      rw [attemptsOn, h.incidentAttempts_self, List.filter_append, hnew, List.append_nil,
        attemptsOn]
    · rw [attemptsOn, h.incidentAttempts_of_ne hrow, attemptsOn]
  have hfewer : (Alerting.jobsOn c row rest).Sublist (Alerting.jobsOn c row (job :: rest)) :=
    (List.sublist_cons_self job rest).filter _
  rw [hnone, List.append_nil] at hjobs
  rw [jobsOn_append] at hbudget
  rw [hkept, jobsOn_append]
  exact hbudget.mono (List.Subperm.append hjobs hfewer.subperm)

theorem Budgeted.retried (h : Budgeted (job :: rest) w) (hretried : Retried env job w w' ds) :
    Budgeted rest w' := by
  refine ⟨h.ledger.retry hretried, ?_, ?_⟩
  · intro t r row firing hopened c
    have hbudget := h.budget t r row firing (hretried.opened hopened) c
    by_cases hmine : job.historyId = row ∧ job.channel = c
    · obtain ⟨rfl, rfl⟩ := hmine
      exact hretried.inBudget_self hbudget
    · exact hretried.inBudget_other hmine hbudget
  · intro firing c
    rw [hretried.trace, firedOn_append]
    · exact h.fired firing c
    · intro d hd hfire
      obtain ⟨d', hd', heq⟩ := List.mem_map.1 hd
      obtain rfl := Event.delivery.inj heq
      rw [hretried.notice hd'] at hfire
      cases hfire

end Retried

end Budgeted

/-! ### Schedules -/

/-- A score was set, up to a time, for the next attempt of a channel after one that failed. -/
def Scheduled (trace : List Event) (time : Instant) (score : F64) (row : Uuid) (attempt : Nat)
    (c : AlertChannel) : Prop :=
  ∃ d t k firing, .delivery d ∈ trace ∧ (∃ tenant rule, .opened tenant rule row firing ∈ trace) ∧
    d.channel = c ∧ d.notice.attempt? row firing = some k ∧ attempt = k + 1 ∧
    isRetryable d.result = true ∧ d.time ≤ t ∧ t ≤ time ∧ Spaced t d.result score

theorem Scheduled.mono {trace events : List Event} {time time' : Instant} {score : F64} {row : Uuid}
    {attempt : Nat} {c : AlertChannel} (h : Scheduled trace time score row attempt c)
    (hle : time ≤ time') : Scheduled (trace ++ events) time' score row attempt c := by
  obtain ⟨d, t, k, firing, hd, ⟨tenant, rule, hopened⟩, hc, hk, hnext, hfailed, hlow, hhigh,
    hspaced⟩ := h
  exact ⟨d, t, k, firing, List.mem_append_left _ hd,
    ⟨tenant, rule, List.mem_append_left _ hopened⟩, hc, hk, hnext, hfailed, hlow,
    Nat.le_trans hhigh hle, hspaced⟩

/-- Every job has its schedule, and no retry was made before its score. -/
structure Timely (pending : List DeliveryRetryJob) (w : World) : Prop where
  queued : ∀ e ∈ w.deliveryRetry,
    Scheduled w.trace w.now e.1 e.2.historyId e.2.attempt e.2.channel
  pending : ∀ j ∈ pending, ∃ score, Scheduled w.trace w.now score j.historyId j.attempt j.channel ∧
    score.le (toUnixF64 w.now) = true
  retried : ∀ d row k, .delivery d ∈ w.trace → d.notice = .retry row k →
    ∃ score, Scheduled w.trace d.time score row k d.channel ∧ score.le (toUnixF64 d.time) = true

section Timely

variable {pending pending' : List DeliveryRetryJob} {w w' : World}

/-- The retries of a longer trace. -/
theorem Timely.retried_append {events : List Event} (h : Timely pending w)
    (hnew : ∀ d row k, .delivery d ∈ events → d.notice = .retry row k →
      ∃ score, Scheduled w.trace d.time score row k d.channel ∧
        score.le (toUnixF64 d.time) = true) :
    ∀ d row k, .delivery d ∈ w.trace ++ events → d.notice = .retry row k →
      ∃ score, Scheduled (w.trace ++ events) d.time score row k d.channel ∧
        score.le (toUnixF64 d.time) = true := by
  intro d row k hd hretry
  have hmade : ∃ score, Scheduled w.trace d.time score row k d.channel ∧
      score.le (toUnixF64 d.time) = true := by
    rcases List.mem_append.1 hd with hd | hd
    · exact h.retried d row k hd hretry
    · exact hnew d row k hd hretry
  obtain ⟨score, hscheduled, hdue⟩ := hmade
  exact ⟨score, hscheduled.mono (Nat.le_refl _), hdue⟩

theorem Timely.idle (h : Timely pending w) (hidle : Idle pending pending' w w') :
    Timely pending' w' := by
  obtain ⟨events, htrace, hresolved, -⟩ := hidle.trace
  refine ⟨?_, ?_, ?_⟩
  · intro e he
    rw [htrace]
    exact (h.queued e (hidle.entries e he)).mono hidle.now_le
  · intro j hj
    rw [htrace]
    rcases hidle.due j hj with hj | ⟨e, he, rfl, hdue⟩
    · obtain ⟨score, hscheduled, hdue⟩ := h.pending j hj
      exact ⟨score, hscheduled.mono hidle.now_le, le_toUnixF64_of_le hdue hidle.now_le⟩
    · exact ⟨e.1, (h.queued e he).mono hidle.now_le, le_toUnixF64_of_le hdue hidle.now_le⟩
  · rw [htrace]
    refine h.retried_append fun d row k hd hretry => ?_
    obtain ⟨incident, hnotice⟩ := hresolved d hd
    rw [hnotice] at hretry
    cases hretry

theorem Timely.raised {env : PassEnv} {tp : TenantPass} {rule : AlertRule} {alert : FiredAlert}
    {ds : List Delivery} {row : Option AlertHistoryRow} (h : Timely [] w)
    (hraised : Raised env tp rule w w' alert ds row) : Timely [] w' := by
  obtain ⟨events, htrace, hds, hnotice, hopened⟩ := hraised.parts
  refine ⟨?_, fun j hj => (by cases hj), ?_⟩
  · intro e he
    rw [htrace]
    rcases hraised.queue.entries e he with hold | ⟨t, -, hhigh, new, hnew, d, hd, hlow, hfailed, rfl⟩
    · exact (h.queued e hold).mono hraised.waits.now_le
    · have hopen : Event.opened tp.tenant.id rule.id new.id w.trace.length ∈ events :=
        (hopened _ _ _ _).2 ⟨rfl, rfl, rfl, new, hnew, rfl⟩
      refine ⟨d, t, 1, w.trace.length, List.mem_append_right _ (mem_deliveries.1 (hds ▸ hd)),
        ⟨_, _, List.mem_append_right _ hopen⟩, rfl, ?_, rfl, hfailed, hlow, hhigh,
        spaced_retryScore t 1 d.result⟩
      rw [hnotice d hd]
      exact if_pos rfl
  · rw [htrace]
    refine h.retried_append fun d id k hd hretry => ?_
    rw [hnotice d (hds ▸ mem_deliveries.2 hd)] at hretry
    cases hretry

theorem Timely.retry {env : DrainEnv} {job : DeliveryRetryJob} {rest : List DeliveryRetryJob}
    {ds : List Delivery} (h : Timely (job :: rest) w) (hretried : Retried env job w w' ds) :
    Timely rest w' := by
  have hnow := hretried.waits.now_le
  obtain ⟨score, hscheduled, hdue⟩ := h.pending job List.mem_cons_self
  refine ⟨?_, ?_, ?_⟩
  · intro e he
    rw [hretried.trace]
    rcases hretried.queue.entries e he with hold | ⟨t, -, hhigh, d, hd, hlow, hfailed, -, rfl⟩
    · exact (h.queued e hold).mono hnow
    · -- the incident of the row is the one the job was scheduled for
      obtain ⟨-, -, -, firing, -, ⟨tenant, rule, hopened⟩, -⟩ := hscheduled
      refine ⟨d, t, job.attempt, firing, ?_, ⟨tenant, rule, List.mem_append_left _ hopened⟩, rfl,
        ?_, rfl, hfailed, hlow, hhigh, spaced_retryScore t job.attempt d.result⟩
      · exact List.mem_append_right _ (List.mem_map_of_mem hd)
      · rw [hretried.notice hd]
        exact if_pos rfl
  · intro j hj
    obtain ⟨score, hscheduled, hdue⟩ := h.pending j (List.mem_cons_of_mem job hj)
    rw [hretried.trace]
    exact ⟨score, hscheduled.mono hnow, le_toUnixF64_of_le hdue hnow⟩
  · rw [hretried.trace]
    refine h.retried_append fun d row k hd hretry => ?_
    obtain ⟨d', hd', heq⟩ := List.mem_map.1 hd
    obtain rfl := Event.delivery.inj heq
    rw [hretried.notice hd', Notice.retry.injEq] at hretry
    obtain ⟨rfl, rfl⟩ := hretry
    obtain ⟨⟨tenant, -, hdelivers⟩, hchannel⟩ := hretried.deliveries d' hd'
    obtain ⟨v, hwaits, htime, -⟩ := hdelivers.clock
    have hlater : w.now ≤ d'.time := htime ▸ hwaits.now_le
    have hmono : Scheduled (w.trace ++ []) d'.time score job.historyId job.attempt job.channel :=
      hscheduled.mono hlater
    rw [List.append_nil] at hmono
    rw [hchannel]
    exact ⟨score, hmono, le_toUnixF64_of_le hdue hlater⟩

end Timely

/-! ### Budget and spacing -/

/-- The retry policy, as a property of what was sent and what is queued. -/
structure RetryPolicyKept (w : World) : Prop where
  /-- The attempts of an incident, inline send and retries, on one channel. -/
  attempts : ∀ t r row firing, .opened t r row firing ∈ w.trace → ∀ c,
    (attemptsOn c row firing w.trace).length ≤ maxDeliveryAttempts
  /-- The inline sends, also of a firing whose row could not be written. -/
  fired : ∀ firing c, (firedOn c firing w.trace).length ≤ 1
  queued : ∀ e ∈ w.deliveryRetry,
    Scheduled w.trace w.now e.1 e.2.historyId e.2.attempt e.2.channel
  retried : ∀ d row k, .delivery d ∈ w.trace → d.notice = .retry row k →
    ∃ score, Scheduled w.trace d.time score row k d.channel ∧ score.le (toUnixF64 d.time) = true

theorem incremental_retryPolicy :
    Incremental (fun _ => True) fun pending w => Budgeted pending w ∧ Timely pending w where
  idle _ _ _ _ h hidle := ⟨h.1.idle hidle, h.2.idle hidle⟩
  raised _ _ _ _ _ _ _ _ hnodup h hraised := ⟨h.1.raised hnodup hraised, h.2.raised hraised⟩
  retried _ _ _ _ _ _ _ h hretried := ⟨h.1.retried hretried, h.2.retry hretried⟩

/-- **Budget and spacing.** Over any life of a deployment whose rules list their channels
once, and in any call that queues a job. -/
theorem retryPolicyKept_of_distinct (p : Platform) (w : World) (steps : List (Option Step))
    (hkeys : WellKeyed w) (htrace : w.trace = []) (hqueue : w.deliveryRetry = [])
    (hdistinct : Runs.AllSteps (lifeStep p) (fun v _ => DistinctChannels v) w steps) :
    RetryPolicyKept (lifetime p w steps) ∧
      ∀ call tenantId historyId attempt channel alert result v,
        ∀ e ∈ (maybeScheduleRetry call tenantId historyId attempt channel alert result
            v).deliveryRetry, e ∈ v.deliveryRetry ∨ Spaced v.now result e.1 := by
  have hstart : Budgeted [] w ∧ Timely [] w := by
    refine ⟨⟨ledger_of_start htrace hqueue, ?_, ?_⟩, ?_, ?_, ?_⟩
    · simp [htrace]
    · simp [htrace, firedOn]
    · simp [hqueue]
    · simp
    · simp [htrace]
  have hend := Runs.AllSteps.invariant (fun v => WellKeyed v ∧ Budgeted [] v ∧ Timely [] v)
    (fun v s hv hrules => ⟨hv.1.lifeStep s,
      incremental_retryPolicy.step hv.1 hv.2 s hrules fun _ _ => trivial⟩) hdistinct ⟨hkeys, hstart⟩
  obtain ⟨-, hbudgeted, htimely⟩ := hend
  refine ⟨⟨?_, hbudgeted.fired, htimely.queued, htimely.retried⟩, maybeScheduleRetry_spaced⟩
  intro t r row firing hopened c
  have hbudget := (hbudgeted.budget t r row firing hopened c).length_le
  rwa [List.length_map] at hbudget

/-- A drain pass in which every call succeeds at once and every send is refused. -/
def refusingDrain : DrainEnv := fun _ =>
  { sampleCall 200 with reply := .response 503 "Service Unavailable" none (.ok .null) }

/-- A channel that refuses all three attempts, with a restart in between. -/
def exhaustedRetries : List (Option Step) :=
  [some (.evaluate ((samplePass troubledReads 100).refusing (.fire 7 0))),
    some (.wait (fromSecs 60)), some (.drain refusingDrain), none,
    some (.wait (fromSecs 300)), some (.drain refusingDrain)]

theorem retryPolicyKept_of_distinct_sample :
    RetryPolicyKept (lifetime samplePlatform (sampleWorld (sampleRule [sampleHook] 300))
      exhaustedRetries) :=
  (retryPolicyKept_of_distinct samplePlatform (sampleWorld (sampleRule [sampleHook] 300))
    exhaustedRetries (wellKeyed_sampleWorld _) rfl rfl
    ⟨by decide +kernel, by decide +kernel, by decide +kernel, by decide +kernel,
      by decide +kernel, by decide +kernel, trivial⟩).1

end Feloxi.Alerting
