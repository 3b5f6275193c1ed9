import Feloxi.Alerting.Keys

/-!
# Feloxi.Alerting.Notices

The order of the notices of one incident. The fire notice of an incident goes out
before its row is inserted and the resolved notice after, so the two are in order
(`NoFireAfter`). A retried fire notice is out of this order: the drain looks at the
queue and never at the incident. What is left is that nothing joins the queue for
an incident but its own retries (`RetriesFrom`).
-/

namespace Feloxi.Alerting

/-- The rows a resolved notice is about. -/
def Notice.resolvedRows : Notice → List Uuid
  | .resolved incident => incident
  | _ => []

/-- Whether an event is the opening of a row by a firing. -/
def Event.opens (row : Uuid) (firing : Nat) : Event → Bool
  | .opened _ _ row' firing' => row' == row && firing' == firing
  | _ => false

/-- A resolved notice of an incident. -/
def Delivery.ResolvesFor (d : Delivery) (row : Uuid) : Prop := row ∈ d.notice.resolvedRows

/-- A fire notice of an incident: the one sent when the row was opened, or a retry
of it. -/
def Notice.FiresFor (row : Uuid) (trace : List Event) : Notice → Prop
  | .fire firing => ∃ e ∈ trace, e.opens row firing = true
  | .retry row' _ => row' = row
  | .resolved _ => False

instance (d : Delivery) (row : Uuid) : Decidable (d.ResolvesFor row) :=
  inferInstanceAs (Decidable (_ ∈ _))

instance (notice : Notice) (row : Uuid) (trace : List Event) :
    Decidable (notice.FiresFor row trace) :=
  match notice with
  | .fire _ => inferInstanceAs (Decidable (∃ e ∈ trace, _))
  | .retry _ _ => inferInstanceAs (Decidable (_ = _))
  | .resolved _ => inferInstanceAs (Decidable False)

theorem Event.opens_iff {e : Event} {row : Uuid} {firing : Nat} :
    e.opens row firing = true ↔ ∃ t r, e = .opened t r row firing := by
  cases e with
  | opened t r row' firing' =>
      simp only [opens, Bool.and_eq_true, beq_iff_eq, Event.opened.injEq]
      constructor
      · rintro ⟨rfl, rfl⟩
        exact ⟨t, r, rfl, rfl, rfl, rfl⟩
      · rintro ⟨_, _, -, -, rfl, rfl⟩
        exact ⟨rfl, rfl⟩
  | _ => simp [opens]

/-! ### Initial fire notices come first -/

/-- After a resolved notice of an incident no initial fire notice of it is sent. -/
def NoFireAfter (trace : List Event) : Prop :=
  ∀ before d after, trace = before ++ .delivery d :: after → ∀ row, d.ResolvesFor row →
    ∀ d' firing t r, .delivery d' ∈ after → d'.notice = .fire firing →
      .opened t r row firing ∉ trace

/-- What the notices of a trace refer to lies in the past. -/
structure Noticed (w : World) : Prop where
  opened : ∀ t r row firing, .opened t r row firing ∈ w.trace → firing < w.trace.length
  fired : ∀ d firing, .delivery d ∈ w.trace → d.notice = .fire firing → firing < w.trace.length
  resolved : ∀ d row, .delivery d ∈ w.trace → d.ResolvesFor row → row ∈ w.historyIds
  ordered : NoFireAfter w.trace

/-- The events of one turn: an incident they open is new, its fire notices are
theirs, and they do not hold a resolved notice as well. -/
structure TurnEvents (w w' : World) (events : List Event) : Prop where
  trace : w'.trace = w.trace ++ events
  historyIds : ∀ row ∈ w.historyIds, row ∈ w'.historyIds
  opened : ∀ t r row firing, .opened t r row firing ∈ events →
    row ∉ w.historyIds ∧ w.trace.length ≤ firing ∧ firing < w'.trace.length
  fired : ∀ d firing, .delivery d ∈ events → d.notice = .fire firing →
    w.trace.length ≤ firing ∧ firing < w'.trace.length
  resolved : ∀ d row, .delivery d ∈ events → d.ResolvesFor row → row ∈ w'.historyIds
  apart : ∀ d d' row firing, .delivery d ∈ events → .delivery d' ∈ events →
    d.ResolvesFor row → d'.notice ≠ .fire firing

theorem Noticed.turn {w w' : World} {events : List Event} (h : Noticed w)
    (hturn : TurnEvents w w' events) : Noticed w' := by
  have hlonger : w.trace.length ≤ w'.trace.length := by
    rw [hturn.trace, List.length_append]
    omega
  refine ⟨?_, ?_, ?_, ?_⟩
  · intro t r row firing hmem
    rw [hturn.trace] at hmem
    rcases List.mem_append.1 hmem with hold | hnew
    · exact Nat.lt_of_lt_of_le (h.opened t r row firing hold) hlonger
    · exact (hturn.opened t r row firing hnew).2.2
  · intro d firing hmem hfire
    rw [hturn.trace] at hmem
    rcases List.mem_append.1 hmem with hold | hnew
    · exact Nat.lt_of_lt_of_le (h.fired d firing hold hfire) hlonger
    · exact (hturn.fired d firing hnew hfire).2
  · intro d row hmem hres
    rw [hturn.trace] at hmem
    rcases List.mem_append.1 hmem with hold | hnew
    · exact hturn.historyIds row (h.resolved d row hold hres)
    · exact hturn.resolved d row hnew hres
  · intro before d after hsplit row hres d' firing t r hd' hfire hopened
    rw [hturn.trace] at hopened hsplit
    rcases Runs.append_eq_append_cons hsplit with ⟨middle, hold, rfl⟩ | ⟨first, -, hnew⟩
    · have hknown : row ∈ w.historyIds := h.resolved d row (by rw [hold]; simp) hres
      rcases List.mem_append.1 hopened with hpast | hfuture
      · -- The row is an old one, so its fire notice is too.
        rcases List.mem_append.1 hd' with hd' | hd'
        · exact h.ordered before d middle hold row hres d' firing t r hd' hfire hpast
        · have hlt := h.opened t r row firing hpast
          have hge := (hturn.fired d' firing hd' hfire).1
          omega
      · exact (hturn.opened t r row firing hfuture).1 hknown
    · -- The resolved notice belongs to the turn: so do the later notices.
      exact hturn.apart d d' row firing (by rw [hnew]; simp) (by rw [hnew]; simp [hd']) hres hfire

/-- Events that neither notify nor open. -/
theorem turnEvents_of_silent {w w' : World} {events : List Event}
    (htrace : w'.trace = w.trace ++ events) (hids : w'.historyIds = w.historyIds)
    (hevents : ∀ e ∈ events, (∀ d, e ≠ .delivery d) ∧ ∀ t r row firing, e ≠ .opened t r row firing) :
    TurnEvents w w' events where
  trace := htrace
  historyIds _ hrow := hids ▸ hrow
  opened t r row firing hmem := absurd rfl ((hevents _ hmem).2 t r row firing)
  fired d _ hmem := absurd rfl ((hevents _ hmem).1 d)
  resolved d _ hmem := absurd rfl ((hevents _ hmem).1 d)
  apart d _ _ _ hmem := absurd rfl ((hevents _ hmem).1 d)

theorem RuleStep.turnEvents {env : PassEnv} {tp : TenantPass} {rule : AlertRule} {fired : Bool}
    {w w' : World} (hkeys : WellKeyed w) (hstep : RuleStep env tp rule fired w w') :
    ∃ events, TurnEvents w w' events := by
  cases hstep with
  | stillFiring => exact ⟨_, turnEvents_of_silent (fires_trace ..) (fires_historyIds ..) (by simp)⟩
  | throttled => exact ⟨_, turnEvents_of_silent (fires_trace ..) (fires_historyIds ..) (by simp)⟩
  | waiting => exact ⟨_, turnEvents_of_silent (counts_trace ..) (counts_historyIds ..) (by simp)⟩
  | quiet => exact ⟨_, turnEvents_of_silent (forgets_trace ..) (forgets_historyIds ..) (by simp)⟩
  | @resolved since _ alert ds _ _ _ hres =>
      obtain ⟨events, htrace, hdelivery, hopened, -⟩ := hres.events
      have hids : w'.historyIds = w.historyIds := by rw [hres.historyIds, counts_historyIds]
      have hnotFire : ∀ d, .delivery d ∈ events → ∀ firing, d.notice ≠ .fire firing := by
        intro d hd firing hfire
        rw [(hres.deliveries d ((hdelivery d).1 hd)).notice] at hfire
        cases hfire
      refine ⟨events, htrace, fun row hrow => hids ▸ hrow, ?_, ?_, ?_, ?_⟩
      · intro t r row firing hmem
        exact absurd hmem (hopened t r row firing)
      · intro d firing hd hfire
        exact absurd hfire (hnotFire d hd firing)
      · intro d row hd hrow
        rw [Delivery.ResolvesFor, (hres.deliveries d ((hdelivery d).1 hd)).notice] at hrow
        obtain ⟨h, hh, rfl⟩ := List.mem_map.1 hrow
        have hmem := List.mem_of_mem_filter hh
        rw [counts_alertHistory] at hmem
        rw [hids]
        exact hkeys.historyIds h hmem
      · intro d d' row firing _ hd' _
        exact hnotFire d' hd' firing
  | @raised _ alert ds row _ _ _ hraised =>
      obtain ⟨events, htrace, hdelivery, hopened⟩ := hraised.events
      have hnotice : ∀ d, .delivery d ∈ events →
          d.notice = .fire (fires env tp rule w).trace.length :=
        fun d hd => (hraised.deliveries d ((hdelivery d).1 hd)).notice
      have hlength : w.trace.length ≤ (fires env tp rule w).trace.length ∧
          (fires env tp rule w).trace.length < w'.trace.length := by
        constructor
        · rw [fires_trace, List.length_append]
          omega
        · rw [hraised.trace]
          simp only [List.length_append, List.length_cons]
          omega
      have hnotResolved : ∀ d, .delivery d ∈ events → ∀ row, ¬ d.ResolvesFor row := by
        intro d hd row hrow
        rw [Delivery.ResolvesFor, hnotice d hd] at hrow
        cases hrow
      refine ⟨events, htrace, ?_, ?_, ?_, ?_, ?_⟩
      · intro id hid
        rw [hraised.historyIds, fires_historyIds]
        exact List.mem_append_right _ hid
      · intro t r id firing hmem
        obtain ⟨-, -, rfl, h, hh, rfl⟩ := (hopened t r id firing).1 hmem
        have hfresh := (hraised.written h hh).id
        rw [fires_historyIds] at hfresh
        exact ⟨hfresh, hlength⟩
      · intro d firing hd hfire
        rw [hnotice d hd, Notice.fire.injEq] at hfire
        rw [← hfire]
        exact hlength
      · intro d id hd hres
        exact absurd hres (hnotResolved d hd id)
      · intro d d' id firing hd _ hres
        exact absurd hres (hnotResolved d hd id)

theorem SilentlyClosed.turnEvents {env : PassEnv} {tenantId ruleId : Uuid} {w w' : World}
    (h : SilentlyClosed env tenantId ruleId w w') : ∃ events, TurnEvents w w' events :=
  ⟨_, turnEvents_of_silent h.trace h.historyIds (by simp)⟩

theorem Retried.turnEvents {env : DrainEnv} {job : DeliveryRetryJob} {w w' : World}
    {ds : List Delivery} (h : Retried env job w w' ds) : TurnEvents w w' (ds.map .delivery) := by
  have hnotice : ∀ d, .delivery d ∈ ds.map Event.delivery →
      d.notice = .retry job.historyId job.attempt := by
    intro d hd
    obtain ⟨d', hd', heq⟩ := List.mem_map.1 hd
    obtain rfl := Event.delivery.inj heq
    obtain ⟨⟨tenant, -, hdelivers⟩, -⟩ := h.deliveries d' hd'
    exact hdelivers.notice
  refine ⟨h.trace, fun row hrow => h.historyIds ▸ hrow, ?_, ?_, ?_, ?_⟩
  · intro t r row firing hmem
    simp at hmem
  · intro d firing hd hfire
    rw [hnotice d hd] at hfire
    cases hfire
  · intro d row hd hrow
    rw [Delivery.ResolvesFor, hnotice d hd] at hrow
    cases hrow
  · intro d d' row firing hd _ hrow
    rw [Delivery.ResolvesFor, hnotice d hd] at hrow
    cases hrow

/-- A state with the same trace and ids. -/
theorem Noticed.of_same {w w' : World} (h : Noticed w) (htrace : w'.trace = w.trace)
    (hids : w'.historyIds = w.historyIds) : Noticed w' :=
  h.turn (turnEvents_of_silent (show w'.trace = w.trace ++ [] by rw [htrace, List.append_nil]) hids
    (by simp))

theorem noticed_passInvariant (p : Platform) (env : PassEnv) (start : World) :
    PassInvariant p env start fun w => WellKeyed w ∧ Noticed w where
  wait w pt h := ⟨(wellKeyed_passInvariant p env start).wait w pt h.1,
    h.2.of_same (World.advance_trace w _) (World.advance_historyIds w _)⟩
  gone tenant htenant w w' r h hat hclosed := by
    obtain ⟨events, hturn⟩ := hclosed.turnEvents
    exact ⟨(wellKeyed_passInvariant p env start).gone tenant htenant w w' r h.1 hat hclosed,
      h.2.turn hturn⟩
  rule turn hturn w' h hat hstep := by
    obtain ⟨events, hevents⟩ := hstep.turnEvents h.1
    exact ⟨(wellKeyed_passInvariant p env start).rule turn hturn w' h.1 hat hstep,
      h.2.turn hevents⟩
  cleanup w h := ⟨(wellKeyed_passInvariant p env start).cleanup w h.1, h.2.of_same rfl rfl⟩

theorem Noticed.step {p : Platform} {w : World} (hkeys : WellKeyed w) (h : Noticed w) (s : Step) :
    Noticed (step p w s) := by
  rcases step_cases p w s with ⟨env, rfl⟩ | ⟨env, rfl⟩ | hadmin
  · exact (runAlertEvaluation_induction (noticed_passInvariant p env w) hkeys ⟨hkeys, h⟩).2
  · refine drainDeliveryRetries_induction p env ?_ (fun _ => ?_) ?_
    · exact h.of_same (by simp) (by simp)
    · exact h.of_same (by simp [popped, World.popDueDeliveryRetries])
        (by simp [popped, World.popDueDeliveryRetries])
    · intro v v' job ds _ hv hretried
      exact hv.turn hretried.turnEvents
  · exact h.of_same hadmin.trace hadmin.historyIds

/-! ### Retries come from the queue -/

/-- A retry of a fire notice is waiting. -/
def World.Queues (w : World) (row : Uuid) (channel : AlertChannel) : Prop :=
  ∃ e ∈ w.deliveryRetry, e.2.historyId = row ∧ e.2.channel = channel

/-- From `w` on, retries for the incidents of `w` are those queued in `w`. -/
structure RetriesFrom (w w' : World) : Prop where
  historyIds : ∀ row ∈ w.historyIds, row ∈ w'.historyIds
  queued : ∀ row channel, row ∈ w.historyIds → w'.Queues row channel → w.Queues row channel
  sent : ∃ events, w'.trace = w.trace ++ events ∧ ∀ d row attempt, .delivery d ∈ events →
    d.notice = .retry row attempt → row ∈ w.historyIds → w.Queues row d.channel

namespace RetriesFrom

variable {w₁ w₂ w₃ : World}

theorem of_same (hids : w₂.historyIds = w₁.historyIds)
    (hqueue : ∀ e ∈ w₂.deliveryRetry, e ∈ w₁.deliveryRetry) {events : List Event}
    (htrace : w₂.trace = w₁.trace ++ events) (hevents : ∀ e ∈ events, ∀ d, e ≠ .delivery d) :
    RetriesFrom w₁ w₂ where
  historyIds _ hrow := hids ▸ hrow
  queued _ _ _ := fun ⟨e, he, hjob⟩ => ⟨e, hqueue e he, hjob⟩
  sent := ⟨events, htrace, fun d _ _ hd => absurd rfl (hevents _ hd d)⟩

theorem refl (w : World) : RetriesFrom w w :=
  of_same rfl (fun _ he => he) (List.append_nil _).symm (by simp)

theorem trans (h : RetriesFrom w₁ w₂) (h' : RetriesFrom w₂ w₃) : RetriesFrom w₁ w₃ := by
  obtain ⟨first, hfirst, hsent⟩ := h.sent
  obtain ⟨second, hsecond, hsent'⟩ := h'.sent
  refine ⟨fun row hrow => h'.historyIds row (h.historyIds row hrow), ?_, first ++ second, ?_, ?_⟩
  · intro row channel hrow hqueued
    exact h.queued row channel hrow (h'.queued row channel (h.historyIds row hrow) hqueued)
  · rw [hsecond, hfirst, List.append_assoc]
  · intro d row attempt hd hretry hrow
    rcases List.mem_append.1 hd with hd | hd
    · exact hsent d row attempt hd hretry hrow
    · exact h.queued row d.channel hrow
        (hsent' d row attempt hd hretry (h.historyIds row hrow))

end RetriesFrom

/-- A turn sends no retry and queues only retries of its own row. -/
theorem RuleStep.retriesFrom {env : PassEnv} {tp : TenantPass} {rule : AlertRule} {fired : Bool}
    {w w' : World} (hstep : RuleStep env tp rule fired w w') :
    RetriesFrom w w' ∧ ∃ events, w'.trace = w.trace ++ events ∧
      ∀ d row attempt, .delivery d ∈ events → d.notice ≠ .retry row attempt := by
  have hsilent : ∀ {events : List Event}, w'.trace = w.trace ++ events →
      w'.historyIds = w.historyIds → w'.deliveryRetry = w.deliveryRetry →
      (∀ e ∈ events, ∀ d, e ≠ .delivery d) → RetriesFrom w w' ∧ ∃ events,
        w'.trace = w.trace ++ events ∧
          ∀ d row attempt, .delivery d ∈ events → d.notice ≠ .retry row attempt := by
    intro events htrace hids hqueue hevents
    refine ⟨.of_same hids (fun e he => hqueue ▸ he) htrace hevents, events, htrace, ?_⟩
    intro d row attempt hd
    exact absurd rfl (hevents _ hd d)
  cases hstep with
  | stillFiring =>
      exact hsilent (fires_trace ..) (fires_historyIds ..) (fires_deliveryRetry ..) (by simp)
  | throttled =>
      exact hsilent (fires_trace ..) (fires_historyIds ..) (fires_deliveryRetry ..) (by simp)
  | waiting =>
      exact hsilent (counts_trace ..) (counts_historyIds ..) (counts_deliveryRetry ..) (by simp)
  | quiet =>
      exact hsilent (forgets_trace ..) (forgets_historyIds ..) (forgets_deliveryRetry ..) (by simp)
  | @resolved _ _ _ ds _ _ _ hres =>
      obtain ⟨events, htrace, hdelivery, -⟩ := hres.events
      have hnotRetry : ∀ d row attempt, .delivery d ∈ events → d.notice ≠ .retry row attempt := by
        intro d row attempt hd hretry
        rw [(hres.deliveries d ((hdelivery d).1 hd)).notice] at hretry
        cases hretry
      refine ⟨⟨?_, ?_, events, htrace, ?_⟩, events, htrace, hnotRetry⟩
      · intro row hrow
        rw [hres.historyIds, counts_historyIds]
        exact hrow
      · intro row channel _ hqueued
        rw [World.Queues, hres.deliveryRetry, counts_deliveryRetry] at hqueued
        exact hqueued
      · intro d row attempt hd hretry
        exact absurd hretry (hnotRetry d row attempt hd)
  | @raised _ _ ds row _ _ _ hraised =>
      obtain ⟨events, htrace, hdelivery, -⟩ := hraised.events
      have hnotRetry : ∀ d row attempt, .delivery d ∈ events → d.notice ≠ .retry row attempt := by
        intro d row attempt hd hretry
        rw [(hraised.deliveries d ((hdelivery d).1 hd)).notice] at hretry
        cases hretry
      refine ⟨⟨?_, ?_, events, htrace, ?_⟩, events, htrace, hnotRetry⟩
      · intro id hid
        rw [hraised.historyIds, fires_historyIds]
        exact List.mem_append_right _ hid
      · intro id channel hid hqueued
        obtain ⟨e, he, hrow, hchannel⟩ := hqueued
        rcases hraised.deliveryRetry e he with hold | ⟨new, hnew, hof⟩
        · rw [fires_deliveryRetry] at hold
          exact ⟨e, hold, hrow, hchannel⟩
        · -- A job of the row just written, whose id is new.
          have hfresh := (hraised.written new hnew).id
          rw [fires_historyIds, ← hof, hrow] at hfresh
          exact absurd hid hfresh
      · intro d id attempt hd hretry
        exact absurd hretry (hnotRetry d id attempt hd)

theorem retriesFrom_passInvariant (p : Platform) (env : PassEnv) (start : World) :
    PassInvariant p env start (RetriesFrom start) where
  wait w pt h := h.trans (.of_same (World.advance_historyIds w _) (by simp)
    (show (w.advance (env.calls pt)).trace = w.trace ++ [] by simp) (by simp))
  gone tenant _ w w' r h _ hclosed := h.trans (.of_same hclosed.historyIds
    (fun e he => hclosed.deliveryRetry ▸ he) hclosed.trace (by simp))
  rule turn _ w' h _ hstep := h.trans hstep.retriesFrom.1
  cleanup w h := h.trans (.of_same rfl (fun _ he => he) (List.append_nil _).symm (by simp))

theorem RetriesFrom.drain (p : Platform) (env : DrainEnv) (w : World) :
    RetriesFrom w (drainDeliveryRetries p env w) := by
  have hsame : ∀ w', w'.historyIds = w.historyIds →
      (∀ e ∈ w'.deliveryRetry, e ∈ w.deliveryRetry) → w'.trace = w.trace → RetriesFrom w w' := by
    intro w' hids hqueue htrace
    exact .of_same hids hqueue (by rw [htrace, List.append_nil]) (by simp)
  refine drainDeliveryRetries_induction p env ?_ (fun _ => ?_) ?_
  · exact hsame _ (by simp) (by simp) (by simp)
  · exact hsame _ (by simp [popped, World.popDueDeliveryRetries]) (popped_deliveryRetry p env w)
      (by simp [popped, World.popDueDeliveryRetries])
  · intro v v' job ds hjob hv hretried
    obtain ⟨e, he, rfl, -⟩ := mem_popped p env hjob
    obtain ⟨events, htrace, hevents⟩ := hv.sent
    refine ⟨fun row hrow => by rw [hretried.historyIds]; exact hv.historyIds row hrow, ?_,
      events ++ ds.map .delivery, by rw [hretried.trace, htrace, List.append_assoc], ?_⟩
    · intro row channel hrow hqueued
      obtain ⟨e', he', hof, hchannel⟩ := hqueued
      rcases hretried.deliveryRetry e' he' with hold | hnew
      · exact hv.queued row channel hrow ⟨e', hold, hof, hchannel⟩
      · rw [hnew] at hof hchannel
        exact ⟨e, he, hof, hchannel⟩
    · intro d row attempt hd hretry hrow
      rcases List.mem_append.1 hd with hold | hnew
      · exact hevents d row attempt hold hretry hrow
      · obtain ⟨d', hd', heq⟩ := List.mem_map.1 hnew
        obtain rfl := Event.delivery.inj heq
        obtain ⟨⟨tenant, -, hdelivers⟩, hchannel⟩ := hretried.deliveries d' hd'
        rw [hdelivers.notice, Notice.retry.injEq] at hretry
        exact ⟨e, he, hretry.1, hchannel.symm⟩

theorem RetriesFrom.step {p : Platform} {w : World} (hkeys : WellKeyed w) (s : Step) :
    RetriesFrom w (step p w s) := by
  rcases step_cases p w s with ⟨env, rfl⟩ | ⟨env, rfl⟩ | hadmin
  · exact runAlertEvaluation_induction (retriesFrom_passInvariant p env w) hkeys (.refl w)
  · exact .drain p env w
  · exact .of_same hadmin.historyIds (fun e he => hadmin.deliveryRetry ▸ he)
      (by rw [hadmin.trace, List.append_nil]) (by simp)

/-! ### Fire notices after the resolved notice -/

/-- No fire notice of an incident is sent to a channel after its resolved notice. -/
def NoLateFire (trace : List Event) : Prop :=
  ∀ first d last, trace = first ++ .delivery d :: last → d.endpoint.isSome →
    ∀ row, d.ResolvesFor row → ∀ d', .delivery d' ∈ last → d'.endpoint.isSome →
      d'.channel = d.channel → ¬ d'.notice.FiresFor row trace

/-- The notices of one step: those of a pass are no retries, those of a drain are. -/
theorem step_notices {p : Platform} {w : World} (hkeys : WellKeyed w) (s : Step) :
    Emits (fun e => ∀ d, e = .delivery d → ∀ row attempt, d.notice ≠ .retry row attempt) w
        (step p w s) ∨
      Emits (fun e => ∀ d, e = .delivery d → ∃ row attempt, d.notice = .retry row attempt) w
        (step p w s) := by
  rcases step_cases p w s with ⟨env, rfl⟩ | ⟨env, rfl⟩ | hadmin
  · refine .inl (runAlertEvaluation_emits hkeys ?_ ?_)
    · intro tenant _ v v' r _ hclosed
      exact ⟨_, hclosed.trace, by simp⟩
    · intro turn _ v' _ hstep
      obtain ⟨events, htrace, hevents⟩ := hstep.retriesFrom.2
      exact ⟨events, htrace, fun e he d hd row attempt => hevents d row attempt (hd ▸ he)⟩
  · refine .inr (drainDeliveryRetries_emits p env w ?_)
    intro v v' job ds _ hretried d hd d' heq
    obtain rfl := Event.delivery.inj heq
    obtain ⟨⟨tenant, -, hdelivers⟩, -⟩ := hretried.deliveries d hd
    exact ⟨job.historyId, job.attempt, hdelivers.notice⟩
  · exact .inl (.of_trace_eq hadmin.trace)

theorem noticed_of_trace_eq_nil {w : World} (h : w.trace = []) : Noticed w := by
  refine ⟨?_, ?_, ?_, ?_⟩
  · intro t r row firing hmem
    simp [h] at hmem
  · intro d firing hmem
    simp [h] at hmem
  · intro d row hmem
    simp [h] at hmem
  · intro before d after hsplit
    simp [h] at hsplit

theorem Noticed.run {p : Platform} {w : World} (hkeys : WellKeyed w) (h : Noticed w)
    (steps : List Step) : Noticed (run p w steps) :=
  (Runs.run_invariant (fun v => WellKeyed v ∧ Noticed v)
    (fun v s (hv : WellKeyed v ∧ Noticed v) => ⟨hv.1.step (p := p) s, hv.2.step hv.1 s⟩)
    ⟨hkeys, h⟩ steps).2

theorem RetriesFrom.run {p : Platform} {w : World} (hkeys : WellKeyed w) (steps : List Step) :
    RetriesFrom w (run p w steps) :=
  (Runs.run_invariant (fun v => WellKeyed v ∧ RetriesFrom w v)
    (fun v s (hv : WellKeyed v ∧ RetriesFrom w v) =>
      ⟨hv.1.step (p := p) s, hv.2.trans (.step hv.1 s)⟩) ⟨hkeys, .refl w⟩ steps).2

/-- A delivery at a known position splits the trace there. -/
theorem split_of_delivery {events : List Event} {n : Nat} {d : Delivery}
    (h : events[n]?.bind Event.delivery? = some d) :
    events = events.take n ++ .delivery d :: events.drop (n + 1) := by
  obtain ⟨e, he, hd⟩ := Option.bind_eq_some_iff.1 h
  obtain ⟨hn, hat⟩ := List.getElem?_eq_some_iff.1 he
  cases e with
  | delivery d' =>
      obtain rfl := Option.some.inj hd
      rw [← hat, List.cons_getElem_drop_succ, List.take_append_drop]
  | _ => cases hd

/-- An incident whose fire notice fails at first, and resolves before the retry. -/
def lateRetry : List Step :=
  [.evaluate ((samplePass troubledReads 100).refusing (.fire 7 0)),
    .evaluate (samplePass calmReads 101), .evaluate (samplePass calmReads 102),
    .wait (fromSecs 60), .drain fun _ => sampleCall 200]

/-- The deployment after the first steps of that run. -/
def lateRetryWorld (n : Nat) : World :=
  run samplePlatform (sampleWorld (sampleRule [sampleHook] 300)) (lateRetry.take n)

/-- The resolved notice is followed by the retry. -/
theorem lateRetry_notices :
    ∃ d d', (lateRetryWorld 5).trace =
        (lateRetryWorld 5).trace.take 9 ++ .delivery d :: (lateRetryWorld 5).trace.drop 10 ∧
      .delivery d' ∈ (lateRetryWorld 5).trace.drop 10 ∧
      d.notice = .resolved [100] ∧ d'.notice = .retry 100 2 ∧ d.channel = sampleHook ∧
      d'.channel = sampleHook ∧ d.endpoint.isSome ∧ d'.endpoint.isSome := by
  have hnotices : ((lateRetryWorld 5).trace[9]?.bind Event.delivery?).any (fun d =>
      ((lateRetryWorld 5).trace[11]?.bind Event.delivery?).any fun d' =>
        decide (d.notice = .resolved [100] ∧ d'.notice = .retry 100 2 ∧ d.channel = sampleHook ∧
          d'.channel = sampleHook ∧ d.endpoint.isSome ∧ d'.endpoint.isSome)) = true := by
    decide +kernel
  obtain ⟨d, hd, hrest⟩ := (Option.any_eq_true ..).1 hnotices
  obtain ⟨d', hd', hfacts⟩ := (Option.any_eq_true ..).1 hrest
  refine ⟨d, d', split_of_delivery hd, ?_, of_decide_eq_true hfacts⟩
  have hafter : ((lateRetryWorld 5).trace.drop 10)[1]?.bind Event.delivery? = some d' := by
    rw [List.getElem?_drop]
    exact hd'
  rw [split_of_delivery hafter]
  simp

end Feloxi.Alerting
