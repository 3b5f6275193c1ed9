import Feloxi.Alerting.Attempts
import Feloxi.Lib.Assoc

/-!
# Feloxi.Alerting.DeliveryLog

The delivery log of an incident against its attempts. The log is what the outcomes
that were written, in their order, make of an empty map: one entry for each delivery
key. A key names a service and an integration, so channels of one rule can share it.
-/

namespace Feloxi.Alerting

/-! ### Keys and channels -/

/-- The kind of service a channel notifies. -/
def AlertChannel.service : AlertChannel → String
  | .slack .. | .slackConnection .. => "slack"
  | .webhook .. | .webhookConnection .. => "webhook"
  | .pagerDuty .. | .pagerDutyConnection .. => "pagerduty"
  | .email .. => "email"
  | .discordConnection .. => "discord"

/-- Channels of one service that reference the same integration, or none. -/
def AlertChannel.SharesEntry (c c' : AlertChannel) : Prop :=
  c.service = c'.service ∧ c.integrationId = c'.integrationId

theorem AlertChannel.logKey_eq (c : AlertChannel) :
    c.logKey = c.service ++ (c.integrationId.map fun id => ":" ++ id.display).getD "" := by
  cases c with
  | slack | webhook | pagerDuty | email => exact String.append_empty.symm
  | slackConnection | discordConnection | pagerDutyConnection | webhookConnection =>
      exact String.append_assoc

theorem AlertChannel.service_inj {c c' : AlertChannel} {rest rest' : String}
    (h : c.service ++ rest = c'.service ++ rest') : c.service = c'.service := by
  have hl := congrArg String.toList h
  cases c <;> cases c' <;> simp [service] at hl ⊢

/-- **Whose statuses collide.** -/
theorem AlertChannel.logKey_eq_iff {c c' : AlertChannel} :
    c.logKey = c'.logKey ↔ c.SharesEntry c' := by
  constructor
  · intro h
    rw [logKey_eq, logKey_eq] at h
    have hservice := service_inj h
    rw [hservice] at h
    have hl := congrArg String.toList h
    rw [String.toList_append, String.toList_append, List.append_cancel_left_eq] at hl
    refine ⟨hservice, ?_⟩
    cases hid : c.integrationId with
    | none => cases hid' : c'.integrationId with
      | none => rfl
      | some id' => simp [hid, hid'] at hl
    | some id => cases hid' : c'.integrationId with
      | none => simp [hid, hid'] at hl
      | some id' =>
          simp only [hid, hid', Option.map_some, Option.getD_some, String.toList_append,
            List.append_cancel_left_eq] at hl
          rw [Uuid.display_injective (String.toList_injective hl)]
  · intro ⟨hservice, hid⟩
    rw [logKey_eq, logKey_eq, hservice, hid]

/-! ### What is written -/

/-- The writes of the log that a list of attempts makes. -/
def logWrites (attempts : List (Nat × Delivery)) : List (String × ChannelDeliveryStatus) :=
  attempts.map fun a => (a.2.result.deliveryKey, a.2.result.logged)

/-- The log an incident starts with is written by its inline sends. -/
theorem deliveryLog_eq (ds : List Delivery) :
    deliveryLog (ds.map (·.outcome)) = Assoc.putAll [] (logWrites (ds.map fun d => (1, d))) := by
  rw [deliveryLog, Assoc.putAll, logWrites, List.foldl_map, List.map_map, List.foldl_map]
  rfl

/-- Each row of a logged history is a row of the history, with the outcomes written to
its log if it is the row of the job. -/
theorem mem_loggedHistory {t row : Uuid} {ds : List Delivery} {history : List AlertHistoryRow}
    {h' : AlertHistoryRow} (hmem : h' ∈ ds.foldl (loggedHistory t row) history) :
    ∃ h ∈ history, h'.id = h.id ∧ h'.tenantId = h.tenantId ∧
      h'.channelsSent = if h.tenantId = t ∧ h.id = row
        then Assoc.putAll h.channelsSent (ds.map fun d => (d.result.deliveryKey, d.result.logged))
        else h.channelsSent := by
  induction ds generalizing history with
  | nil =>
      refine ⟨h', hmem, rfl, rfl, ?_⟩
      split <;> rfl
  | cons d rest ih =>
      obtain ⟨h₁, hh₁, hid, htenant, hlog⟩ := ih hmem
      obtain ⟨h, hh, rfl⟩ := List.mem_map.1 hh₁
      refine ⟨h, hh, ?_⟩
      by_cases hrow : h.tenantId = t ∧ h.id = row
      · have hcond : (h.tenantId == t && h.id == row) = true := by simp [hrow]
        rw [if_pos hcond] at hid htenant hlog
        refine ⟨hid, htenant, ?_⟩
        rw [if_pos hrow] at hlog ⊢
        exact hlog
      · have hcond : ¬(h.tenantId == t && h.id == row) = true := by simpa using hrow
        rw [if_neg hcond] at hid htenant hlog
        refine ⟨hid, htenant, ?_⟩
        rw [if_neg hrow] at hlog ⊢
        exact hlog

/-! ### The invariant -/

/-- An incident's first attempt of a channel. -/
def FirstOn (row : Uuid) (firing : Nat) (trace : List Event) (c : AlertChannel) : Prop :=
  ∃ d, (1, d) ∈ incidentAttempts row firing trace ∧ d.channel = c

/-- The logs of all incidents, for a life in which every write succeeds if `full`. -/
structure Logged (full : Prop) (pending : List DeliveryRetryJob) (w : World) : Prop where
  ledger : Ledger pending w
  rows : ∀ h ∈ w.alertHistory, h.id ∈ w.historyIds
  keys : ∀ d, .delivery d ∈ w.trace → (∀ incident, d.notice ≠ .resolved incident) →
    d.result.deliveryKey = d.channel.logKey
  retries : ∀ j ∈ w.jobs ++ pending, 2 ≤ j.attempt ∧
    ∀ t r firing, .opened t r j.historyId firing ∈ w.trace →
      j.tenantId = t ∧ FirstOn j.historyId firing w.trace j.channel
  first : ∀ t r row firing, .opened t r row firing ∈ w.trace →
    ∀ a ∈ incidentAttempts row firing w.trace, FirstOn row firing w.trace a.2.channel
  log : ∀ h ∈ w.alertHistory, ∀ t r firing, .opened t r h.id firing ∈ w.trace →
    h.tenantId = t ∧ ∃ written : List (Nat × Delivery),
      ((incidentAttempts h.id firing w.trace).filter fun a => decide (a.1 = 1)).Sublist written ∧
      written.Sublist (incidentAttempts h.id firing w.trace) ∧
      (full → written = incidentAttempts h.id firing w.trace) ∧
      h.channelsSent = Assoc.putAll [] (logWrites written)

section Logged

variable {full : Prop} {pending pending' : List DeliveryRetryJob} {w w' : World}

theorem Logged.idle (h : Logged full pending w) (hidle : Idle pending pending' w w') :
    Logged full pending' w' := by
  have hfirst : ∀ row firing c, FirstOn row firing w.trace c → FirstOn row firing w'.trace c := by
    intro row firing c hon
    unfold FirstOn at hon ⊢
    rwa [hidle.incidentAttempts]
  refine ⟨h.ledger.idle hidle, ?_, ?_, ?_, ?_, ?_⟩
  · intro h' hh'
    obtain ⟨row, hrow, hid, -, -⟩ := hidle.rows h' hh'
    rw [hidle.historyIds, hid]
    exact h.rows row hrow
  · intro d hd hnotice
    obtain ⟨events, htrace, hresolved, -⟩ := hidle.trace
    rw [htrace] at hd
    rcases List.mem_append.1 hd with hd | hd
    · exact h.keys d hd hnotice
    · obtain ⟨incident, hd'⟩ := hresolved d hd
      exact absurd hd' (hnotice incident)
  · intro j hj
    obtain ⟨htwo, hof⟩ := h.retries j (hidle.jobs.subset hj)
    refine ⟨htwo, fun t r firing hopened => ?_⟩
    obtain ⟨htenant, hon⟩ := hof t r firing (hidle.opened hopened)
    exact ⟨htenant, hfirst _ _ _ hon⟩
  · intro t r row firing hopened a ha
    rw [hidle.incidentAttempts] at ha
    exact hfirst _ _ _ (h.first t r row firing (hidle.opened hopened) a ha)
  · intro h' hh' t r firing hopened
    obtain ⟨row, hrow, hid, htenant, hlog⟩ := hidle.rows h' hh'
    rw [hid] at hopened ⊢
    rw [htenant, hlog, hidle.incidentAttempts]
    exact h.log row hrow t r firing (hidle.opened hopened)

section Raised

variable {env : PassEnv} {tp : TenantPass} {rule : AlertRule} {alert : FiredAlert}
  {ds : List Delivery} {row : Option AlertHistoryRow}

/-- The jobs after a firing: those that were queued, and the second attempts. -/
theorem Raised.mem_jobs (h : Raised env tp rule w w' alert ds row) {j : DeliveryRetryJob}
    (hj : j ∈ w'.jobs) : j ∈ w.jobs ∨ ∃ new ∈ row, ∃ d ∈ ds, j = d.retryJob tp.tenant.id new.id 2 := by
  refine (List.mem_append.1 (h.queue.jobs.subset hj)).imp_right fun hnew => ?_
  obtain ⟨new, hmem, hjob⟩ := List.mem_flatMap.1 hnew
  obtain ⟨d, hd, rfl⟩ := List.mem_map.1 hjob
  exact ⟨new, Option.mem_toList.1 hmem, d, hd, rfl⟩

theorem Logged.raised (h : Logged full [] w) (hraised : Raised env tp rule w w' alert ds row) :
    Logged full [] w' := by
  obtain ⟨events, htrace, hds, hnotice, -⟩ := hraised.parts
  have hfresh : ∀ new ∈ row, new.id ∉ w.historyIds := fun new hnew => (hraised.written new hnew).id
  have hold : ∀ t r id firing, .opened t r id firing ∈ w'.trace → id ∈ w.historyIds →
      .opened t r id firing ∈ w.trace ∧
        incidentAttempts id firing w'.trace = incidentAttempts id firing w.trace := by
    intro t r id firing hopened hid
    rcases hraised.opened hopened with hopened | ⟨-, -, new, hnew, rfl⟩
    · exact ⟨hopened, hraised.incidentAttempts_old (h.ledger.opened t r id firing hopened).2⟩
    · exact absurd hid (hfresh new hnew)
  have hnewest : ∀ t r id firing, .opened t r id firing ∈ w'.trace → ∀ new ∈ row, new.id = id →
      t = tp.tenant.id ∧ incidentAttempts id firing w'.trace = ds.map fun d => (1, d) := by
    intro t r id firing hopened new hnew hid
    subst hid
    rcases hraised.opened hopened with hopened | ⟨ht, rfl, -, -, -⟩
    · exact absurd (h.ledger.opened t r new.id firing hopened).1 (hfresh new hnew)
    · exact ⟨ht, hraised.incidentAttempts_new h.ledger hnew⟩
  refine ⟨h.ledger.raised hraised, ?_, ?_, ?_, ?_, ?_⟩
  · intro h' hh'
    rw [hraised.alertHistory] at hh'
    rw [hraised.historyIds]
    rcases List.mem_append.1 hh' with hh' | hh'
    · exact List.mem_append_right _ (h.rows h' hh')
    · exact List.mem_append_left _ (List.mem_map_of_mem hh')
  · intro d hd hkind
    rw [htrace] at hd
    rcases List.mem_append.1 hd with hd | hd
    · exact h.keys d hd hkind
    · exact (hraised.deliveries d (hds ▸ mem_deliveries.2 hd)).key
  · intro j hj
    rw [List.append_nil] at hj
    rcases hraised.mem_jobs hj with hj | ⟨new, hnew, d, hd, rfl⟩
    · have hj' := List.mem_append_left [] hj
      obtain ⟨htwo, hof⟩ := h.retries j hj'
      refine ⟨htwo, fun t r firing hopened => ?_⟩
      obtain ⟨hopened, hsame⟩ := hold t r _ firing hopened (h.ledger.jobs j hj')
      obtain ⟨htenant, hon⟩ := hof t r firing hopened
      unfold FirstOn at hon ⊢
      exact ⟨htenant, by rwa [hsame]⟩
    · refine ⟨Nat.le_refl 2, fun t r firing hopened => ?_⟩
      obtain ⟨rfl, hattempts⟩ := hnewest t r _ firing hopened new hnew rfl
      refine ⟨rfl, d, ?_, rfl⟩
      rw [hattempts]
      exact List.mem_map_of_mem hd
  · intro t r id firing hopened a ha
    by_cases hid : id ∈ w.historyIds
    · obtain ⟨hopened, hsame⟩ := hold t r id firing hopened hid
      unfold FirstOn
      rw [hsame] at ha ⊢
      exact h.first t r id firing hopened a ha
    · rcases hraised.opened hopened with hopened' | ⟨-, -, new, hnew, rfl⟩
      · exact absurd (h.ledger.opened t r id firing hopened').1 hid
      · obtain ⟨-, hattempts⟩ := hnewest t r _ firing hopened new hnew rfl
        unfold FirstOn
        rw [hattempts] at ha ⊢
        obtain ⟨d, hd, rfl⟩ := List.mem_map.1 ha
        exact ⟨d, List.mem_map_of_mem hd, rfl⟩
  · intro h' hh' t r firing hopened
    rw [hraised.alertHistory] at hh'
    rcases List.mem_append.1 hh' with hh' | hnew
    · obtain ⟨hopened, hsame⟩ := hold t r h'.id firing hopened (h.rows h' hh')
      rw [hsame]
      exact h.log h' hh' t r firing hopened
    · -- the row of the firing: everything attempted so far was written with it
      have hnew := Option.mem_toList.1 hnew
      obtain ⟨rfl, hattempts⟩ := hnewest t r _ firing hopened h' hnew rfl
      rw [hattempts]
      refine ⟨(hraised.written h' hnew).tenantId, _, List.filter_sublist, List.Sublist.refl _,
        fun _ => rfl, ?_⟩
      rw [hraised.log h' hnew, deliveryLog_eq]

end Raised

section Retried

variable {env : DrainEnv} {job : DeliveryRetryJob} {rest : List DeliveryRetryJob}
  {ds : List Delivery}

/-- The jobs after a retry: those that were queued, and the next attempt of the job. -/
theorem Retried.mem_jobs (h : Retried env job w w' ds) {j : DeliveryRetryJob} (hj : j ∈ w'.jobs) :
    j ∈ w.jobs ∨ j = { job with attempt := job.attempt + 1 } := by
  obtain ⟨e, he, rfl⟩ := List.mem_map.1 hj
  exact (h.deliveryRetry e he).imp_left List.mem_map_of_mem

/-- The attempts of an incident after a retry. -/
theorem Retried.incidentAttempts (h : Retried env job w w' ds) (row : Uuid) (firing : Nat) :
    incidentAttempts row firing w'.trace = incidentAttempts row firing w.trace ++
      if job.historyId = row then ds.map (fun d => (job.attempt, d)) else [] := by
  by_cases hrow : job.historyId = row
  · subst hrow
    rw [if_pos rfl, h.incidentAttempts_self]
  · rw [if_neg hrow, List.append_nil, h.incidentAttempts_of_ne hrow]

theorem Logged.retried (h : Logged full (job :: rest) w) (hretried : Retried env job w w' ds)
    (hwrites : full → ∀ i, (env (.updateStatus i)).fails = false) : Logged full rest w' := by
  obtain ⟨htwo, hof⟩ := h.retries job (by simp)
  have hfirst : ∀ row firing c, FirstOn row firing w.trace c → FirstOn row firing w'.trace c := by
    intro row firing c ⟨d, hd, hc⟩
    refine ⟨d, ?_, hc⟩
    rw [hretried.incidentAttempts]
    exact List.mem_append_left _ hd
  obtain ⟨logged, hsub, hhistory, hall⟩ := hretried.log
  refine ⟨h.ledger.retry hretried, ?_, ?_, ?_, ?_, ?_⟩
  · intro h' hh'
    rw [hhistory] at hh'
    obtain ⟨row, hrow, hid, -⟩ := mem_loggedHistory hh'
    rw [hretried.historyIds, hid]
    exact h.rows row hrow
  · intro d hd hkind
    rw [hretried.trace] at hd
    rcases List.mem_append.1 hd with hd | hd
    · exact h.keys d hd hkind
    · obtain ⟨d', hd', heq⟩ := List.mem_map.1 hd
      obtain rfl := Event.delivery.inj heq
      obtain ⟨⟨tenant, -, hdelivers⟩, -⟩ := hretried.deliveries d' hd'
      exact hdelivers.key
  · intro j hj
    have hjob : j ∈ w.jobs ++ job :: rest ∨ j = { job with attempt := job.attempt + 1 } := by
      rcases List.mem_append.1 hj with hj | hj
      · exact (hretried.mem_jobs hj).imp_left (List.mem_append_left _)
      · exact .inl (List.mem_append_right _ (List.mem_cons_of_mem job hj))
    rcases hjob with hj | rfl
    · obtain ⟨htwo, hof⟩ := h.retries j hj
      refine ⟨htwo, fun t r firing hopened => ?_⟩
      obtain ⟨htenant, hon⟩ := hof t r firing (hretried.opened hopened)
      exact ⟨htenant, hfirst _ _ _ hon⟩
    · refine ⟨Nat.le_succ_of_le htwo, fun t r firing hopened => ?_⟩
      obtain ⟨htenant, hon⟩ := hof t r firing (hretried.opened hopened)
      exact ⟨htenant, hfirst _ _ _ hon⟩
  · intro t r row firing hopened a ha
    have hopened := hretried.opened hopened
    rw [hretried.incidentAttempts] at ha
    rcases List.mem_append.1 ha with ha | ha
    · exact hfirst _ _ _ (h.first t r row firing hopened a ha)
    · by_cases hrow : job.historyId = row
      · subst hrow
        rw [if_pos rfl] at ha
        obtain ⟨d, hd, rfl⟩ := List.mem_map.1 ha
        rw [(hretried.deliveries d hd).2]
        exact hfirst _ _ _ (hof t r firing hopened).2
      · rw [if_neg hrow] at ha
        cases ha
  · intro h' hh' t r firing hopened
    have hopened := hretried.opened hopened
    rw [hhistory] at hh'
    obtain ⟨row, hrow, hid, htenant, hlog⟩ := mem_loggedHistory hh'
    rw [hid] at hopened ⊢
    obtain ⟨ht, written, hfirsts, hwritten, hcomplete, hputs⟩ := h.log row hrow t r firing hopened
    refine ⟨htenant.trans ht, ?_⟩
    rw [hretried.incidentAttempts]
    by_cases hmine : job.historyId = row.id
    · -- the row of the job: the retry is not a first attempt, and its tenant is the row's
      have hjob : job.tenantId = t := (hof t r firing (hmine.symm ▸ hopened)).1
      rw [if_pos ⟨ht.trans hjob.symm, hmine.symm⟩] at hlog
      rw [if_pos hmine]
      have hlater : ((ds.map fun d => (job.attempt, d)).filter fun a => decide (a.1 = 1)) = [] := by
        refine List.filter_eq_nil_iff.2 fun a ha => ?_
        obtain ⟨d, -, rfl⟩ := List.mem_map.1 ha
        rw [decide_eq_true_eq]
        show job.attempt ≠ 1
        omega
      refine ⟨written ++ logged.map fun d => (job.attempt, d), ?_, ?_, ?_, ?_⟩
      · rw [List.filter_append, hlater, List.append_nil]
        exact hfirsts.trans (List.sublist_append_left _ _)
      · exact hwritten.append (hsub.map _)
      · intro hfull
        rw [hcomplete hfull, hall (hwrites hfull)]
      · rw [hlog, hputs, logWrites, logWrites, List.map_append, Assoc.putAll_append, List.map_map]
        rfl
    · rw [if_neg fun hboth => hmine hboth.2.symm] at hlog
      rw [if_neg hmine, List.append_nil]
      exact ⟨written, hfirsts, hwritten, hcomplete, hlog.trans hputs⟩

end Retried

end Logged

/-! ### Completeness -/

/-- A log against the attempts of its incident, those whose outcomes were written among
them. -/
structure LogFollows (log : List (String × ChannelDeliveryStatus))
    (attempts written : List (Nat × Delivery)) : Prop where
  /-- The outcomes of the inline sends are written with the incident. -/
  first : (attempts.filter fun a => decide (a.1 = 1)).Sublist written
  sublist : written.Sublist attempts
  keys : (log.map Prod.fst).Nodup
  entries : ∀ key, key ∈ log.map Prod.fst ↔ ∃ a ∈ attempts, a.2.channel.logKey = key
  /-- An entry is the last outcome written under its key. -/
  entry : ∀ key, log.lookup key =
    ((written.filter fun a => decide (a.2.channel.logKey = key)).getLast?).map (·.2.result.logged)
  /-- A channel with an entry of its own finds its own last outcome there. -/
  own : ∀ a ∈ attempts,
    (∀ b ∈ attempts, b.2.channel.SharesEntry a.2.channel → b.2.channel = a.2.channel) →
      ∃ last, (written.filter fun b => decide (b.2.channel = a.2.channel)).getLast? = some last ∧
        log.lookup a.2.channel.logKey = some last.2.result.logged

/-- What the invariant says of one incident. -/
theorem Logged.follows {full : Prop} {w : World} (h : Logged full [] w) {row : AlertHistoryRow}
    (hrow : row ∈ w.alertHistory) {t r : Uuid} {firing : Nat}
    (hopened : .opened t r row.id firing ∈ w.trace) :
    ∃ written, LogFollows row.channelsSent (incidentAttempts row.id firing w.trace) written ∧
      (full → written = incidentAttempts row.id firing w.trace) := by
  obtain ⟨-, written, hfirsts, hwritten, hcomplete, hputs⟩ := h.log row hrow t r firing hopened
  have hkey : ∀ a ∈ incidentAttempts row.id firing w.trace,
      a.2.result.deliveryKey = a.2.channel.logKey := by
    intro a ha
    obtain ⟨hd, hnotice⟩ := mem_incidentAttempts.1 ha
    refine h.keys a.2 hd fun incident hresolved => ?_
    rw [hresolved] at hnotice
    cases hnotice
  have hwrites : logWrites written =
      written.map fun a => (a.2.channel.logKey, a.2.result.logged) := by
    refine List.map_congr_left fun a ha => ?_
    rw [hkey a (hwritten.subset ha)]
  have hstarted : ∀ c, FirstOn row.id firing w.trace c → ∃ a ∈ written, a.2.channel = c := by
    intro c ⟨d, hd, hc⟩
    exact ⟨(1, d), hfirsts.subset (List.mem_filter.2 ⟨hd, rfl⟩), hc⟩
  have hentry : ∀ key, row.channelsSent.lookup key =
      ((written.filter fun a => decide (a.2.channel.logKey = key)).getLast?).map
        (·.2.result.logged) := by
    intro key
    rw [hputs, Assoc.lookup_putAll, hwrites, List.filter_map, List.getLast?_map, Option.map_map]
    rfl
  refine ⟨written, ⟨hfirsts, hwritten, ?_, ?_, hentry, ?_⟩, hcomplete⟩
  · rw [hputs]
    exact Assoc.nodup_putAll _
  · intro key
    rw [hputs, Assoc.mem_keys_putAll, hwrites, List.map_map]
    constructor
    · intro hmem
      obtain ⟨a, ha, rfl⟩ := List.mem_map.1 hmem
      exact ⟨a, hwritten.subset ha, rfl⟩
    · rintro ⟨a, ha, rfl⟩
      obtain ⟨b, hb, hchannel⟩ := hstarted _ (h.first t r row.id firing hopened a ha)
      exact List.mem_map.2 ⟨b, hb, congrArg AlertChannel.logKey hchannel⟩
  · intro a ha halone
    obtain ⟨b, hb, hchannel⟩ := hstarted _ (h.first t r row.id firing hopened a ha)
    -- under its key the channel is alone
    have hsame : (written.filter fun b => decide (b.2.channel.logKey = a.2.channel.logKey)) =
        written.filter fun b => decide (b.2.channel = a.2.channel) := by
      refine List.filter_congr fun b hb => ?_
      rw [decide_eq_decide]
      refine ⟨fun hkeys => ?_, congrArg AlertChannel.logKey⟩
      exact halone b (hwritten.subset hb) (AlertChannel.logKey_eq_iff.1 hkeys)
    have hne : (written.filter fun b => decide (b.2.channel = a.2.channel)) ≠ [] :=
      List.ne_nil_of_mem (List.mem_filter.2 ⟨hb, decide_eq_true hchannel⟩)
    refine ⟨_, List.getLast?_eq_some_getLast hne, ?_⟩
    rw [hentry, hsame, List.getLast?_eq_some_getLast hne]
    rfl

theorem incremental_logged (full : Prop) :
    Incremental (fun env => full → ∀ i, (env (.updateStatus i)).fails = false) (Logged full) where
  idle _ _ _ _ h hidle := h.idle hidle
  raised _ _ _ _ _ _ _ _ _ h hraised := h.raised hraised
  retried _ _ _ _ _ _ hwrites h hretried := h.retried hretried hwrites

/-- In every drain pass of a life the status writes succeed. -/
def StatusesWritten (steps : List (Option Step)) : Prop :=
  ∀ env, some (.drain env) ∈ steps → ∀ i, (env (.updateStatus i)).fails = false

/-- **The delivery log follows the attempts.** Over any life of a deployment whose rules
list their channels once. -/
theorem logFollows_of_distinct (p : Platform) (w : World) (steps : List (Option Step))
    (hkeys : WellKeyed w) (htrace : w.trace = []) (hqueue : w.deliveryRetry = [])
    (hdistinct : Runs.AllSteps (lifeStep p) (fun v _ => DistinctChannels v) w steps) :
    ∀ row ∈ (lifetime p w steps).alertHistory, ∀ t r firing,
      .opened t r row.id firing ∈ (lifetime p w steps).trace →
        ∃ written, LogFollows row.channelsSent
            (incidentAttempts row.id firing (lifetime p w steps).trace) written ∧
          (StatusesWritten steps →
            written = incidentAttempts row.id firing (lifetime p w steps).trace) := by
  have hstart : Logged (StatusesWritten steps) [] w := by
    refine ⟨ledger_of_start htrace hqueue, hkeys.historyIds, ?_, ?_, ?_, ?_⟩
    · simp [htrace]
    · simp [World.jobs, hqueue]
    · simp [htrace]
    · simp [htrace]
  have hdrains : ∀ s ∈ steps, ∀ env, s = some (.drain env) → StatusesWritten steps →
      ∀ i, (env (.updateStatus i)).fails = false := by
    intro s hs env hdrain hwrites
    subst hdrain
    exact hwrites env hs
  have hend := Runs.AllSteps.invariant
    (fun v => WellKeyed v ∧ Logged (StatusesWritten steps) [] v)
    (fun v s hv hok => ⟨hv.1.lifeStep s,
      (incremental_logged _).step hv.1 hv.2 s hok.2 hok.1⟩)
    (hdistinct.and_mem hdrains) ⟨hkeys, hstart⟩
  intro row hrow t r firing hopened
  exact hend.2.follows hrow hopened

/-! ### Two hooks of one rule -/

/-- Every attempted channel has an entry of its own, with its own last outcome. -/
def LogComplete (log : List (String × ChannelDeliveryStatus)) (attempts : List (Nat × Delivery)) :
    Prop :=
  ∃ key : AlertChannel → String,
    (∀ a ∈ attempts, ∀ b ∈ attempts, key a.2.channel = key b.2.channel →
      a.2.channel = b.2.channel) ∧
    ∀ a ∈ attempts, ∃ last,
      (attempts.filter fun b => decide (b.2.channel = a.2.channel)).getLast? = some last ∧
        log.lookup (key a.2.channel) = some last.2.result.logged

/-- Two channels do not fit in one entry. -/
theorem not_logComplete {log : List (String × ChannelDeliveryStatus)}
    {attempts : List (Nat × Delivery)} {a b : Nat × Delivery} (ha : a ∈ attempts) (hb : b ∈ attempts)
    (hne : a.2.channel ≠ b.2.channel) (hlog : log.length ≤ 1) : ¬ LogComplete log attempts := by
  intro ⟨key, hinjective, hcomplete⟩
  refine hne (hinjective a ha b hb ?_)
  have hsingle : ∀ k, (log.lookup k).isSome → log.map Prod.fst = [k] := by
    intro k hk
    obtain ⟨status, hstatus⟩ := Option.isSome_iff_exists.1 hk
    obtain ⟨before, after, hsplit, -⟩ := List.lookup_eq_some_iff.1 hstatus
    rw [hsplit, List.length_append, List.length_cons] at hlog
    rw [hsplit, List.eq_nil_of_length_eq_zero (by omega : before.length = 0),
      List.eq_nil_of_length_eq_zero (by omega : after.length = 0)]
    rfl
  obtain ⟨last, -, hlast⟩ := hcomplete a ha
  obtain ⟨last', -, hlast'⟩ := hcomplete b hb
  have hkeys := (hsingle (key a.2.channel) (by rw [hlast]; rfl)).symm.trans
    (hsingle (key b.2.channel) (by rw [hlast']; rfl))
  exact List.singleton_inj.1 hkeys

/-- Another webhook than the rule's first. -/
def backupHook : AlertChannel := .webhook "https://hooks.acme.test/backup" none none

/-- A rule with two webhooks fires: the first is refused, the second is taken. -/
def twoHooks : List (Option Step) :=
  [some (.evaluate ((samplePass troubledReads 100).refusing (.fire 7 0)))]

def twoHooksLife : World :=
  lifetime samplePlatform (sampleWorld (sampleRule [sampleHook, backupHook] 300)) twoHooks

theorem logFollows_of_distinct_sample :
    ∃ row ∈ twoHooksLife.alertHistory, .opened 1 7 row.id 1 ∈ twoHooksLife.trace ∧
      ∃ written, LogFollows row.channelsSent (incidentAttempts row.id 1 twoHooksLife.trace) written ∧
        (StatusesWritten twoHooks → written = incidentAttempts row.id 1 twoHooksLife.trace) := by
  have hopened : (twoHooksLife.alertHistory.any fun row =>
      decide (.opened 1 7 row.id 1 ∈ twoHooksLife.trace)) = true := by decide +kernel
  obtain ⟨row, hrow, hopened⟩ := List.any_eq_true.1 hopened
  have hmem := of_decide_eq_true hopened
  exact ⟨row, hrow, hmem, logFollows_of_distinct samplePlatform
    (sampleWorld (sampleRule [sampleHook, backupHook] 300)) twoHooks (wellKeyed_sampleWorld _) rfl rfl
    ⟨by decide +kernel, trivial⟩ row hrow 1 7 1 hmem⟩

/-- The refusal of the first hook is overwritten by the success of the second. -/
theorem log_misses_channel :
    ∃ row ∈ (lifetime samplePlatform (sampleWorld (sampleRule [sampleHook, backupHook] 300))
        twoHooks).alertHistory,
      .opened 1 7 row.id 1 ∈ (lifetime samplePlatform
        (sampleWorld (sampleRule [sampleHook, backupHook] 300)) twoHooks).trace ∧
      ¬ LogComplete row.channelsSent (incidentAttempts row.id 1 (lifetime samplePlatform
        (sampleWorld (sampleRule [sampleHook, backupHook] 300)) twoHooks).trace) := by
  let w := lifetime samplePlatform (sampleWorld (sampleRule [sampleHook, backupHook] 300)) twoHooks
  have hfacts : w.alertHistory.any (fun row => decide (.opened 1 7 row.id 1 ∈ w.trace) &&
      decide (row.channelsSent.length ≤ 1) &&
      (incidentAttempts row.id 1 w.trace).any fun a =>
        (incidentAttempts row.id 1 w.trace).any fun b =>
          decide (a.2.channel ≠ b.2.channel)) = true := by
    decide +kernel
  obtain ⟨row, hrow, hrest⟩ := List.any_eq_true.1 hfacts
  simp only [Bool.and_eq_true, decide_eq_true_eq] at hrest
  obtain ⟨⟨hopened, hlog⟩, hpair⟩ := hrest
  obtain ⟨a, ha, hpair⟩ := List.any_eq_true.1 hpair
  obtain ⟨b, hb, hne⟩ := List.any_eq_true.1 hpair
  exact ⟨row, hrow, hopened, not_logComplete ha hb (of_decide_eq_true hne) hlog⟩

end Feloxi.Alerting
