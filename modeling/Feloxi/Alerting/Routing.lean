import Feloxi.Alerting.Notices

/-!
# Feloxi.Alerting.Routing

Where resolved notices go. The fire notice of an incident is routed by the rule
and the silences of the pass that opens it, the resolved notice by those of the
pass that resolves it, and a failed statement leaves the incident open after its
notice. The two agree, and the notice goes out once, as long as no edit adds an
accepting channel to a rule with an open incident, no incident opened in silence
is resolved aloud, and the resolving statement succeeds (`Routes`).

The invariant (`Routed`) ties the history to the trace: an open row that was not
opened in silence has had its fire notice sent to every channel its rule accepts
now, and a row with a resolved notice is closed.
-/

namespace Feloxi.Alerting

/-! ### The property -/

/-- The fire notice of a firing was attempted on a channel. -/
def Attempted (trace : List Event) (firing : Nat) (channel : AlertChannel) : Prop :=
  ∃ d, .delivery d ∈ trace ∧ d.notice = .fire firing ∧ d.channel = channel

/-- A resolved notice of an incident opened in the trace goes only where the fire
notice was attempted. -/
def FollowsFire (trace : List Event) : Prop :=
  ∀ before d after, trace = before ++ .delivery d :: after → d.endpoint.isSome →
    ∀ row, d.ResolvesFor row → ∀ t r firing, .opened t r row firing ∈ trace →
      Attempted before firing d.channel

/-- No channel gets two resolved notices of one incident. -/
def OncePerChannel (trace : List Event) : Prop :=
  ∀ before d after, trace = before ++ .delivery d :: after → d.endpoint.isSome →
    ∀ row, d.ResolvesFor row → ∀ d', .delivery d' ∈ after → d'.endpoint.isSome →
      d'.channel = d.channel → ¬ d'.ResolvesFor row

/-! ### When it holds -/

/-- A row whose incident was opened while its rule was silenced. -/
def AlertHistoryRow.openedSilenced (h : AlertHistoryRow) : Bool :=
  (h.details.get "silenced").bind Json.asBool == some true

/-- A turn that sends a resolved notice: its statement succeeds, no channel is
listed twice, and no open row was opened in silence. -/
def Turn.Routes (p : Platform) (env : PassEnv) (turn : Turn) : Prop :=
  turn.resolves p env = true → turn.pass.noticeChannels turn.rule ≠ [] →
    (env.calls (.resolve turn.rule.id)).fails = false ∧ turn.rule.acceptingChannels.Nodup ∧
      ∀ h ∈ turn.world.openRows turn.rule.tenantId turn.rule.id, h.openedSilenced = false

/-- The steps that keep the routes of open incidents. -/
def Routes (p : Platform) (w : World) : Step → Prop
  | .evaluate env => ∀ turn ∈ passTurns p env w, turn.Routes p env
  | .updateRule tenantId id req => (∃ w', Alerting.updateRule w tenantId id req = .ok w') →
      ∀ q ∈ w.alertRules, q.id = id → q.tenantId = tenantId → w.openRows tenantId id ≠ [] →
        ∀ c ∈ (q.applyUpdate req).acceptingChannels, c ∈ q.acceptingChannels
  | _ => True

/-! ### Rows only close -/

/-- Every row of the second history was in the first, and was open if it is. -/
def Narrows (history history' : List AlertHistoryRow) : Prop :=
  ∀ h' ∈ history', ∃ h ∈ history, h'.id = h.id ∧ h'.ruleId = h.ruleId ∧
    h'.details = h.details ∧ (h'.resolvedAt = none → h.resolvedAt = none)

theorem Narrows.of_sublist {history history' : List AlertHistoryRow}
    (h : history'.Sublist history) : Narrows history history' :=
  fun h' hh' => ⟨h', h.subset hh', rfl, rfl, rfl, fun hopen => hopen⟩

theorem Narrows.refl (history : List AlertHistoryRow) : Narrows history history :=
  .of_sublist (.refl history)

theorem narrows_closedHistory (failed : Bool) (time : Instant) (tenantId ruleId : Uuid)
    (history : List AlertHistoryRow) :
    Narrows history (closedHistory failed time tenantId ruleId history) := by
  unfold closedHistory
  cases failed with
  | true => exact .refl history
  | false =>
      intro h' hh'
      obtain ⟨h, hh, rfl⟩ := List.mem_map.1 hh'
      refine ⟨h, hh, ?_⟩
      split
      · exact ⟨rfl, rfl, rfl, fun hopen => by cases hopen⟩
      · exact ⟨rfl, rfl, rfl, fun hopen => hopen⟩

theorem narrows_of_coreHistory {w w' : World} (h : w'.coreHistory = w.coreHistory) :
    Narrows w.alertHistory w'.alertHistory := by
  intro h' hh'
  have hcore : h'.core ∈ w.coreHistory := by
    rw [← h]
    exact List.mem_map_of_mem hh'
  obtain ⟨h₀, hh₀, heq⟩ := List.mem_map.1 hcore
  simp only [AlertHistoryRow.core, AlertHistoryRow.mk.injEq] at heq
  obtain ⟨hid, -, hrule, -, hresolved, -, -, hdetails, -⟩ := heq
  exact ⟨h₀, hh₀, hid.symm, hrule.symm, hdetails.symm, fun hopen => hresolved.trans hopen⟩

/-! ### Silenced openings are marked -/

theorem ofEntries_set (entries : List (String × Json)) (key : String) (value : Json) :
    ((Json.ofEntries entries).set key value).get key = some value := by
  simp only [Json.ofEntries, Json.set, Json.get, Json.find?_insertEntry_self, Option.map_some]

/-- The details of an alert raised in silence say so. -/
theorem firedDetails_silenced (condition : AlertCondition) (ctx : EvaluationContext) :
    (firedDetails condition ctx true).get "silenced" = some (.bool true) := by
  cases condition with
  | _ => exact ofEntries_set _ _ _

/-- An incident that was not opened in silence was announced on every channel the
rule accepts. -/
theorem Raised.announced {env : PassEnv} {tp : TenantPass} {rule : AlertRule} {w w' : World}
    {alert : FiredAlert} {ds : List Delivery} {row : Option AlertHistoryRow}
    (h : Raised env tp rule w w' alert ds row) {new : AlertHistoryRow} (hnew : new ∈ row)
    (haloud : new.openedSilenced = false) : ds.map (·.channel) = rule.acceptingChannels := by
  obtain ⟨ctx, now, rfl⟩ := h.raisedFor
  rw [h.channels, TenantPass.noticeChannels]
  cases hsilenced : isSilenced tp.silences rule.id with
  | false => rfl
  | true =>
      have hdetails : new.details = firedDetails rule.condition ctx true := by
        rw [(h.written new hnew).details, firedAlert, hsilenced]
      rw [AlertHistoryRow.openedSilenced, hdetails, firedDetails_silenced] at haloud
      cases haloud

/-! ### The invariant -/

theorem Attempted.mono {first second : List Event} (h : first <+: second) {firing : Nat}
    {channel : AlertChannel} (hattempted : Attempted first firing channel) :
    Attempted second firing channel := by
  obtain ⟨d, hd, hrest⟩ := hattempted
  exact ⟨d, h.subset hd, hrest⟩

/-- What the history and the rules say about the notices of a trace. -/
structure Routed (w : World) : Prop where
  opened : ∀ t r row firing, .opened t r row firing ∈ w.trace → row ∈ w.historyIds
  fired : ∀ h ∈ w.alertHistory, h.resolvedAt = none → h.openedSilenced = false →
    ∀ q ∈ w.configs, q.id = h.ruleId → ∀ t r firing, .opened t r h.id firing ∈ w.trace →
      ∀ c ∈ q.acceptingChannels, Attempted w.trace firing c
  known : ∀ d row, .delivery d ∈ w.trace → d.ResolvesFor row → row ∈ w.historyIds
  closed : ∀ d row, .delivery d ∈ w.trace → d.ResolvesFor row →
    ∀ h ∈ w.alertHistory, h.id = row → h.resolvedAt ≠ none
  follows : FollowsFire w.trace
  once : OncePerChannel w.trace

/-- A step that sends no resolved notice, opens nothing, and gives no rule with an
open row a new accepting channel. -/
structure Mute (w w' : World) (events : List Event) : Prop where
  trace : w'.trace = w.trace ++ events
  historyIds : w'.historyIds = w.historyIds
  history : Narrows w.alertHistory w'.alertHistory
  configs : ∀ q ∈ w'.configs, ∀ h ∈ w.alertHistory, h.resolvedAt = none → q.id = h.ruleId →
    ∃ q₀ ∈ w.configs, q₀.id = q.id ∧ ∀ c ∈ q.acceptingChannels, c ∈ q₀.acceptingChannels
  unresolved : ∀ d, .delivery d ∈ events → ∀ row, ¬ d.ResolvesFor row
  unopened : ∀ t r row firing, .opened t r row firing ∉ events

/-- An earlier resolved notice follows its fire notice whatever comes later, as long
as that does not open its row. -/
theorem FollowsFire.append {trace events : List Event} (h : FollowsFire trace)
    (hold : ∀ d row, .delivery d ∈ trace → d.ResolvesFor row →
      ∀ t r firing, .opened t r row firing ∉ events)
    (hnew : ∀ first d last, events = first ++ .delivery d :: last → d.endpoint.isSome →
      ∀ row, d.ResolvesFor row → ∀ t r firing, .opened t r row firing ∈ trace ++ events →
        Attempted (trace ++ first) firing d.channel) : FollowsFire (trace ++ events) := by
  intro before d after hsplit hsent row hres t r firing hopened
  rcases Runs.append_eq_append_cons hsplit with ⟨middle, htrace, -⟩ | ⟨first, rfl, hevents⟩
  · have hd : .delivery d ∈ trace := by
      rw [htrace]
      simp
    rcases List.mem_append.1 hopened with hopened | hopened
    · exact h before d middle htrace hsent row hres t r firing hopened
    · exact absurd hopened (hold d row hd hres t r firing)
  · exact hnew first d after hevents hsent row hres t r firing hopened

theorem OncePerChannel.append {trace events : List Event} (h : OncePerChannel trace)
    (hacross : ∀ d d' row, .delivery d ∈ trace → .delivery d' ∈ events → d.ResolvesFor row →
      ¬ d'.ResolvesFor row)
    (hnew : OncePerChannel events) : OncePerChannel (trace ++ events) := by
  intro before d after hsplit hsent row hres d' hd' hsent' hchannel
  rcases Runs.append_eq_append_cons hsplit with ⟨middle, htrace, rfl⟩ | ⟨first, rfl, hevents⟩
  · rcases List.mem_append.1 hd' with hd' | hd'
    · exact h before d middle htrace hsent row hres d' hd' hsent' hchannel
    · exact hacross d d' row (by rw [htrace]; simp) hd' hres
  · exact hnew first d after hevents hsent row hres d' hd' hsent' hchannel

/-- Events without a resolved notice. -/
theorem oncePerChannel_of_unresolved {events : List Event}
    (h : ∀ d, .delivery d ∈ events → ∀ row, ¬ d.ResolvesFor row) : OncePerChannel events := by
  intro before d after hsplit _ row hres
  exact absurd hres (h d (by rw [hsplit]; simp) row)

theorem Routed.mute {w w' : World} {events : List Event} (h : Routed w) (hmute : Mute w w' events) :
    Routed w' := by
  have hopened : ∀ t r row firing, .opened t r row firing ∈ w'.trace →
      .opened t r row firing ∈ w.trace := by
    intro t r row firing hmem
    rw [hmute.trace] at hmem
    exact (List.mem_append.1 hmem).resolve_right (hmute.unopened t r row firing)
  have hdelivered : ∀ d row, .delivery d ∈ w'.trace → d.ResolvesFor row → .delivery d ∈ w.trace := by
    intro d row hmem hres
    rw [hmute.trace] at hmem
    exact (List.mem_append.1 hmem).resolve_right fun hd => hmute.unresolved d hd row hres
  refine ⟨?_, ?_, ?_, ?_, ?_, ?_⟩
  · intro t r row firing hmem
    rw [hmute.historyIds]
    exact h.opened t r row firing (hopened t r row firing hmem)
  · intro r' hr' hopen haloud q hq hid t r firing hmem c hc
    obtain ⟨r₀, hr₀, hid₀, hrule₀, hdetails₀, hstill⟩ := hmute.history r' hr'
    obtain ⟨q₀, hq₀, hqid, hchannels⟩ :=
      hmute.configs q hq r₀ hr₀ (hstill hopen) (hid.trans hrule₀)
    have haloud₀ : r₀.openedSilenced = false := by
      rw [AlertHistoryRow.openedSilenced, ← hdetails₀]
      exact haloud
    have hattempted := h.fired r₀ hr₀ (hstill hopen) haloud₀ q₀ hq₀
      (hqid.trans (hid.trans hrule₀)) t r firing (hid₀ ▸ hopened t r _ firing hmem) c
      (hchannels c hc)
    rw [hmute.trace]
    exact hattempted.mono (List.prefix_append _ _)
  · intro d row hmem hres
    rw [hmute.historyIds]
    exact h.known d row (hdelivered d row hmem hres) hres
  · intro d row hmem hres r' hr' hid hopen
    obtain ⟨r₀, hr₀, hid₀, -, -, hstill⟩ := hmute.history r' hr'
    exact h.closed d row (hdelivered d row hmem hres) hres r₀ hr₀ (hid₀ ▸ hid) (hstill hopen)
  · rw [hmute.trace]
    refine h.follows.append (fun _ row _ _ t r firing => hmute.unopened t r row firing) ?_
    intro first d last hevents _ row hres
    exact absurd hres (hmute.unresolved d (by rw [hevents]; simp) row)
  · rw [hmute.trace]
    exact h.once.append (fun _ d' row _ hd' _ => hmute.unresolved d' hd' row)
      (oncePerChannel_of_unresolved hmute.unresolved)

/-- The same rules. -/
theorem Mute.of_same_configs {w w' : World} {events : List Event}
    (hconfigs : w'.configs = w.configs) (htrace : w'.trace = w.trace ++ events)
    (hids : w'.historyIds = w.historyIds) (hhistory : Narrows w.alertHistory w'.alertHistory)
    (hunresolved : ∀ d, .delivery d ∈ events → ∀ row, ¬ d.ResolvesFor row)
    (hunopened : ∀ t r row firing, .opened t r row firing ∉ events) : Mute w w' events :=
  ⟨htrace, hids, hhistory, fun q hq _ _ _ _ => ⟨q, hconfigs ▸ hq, rfl, fun _ hc => hc⟩,
    hunresolved, hunopened⟩

/-! ### One turn -/

section Turn

variable {p : Platform} {env : PassEnv} {start : World} {turn : Turn} {w' : World}

/-- Opening an incident keeps the invariant: its row is new. -/
theorem Routed.raised {alert : FiredAlert} {ds : List Delivery} {row : Option AlertHistoryRow}
    (h : Routed turn.world) (hkeys : WellKeyed turn.world)
    (hat : AtRule env start turn.pass turn.rule turn.world)
    (hconfigs : w'.configs = turn.world.configs)
    (hraised : Raised env turn.pass turn.rule (fires env turn.pass turn.rule turn.world) w' alert ds
      row) : Routed w' := by
  obtain ⟨events, htrace, hdelivery, hopened⟩ := hraised.events
  have hhistory : w'.alertHistory = turn.world.alertHistory ++ row.toList := by
    rw [hraised.alertHistory, fires_alertHistory]
  have hids : w'.historyIds = row.toList.map (·.id) ++ turn.world.historyIds := by
    rw [hraised.historyIds, fires_historyIds]
  have hfresh : ∀ new ∈ row, new.id ∉ turn.world.historyIds := by
    intro new hnew
    rw [← fires_historyIds env turn.pass turn.rule turn.world]
    exact (hraised.written new hnew).id
  have hrow : ∀ r' ∈ w'.alertHistory, r' ∈ turn.world.alertHistory ∨ r' ∈ row := by
    intro r' hr'
    rw [hhistory] at hr'
    simpa using hr'
  have hnotice : ∀ d, .delivery d ∈ events →
      d.notice = .fire (fires env turn.pass turn.rule turn.world).trace.length :=
    fun d hd => (hraised.deliveries d ((hdelivery d).1 hd)).notice
  have hunresolved : ∀ d, .delivery d ∈ events → ∀ id, ¬ d.ResolvesFor id := by
    intro d hd id hres
    rw [Delivery.ResolvesFor, hnotice d hd] at hres
    cases hres
  have hold : ∀ id ∈ turn.world.historyIds, ∀ t r firing, .opened t r id firing ∉ events := by
    intro id hid t r firing hmem
    obtain ⟨-, -, -, new, hnew, rfl⟩ := (hopened t r id firing).1 hmem
    exact hfresh new hnew hid
  have hdelivered : ∀ d id, .delivery d ∈ w'.trace → d.ResolvesFor id →
      .delivery d ∈ turn.world.trace := by
    intro d id hmem hres
    rw [htrace] at hmem
    exact (List.mem_append.1 hmem).resolve_right fun hd => hunresolved d hd id hres
  refine ⟨?_, ?_, ?_, ?_, ?_, ?_⟩
  · intro t r id firing hmem
    rw [htrace] at hmem
    rw [hids]
    rcases List.mem_append.1 hmem with hmem | hmem
    · exact List.mem_append_right _ (h.opened t r id firing hmem)
    · obtain ⟨-, -, -, new, hnew, rfl⟩ := (hopened t r id firing).1 hmem
      exact List.mem_append_left _ (List.mem_map_of_mem (Option.mem_toList.2 hnew))
  · intro r' hr' hopen haloud q hq hid t r firing hmem c hc
    rw [htrace] at hmem ⊢
    rw [hconfigs] at hq
    rcases hrow r' hr' with hr' | hr'
    · have hpast : .opened t r r'.id firing ∈ turn.world.trace :=
        (List.mem_append.1 hmem).resolve_right (hold r'.id (hkeys.historyIds r' hr') t r firing)
      exact (h.fired r' hr' hopen haloud q hq hid t r firing hpast c hc).mono
        (List.prefix_append _ _)
    · -- The new row: its fire notice went to every accepting channel.
      have hnew := hraised.written r' hr'
      obtain rfl := hat.eq_of_id hkeys hq (hid.trans hnew.ruleId)
      have hfiring : firing = (fires env turn.pass turn.rule turn.world).trace.length := by
        rcases List.mem_append.1 hmem with hmem | hmem
        · exact absurd (h.opened t r r'.id firing hmem) (hfresh r' hr')
        · exact ((hopened t r r'.id firing).1 hmem).2.2.1
      have hchannel : c ∈ ds.map (·.channel) := by
        rw [hraised.announced hr' haloud]
        exact hc
      obtain ⟨d, hd, rfl⟩ := List.mem_map.1 hchannel
      have hevent := (hdelivery d).2 hd
      exact ⟨d, List.mem_append_right _ hevent, hfiring ▸ hnotice d hevent, rfl⟩
  · intro d id hmem hres
    rw [hids]
    exact List.mem_append_right _ (h.known d id (hdelivered d id hmem hres) hres)
  · intro d id hmem hres r' hr' hid
    have hpast := hdelivered d id hmem hres
    rcases hrow r' hr' with hr' | hr'
    · exact h.closed d id hpast hres r' hr' hid
    · exact absurd (hid ▸ h.known d id hpast hres) (hfresh r' hr')
  · rw [htrace]
    refine h.follows.append (fun d id hd hres => hold id (h.known d id hd hres)) ?_
    intro first d last hevents _ id hres
    exact absurd hres (hunresolved d (by rw [hevents]; simp) id)
  · rw [htrace]
    exact h.once.append (fun _ d' id _ hd' _ => hunresolved d' hd' id)
      (oncePerChannel_of_unresolved hunresolved)

/-- Distinct channels get a notice once. -/
theorem oncePerChannel_of_nodup {events : List Event}
    (hnodup : ((events.filterMap Event.delivery?).map (·.channel)).Nodup) :
    OncePerChannel events := by
  intro before d after hsplit _ row _ d' hd' _ hchannel
  exfalso
  rw [hsplit, List.filterMap_append,
    List.filterMap_cons_some (show Event.delivery? (.delivery d) = some d from rfl),
    List.map_append, List.map_cons, List.nodup_append] at hnodup
  have hlater : d' ∈ after.filterMap Event.delivery? := List.mem_filterMap.2 ⟨_, hd', rfl⟩
  exact (List.nodup_cons.1 hnodup.2.1).1 (hchannel ▸ List.mem_map_of_mem hlater)

/-- Resolving an incident on a sound route keeps the invariant: what the notice is
about was open and is closed now. -/
theorem Routed.resolved {alert : FiredAlert} {ds : List Delivery} (h : Routed turn.world)
    (hkeys : WellKeyed turn.world) (hat : AtRule env start turn.pass turn.rule turn.world)
    (hconfigs : w'.configs = turn.world.configs)
    (hres : Resolved env turn.pass turn.rule (counts env turn.pass turn.rule turn.world) w' alert ds)
    (hroutes : turn.pass.noticeChannels turn.rule ≠ [] →
      (env.calls (.resolve turn.rule.id)).fails = false ∧ turn.rule.acceptingChannels.Nodup ∧
        ∀ r ∈ turn.world.openRows turn.rule.tenantId turn.rule.id, r.openedSilenced = false) :
    Routed w' := by
  obtain ⟨events, htrace, hdelivery, hunopened, hds⟩ := hres.events
  obtain ⟨time, -, hhistory⟩ := hres.alertHistory
  rw [counts_alertHistory] at hhistory
  have hids : w'.historyIds = turn.world.historyIds := by
    rw [hres.historyIds, counts_historyIds]
  have hnarrows : Narrows turn.world.alertHistory w'.alertHistory := by
    rw [hhistory]
    exact narrows_closedHistory _ _ _ _ _
  by_cases hsilent : turn.pass.noticeChannels turn.rule = []
  · -- Held by a silence, or no channel: nothing is sent.
    have hnone : ds = [] := by
      rw [← List.map_eq_nil_iff, hres.channels, hsilent]
    refine h.mute (.of_same_configs hconfigs htrace hids hnarrows ?_ hunopened)
    intro d hd
    rw [hdelivery, hnone] at hd
    cases hd
  · obtain ⟨hwritten, hnodup, haloud⟩ := hroutes hsilent
    have hall := (TenantPass.noticeChannels_of_ne_nil hsilent).2
    have hopenRow : ∀ d row, .delivery d ∈ events → d.ResolvesFor row →
        ∃ r ∈ turn.world.openRows turn.rule.tenantId turn.rule.id, r.id = row := by
      intro d row hd hrow
      rw [Delivery.ResolvesFor, (hres.deliveries d ((hdelivery d).1 hd)).notice] at hrow
      obtain ⟨r, hr, rfl⟩ := List.mem_map.1 hrow
      rw [hat.ofTenant]
      rw [World.openRows, counts_alertHistory] at hr
      exact ⟨r, hr, rfl⟩
    have hopened : ∀ t r row firing, .opened t r row firing ∈ w'.trace →
        .opened t r row firing ∈ turn.world.trace := by
      intro t r row firing hmem
      rw [htrace] at hmem
      exact (List.mem_append.1 hmem).resolve_right (hunopened t r row firing)
    have hisOpen : ∀ r ∈ turn.world.openRows turn.rule.tenantId turn.rule.id,
        r ∈ turn.world.alertHistory ∧ r.ruleId = turn.rule.id ∧ r.resolvedAt = none := by
      intro r hr
      obtain ⟨hmem, hopen⟩ := List.mem_filter.1 hr
      simp only [AlertHistoryRow.isOpenFor, Bool.and_eq_true, beq_iff_eq,
        Option.isNone_iff_eq_none] at hopen
      exact ⟨hmem, hopen.1.2, hopen.2⟩
    refine ⟨?_, ?_, ?_, ?_, ?_, ?_⟩
    · intro t r row firing hmem
      rw [hids]
      exact h.opened t r row firing (hopened t r row firing hmem)
    · intro r' hr' hopen hloud q hq hid t r firing hmem c hc
      obtain ⟨r₀, hr₀, hid₀, hrule₀, hdetails₀, hstill⟩ := hnarrows r' hr'
      have hloud₀ : r₀.openedSilenced = false := by
        rw [AlertHistoryRow.openedSilenced, ← hdetails₀]
        exact hloud
      rw [htrace]
      exact (h.fired r₀ hr₀ (hstill hopen) hloud₀ q (hconfigs ▸ hq) (hid.trans hrule₀) t r firing
        (hid₀ ▸ hopened t r _ firing hmem) c hc).mono (List.prefix_append _ _)
    · intro d row hmem hrow
      rw [hids]
      rw [htrace] at hmem
      rcases List.mem_append.1 hmem with hmem | hmem
      · exact h.known d row hmem hrow
      · obtain ⟨r, hr, rfl⟩ := hopenRow d row hmem hrow
        exact hkeys.historyIds r (hisOpen r hr).1
    · intro d row hmem hrow r' hr' hid hopen
      rw [htrace] at hmem
      rcases List.mem_append.1 hmem with hmem | hmem
      · obtain ⟨r₀, hr₀, hid₀, -, -, hstill⟩ := hnarrows r' hr'
        exact h.closed d row hmem hrow r₀ hr₀ (hid₀ ▸ hid) (hstill hopen)
      · -- The row was open before, and the statement closed it.
        obtain ⟨r, hr, rfl⟩ := hopenRow d row hmem hrow
        rw [hhistory, closedHistory, hwritten] at hr'
        obtain ⟨r₀, hr₀, rfl⟩ := List.mem_map.1 hr'
        obtain ⟨hrmem, hropen⟩ := List.mem_filter.1 hr
        rw [hat.ofTenant] at hropen
        have hid₀ : r₀.id = r.id := by
          rw [← hid]
          split <;> rfl
        obtain rfl := List.inj_on_of_nodup_map hkeys.rows hr₀ hrmem hid₀
        rw [if_pos hropen] at hopen
        cases hopen
    · rw [htrace]
      refine h.follows.append (fun _ row _ _ t r firing => hunopened t r row firing) ?_
      intro first d last hevents _ row hrow t r firing hmem
      have hd : .delivery d ∈ events := by
        rw [hevents]
        simp
      obtain ⟨r₀, hr₀, rfl⟩ := hopenRow d row hd hrow
      obtain ⟨hr₀mem, hrule, hopen⟩ := hisOpen r₀ hr₀
      have hpast := (List.mem_append.1 hmem).resolve_right (hunopened t r r₀.id firing)
      have hchannel : d.channel ∈ turn.rule.config.acceptingChannels := by
        have hmap := List.mem_map_of_mem (f := fun d : Delivery => d.channel) ((hdelivery d).1 hd)
        rw [hres.channels, hall] at hmap
        exact hmap
      exact (h.fired r₀ hr₀mem hopen (haloud r₀ hr₀) turn.rule.config hat.configured hrule.symm t r
        firing hpast d.channel hchannel).mono (List.prefix_append _ _)
    · rw [htrace]
      refine h.once.append ?_ (oncePerChannel_of_nodup ?_)
      · intro d d' row hd hd' hrow hrow'
        obtain ⟨r, hr, rfl⟩ := hopenRow d' row hd' hrow'
        obtain ⟨hrmem, -, hopen⟩ := hisOpen r hr
        exact h.closed d r.id hd hrow r hrmem rfl hopen
      · rw [hds, hres.channels, hall]
        exact hnodup

theorem Routed.rule (h : Routed turn.world) (hkeys : WellKeyed turn.world)
    (hat : AtRule env start turn.pass turn.rule turn.world)
    (hstep : RuleStep env turn.pass turn.rule (turn.fires p env) turn.world w')
    (hroutes : turn.Routes p env) : Routed w' := by
  have hconfigs := hstep.waits.configs
  have hsilent : ∀ {events : List Event}, w'.trace = turn.world.trace ++ events →
      w'.historyIds = turn.world.historyIds → w'.alertHistory = turn.world.alertHistory →
      (∀ e ∈ events, (∀ d, e ≠ .delivery d) ∧ ∀ t r row firing, e ≠ .opened t r row firing) →
      Routed w' := by
    intro events htrace hids hhistory hevents
    refine h.mute (.of_same_configs hconfigs htrace hids (hhistory ▸ .refl _) ?_ ?_)
    · intro d hd
      exact absurd rfl ((hevents _ hd).1 d)
    · intro t r row firing hmem
      exact (hevents _ hmem).2 t r row firing rfl
  cases hstep with
  | stillFiring =>
      exact hsilent (fires_trace ..) (fires_historyIds ..) (fires_alertHistory ..) (by simp)
  | throttled =>
      exact hsilent (fires_trace ..) (fires_historyIds ..) (fires_alertHistory ..) (by simp)
  | waiting =>
      exact hsilent (counts_trace ..) (counts_historyIds ..) (counts_alertHistory ..) (by simp)
  | quiet =>
      exact hsilent (forgets_trace ..) (forgets_historyIds ..) (forgets_alertHistory ..) (by simp)
  | raised _ _ _ hraised => exact h.raised hkeys hat hconfigs hraised
  | resolved hfired hopen hstreak hres =>
      have hresolves : turn.resolves p env = true := by
        simp [Turn.resolves, hfired, hopen, hstreak]
      exact h.resolved hkeys hat hconfigs hres (hroutes hresolves)

end Turn

/-! ### Every sound step keeps it -/

theorem routed_passInvariant (p : Platform) (env : PassEnv) (start : World)
    (hroutes : ∀ turn ∈ passTurns p env start, turn.Routes p env) :
    PassInvariant p env start fun w => WellKeyed w ∧ Routed w where
  wait w pt h := ⟨(wellKeyed_passInvariant p env start).wait w pt h.1,
    h.2.mute (.of_same_configs (Follows.advance w _).configs
      (show (w.advance (env.calls pt)).trace = w.trace ++ [] by simp) (by simp)
      (by simpa using .refl _) (by simp) (by simp))⟩
  gone tenant htenant w w' r h hat hclosed := by
    obtain ⟨time, -, hhistory⟩ := hclosed.alertHistory
    exact ⟨(wellKeyed_passInvariant p env start).gone tenant htenant w w' r h.1 hat hclosed,
      h.2.mute (.of_same_configs hclosed.waits.configs hclosed.trace hclosed.historyIds
        (hhistory ▸ narrows_closedHistory _ _ _ _ _) (by simp) (by simp))⟩
  rule turn hturn w' h hat hstep :=
    ⟨(wellKeyed_passInvariant p env start).rule turn hturn w' h.1 hat hstep,
      h.2.rule h.1 hat hstep (hroutes turn hturn)⟩
  cleanup w h := ⟨(wellKeyed_passInvariant p env start).cleanup w h.1,
    h.2.mute (.of_same_configs rfl (List.append_nil _).symm rfl (.refl _) (by simp) (by simp))⟩

theorem Routed.drain {p : Platform} {w : World} (h : Routed w) (env : DrainEnv) :
    Routed (drainDeliveryRetries p env w) := by
  refine drainDeliveryRetries_induction p env ?_ (fun _ => ?_) ?_
  · exact h.mute (.of_same_configs (Follows.advance w _).configs
      (show (w.advance (env .pop)).trace = w.trace ++ [] by simp) (by simp)
      (by simpa using .refl _) (by simp) (by simp))
  · exact h.mute (.of_same_configs (popped_waits p env w).configs
      (show (popped p env w).2.trace = w.trace ++ [] by simp [popped, World.popDueDeliveryRetries])
      (by simp [popped, World.popDueDeliveryRetries])
      (by simpa [popped, World.popDueDeliveryRetries] using .refl _) (by simp) (by simp))
  · intro v v' job ds _ hv hretried
    refine hv.mute (.of_same_configs hretried.waits.configs hretried.trace hretried.historyIds
      (narrows_of_coreHistory hretried.coreHistory) ?_ (by simp))
    intro d hd row hres
    obtain ⟨d', hd', heq⟩ := List.mem_map.1 hd
    obtain rfl := Event.delivery.inj heq
    obtain ⟨⟨tenant, -, hdelivers⟩, -⟩ := hretried.deliveries d' hd'
    rw [Delivery.ResolvesFor, hdelivers.notice] at hres
    cases hres

/-- A step that changes rules or rows by a request. -/
theorem Routed.of_request {w w' : World} (h : Routed w) (hadmin : Administrative w w')
    (hconfigs : ∀ q ∈ w'.configs, ∀ r ∈ w.alertHistory, r.resolvedAt = none → q.id = r.ruleId →
      ∃ q₀ ∈ w.configs, q₀.id = q.id ∧ ∀ c ∈ q.acceptingChannels, c ∈ q₀.acceptingChannels) :
    Routed w' :=
  h.mute ⟨by rw [hadmin.trace, List.append_nil], hadmin.historyIds,
    .of_sublist hadmin.alertHistory, hconfigs, by simp, by simp⟩

/-- A new rule has no open rows. -/
theorem createRule_configs {w w' : World} (hkeys : WellKeyed w) {tenantId id : Uuid}
    {req : CreateAlertRuleRequest} (hok : createRule w tenantId id req = .ok w') :
    ∀ q ∈ w'.configs, ∀ r ∈ w.alertHistory, q.id = r.ruleId → q ∈ w.configs := by
  obtain ⟨hfresh, new, hid, -, rfl⟩ := createRule_inv hok
  intro q hq r hr hrule
  rw [World.configs, List.map_append] at hq
  rcases List.mem_append.1 hq with hq | hq
  · exact hq
  · obtain rfl := List.mem_singleton.1 hq
    obtain ⟨q₀, hq₀, hid₀, -⟩ := hkeys.history r hr
    obtain ⟨rule, hrule', rfl⟩ := List.mem_map.1 hq₀
    refine absurd (List.mem_map_of_mem (f := fun q : AlertRule => q.id) hrule') ?_
    rw [show rule.id = id from hid₀.trans (hrule.symm.trans hid)]
    exact hfresh

/-- An updated rule with open rows accepts nothing new. -/
theorem updateRule_configs {w w' : World} (hkeys : WellKeyed w) {tenantId id : Uuid}
    {req : UpdateAlertRuleRequest} (hok : updateRule w tenantId id req = .ok w')
    (hkept : ∀ q ∈ w.alertRules, q.id = id → q.tenantId = tenantId → w.openRows tenantId id ≠ [] →
      ∀ c ∈ (q.applyUpdate req).acceptingChannels, c ∈ q.acceptingChannels) :
    ∀ q ∈ w'.configs, ∀ r ∈ w.alertHistory, r.resolvedAt = none → q.id = r.ruleId →
      ∃ q₀ ∈ w.configs, q₀.id = q.id ∧ ∀ c ∈ q.acceptingChannels, c ∈ q₀.acceptingChannels := by
  obtain rfl := updateRule_inv hok
  intro q hq r hr hopen hrule
  obtain ⟨rule, hrule', rfl⟩ := List.mem_map.1 hq
  obtain ⟨old, hold, rfl⟩ := List.mem_map.1 hrule'
  by_cases hmatch : (old.id == id && old.tenantId == tenantId) = true
  · rw [if_pos hmatch] at hrule ⊢
    refine ⟨old.config, List.mem_map_of_mem hold, rfl, ?_⟩
    simp only [Bool.and_eq_true, beq_iff_eq] at hmatch
    refine hkept old hold hmatch.1 hmatch.2 (List.ne_nil_of_mem (a := r) ?_)
    -- The open row belongs to the rule, so to its tenant.
    obtain ⟨q₀, hq₀, hid₀, htenant₀⟩ := hkeys.history r hr
    have hsame : q₀ = old.config :=
      hkeys.unique hq₀ (List.mem_map_of_mem hold) (hid₀.trans hrule.symm)
    rw [hsame] at hid₀ htenant₀
    have htenant : r.tenantId = tenantId := htenant₀.symm.trans hmatch.2
    have hid : r.ruleId = id := hid₀.symm.trans hmatch.1
    exact List.mem_filter.2 ⟨hr, by simp [AlertHistoryRow.isOpenFor, htenant, hid, hopen]⟩
  · rw [if_neg hmatch]
    exact ⟨old.config, List.mem_map_of_mem hold, rfl, fun _ hc => hc⟩

theorem Routed.step {p : Platform} {w : World} (hkeys : WellKeyed w) (h : Routed w) {s : Step}
    (hroutes : Routes p w s) : Routed (step p w s) := by
  have hsame : ∀ w' : World, Administrative w w' → (∀ q ∈ w'.configs, q ∈ w.configs) →
      Routed w' := fun w' hadmin hsub =>
    h.of_request hadmin fun q hq _ _ _ _ => ⟨q, hsub q hq, rfl, fun _ hc => hc⟩
  cases s with
  | evaluate env =>
      exact (runAlertEvaluation_induction (routed_passInvariant p env w hroutes) hkeys
        ⟨hkeys, h⟩).2
  | drain env => exact h.drain env
  | createRule tenantId id req =>
      have hadmin := (step_cases p w (.createRule tenantId id req)).resolve_left (by simp)
        |>.resolve_left (by simp)
      simp only [Alerting.step] at hadmin ⊢
      cases hok : Alerting.createRule w tenantId id req with
      | ok w' =>
          rw [hok] at hadmin
          exact h.of_request hadmin fun q hq r hr _ hid =>
            ⟨q, createRule_configs hkeys hok q hq r hr hid, rfl, fun _ hc => hc⟩
      | error e => exact h
  | updateRule tenantId id req =>
      have hadmin := (step_cases p w (.updateRule tenantId id req)).resolve_left (by simp)
        |>.resolve_left (by simp)
      simp only [Alerting.step] at hadmin ⊢
      cases hok : Alerting.updateRule w tenantId id req with
      | ok w' =>
          rw [hok] at hadmin
          exact h.of_request hadmin (updateRule_configs hkeys hok (hroutes ⟨w', hok⟩))
      | error e => exact h
  | deleteRule tenantId id =>
      have hadmin := (step_cases p w (.deleteRule tenantId id)).resolve_left (by simp)
        |>.resolve_left (by simp)
      refine hsame _ hadmin fun q hq => ?_
      simp only [Alerting.step, Alerting.deleteRule] at hq
      split at hq
      · obtain ⟨rule, hrule, rfl⟩ := List.mem_map.1 hq
        exact List.mem_map_of_mem (List.mem_of_mem_filter hrule)
      · exact hq
  | silence op =>
      have hadmin := (step_cases p w (.silence op)).resolve_left (by simp) |>.resolve_left (by simp)
      refine hsame _ hadmin fun q hq => ?_
      obtain ⟨silences, hw⟩ := World.applySilenceOp_eq w op
      rw [Alerting.step, hw] at hq
      exact hq
  | wait n =>
      have hadmin := (step_cases p w (.wait n)).resolve_left (by simp) |>.resolve_left (by simp)
      exact hsame _ hadmin fun q hq => hq

theorem routed_of_trace_eq_nil {w : World} (h : w.trace = []) : Routed w := by
  refine ⟨?_, ?_, ?_, ?_, ?_, ?_⟩ <;> simp [h, FollowsFire, OncePerChannel]

/-- **Resolved follows fired** in every run whose steps keep the routes of open
incidents. -/
theorem followsFire_of_routes (p : Platform) (w : World) (steps : List Step) (hkeys : WellKeyed w)
    (hstart : w.trace = []) (hroutes : Runs.AllSteps (step p) (Routes p) w steps) :
    FollowsFire (run p w steps).trace ∧ OncePerChannel (run p w steps).trace := by
  have hrun : WellKeyed (run p w steps) ∧ Routed (run p w steps) :=
    hroutes.invariant (fun v => WellKeyed v ∧ Routed v)
      (fun v s hv hs => ⟨hv.1.step s, hv.2.step hv.1 hs⟩) ⟨hkeys, routed_of_trace_eq_nil hstart⟩
  exact ⟨hrun.2.follows, hrun.2.once⟩

/-! ### Sample runs -/

instance (p : Platform) (env : PassEnv) (turn : Turn) : Decidable (turn.Routes p env) :=
  inferInstanceAs (Decidable (_ → _ → _ ∧ _ ∧ _))

theorem routes_evaluate {p : Platform} {w : World} {env : PassEnv}
    (h : ∀ turn ∈ passTurns p env w, turn.Routes p env) : Routes p w (.evaluate env) := h

/-- A rule fires and clears. -/
def announcedIncident : List Step :=
  [.evaluate (samplePass troubledReads 100), .evaluate (samplePass calmReads 101),
    .evaluate (samplePass calmReads 102)]

theorem followsFire_of_routes_sample :
    let trace := (run samplePlatform (sampleWorld (sampleRule [sampleHook] 300))
      announcedIncident).trace
    FollowsFire trace ∧ OncePerChannel trace :=
  followsFire_of_routes samplePlatform (sampleWorld (sampleRule [sampleHook] 300)) announcedIncident
    (wellKeyed_sampleWorld _) rfl
    ⟨routes_evaluate (by decide +kernel), routes_evaluate (by decide +kernel),
      routes_evaluate (by decide +kernel), trivial⟩

/-- The resolving statement fails once, so the incident is resolved twice. -/
def resolvedTwice : List Step :=
  [.evaluate (samplePass troubledReads 100), .evaluate (samplePass calmReads 101),
    .evaluate ((samplePass calmReads 102).failing (.resolve 7)),
    .evaluate (samplePass calmReads 103), .evaluate (samplePass calmReads 104)]

def sampleEscalation : AlertChannel := .webhook "https://hooks.acme.test/escalation" none none

/-- A channel is added to the rule while its incident is open. -/
def channelAdded : List Step :=
  [.evaluate (samplePass troubledReads 100),
    .updateRule 1 7 {
      name := "Task failed"
      condition := .taskFailed "*"
      channels := [sampleHook, sampleEscalation]
      cooldownSecs := 300
      isEnabled := true
      severityOverride := none },
    .evaluate (samplePass calmReads 101), .evaluate (samplePass calmReads 102)]

theorem not_oncePerChannel {events : List Event} (n m : Nat) (row : Uuid)
    (h : (events[n]?.bind Event.delivery?).any (fun d =>
      ((events.drop (n + 1))[m]?.bind Event.delivery?).any fun d' =>
        decide (d.endpoint.isSome ∧ d.ResolvesFor row ∧ d'.endpoint.isSome ∧
          d'.channel = d.channel ∧ d'.ResolvesFor row)) = true) : ¬ OncePerChannel events := by
  obtain ⟨d, hd, hrest⟩ := (Option.any_eq_true ..).1 h
  obtain ⟨d', hd', hfacts⟩ := (Option.any_eq_true ..).1 hrest
  obtain ⟨hsent, hres, hsent', hchannel, hres'⟩ := of_decide_eq_true hfacts
  have hlater : .delivery d' ∈ events.drop (n + 1) := by
    rw [split_of_delivery hd']
    simp
  exact fun honce => honce _ d _ (split_of_delivery hd) hsent row hres d' hlater hsent' hchannel hres'

theorem not_followsFire {events : List Event} (n : Nat) (t r row : Uuid) (firing : Nat)
    (hopened : .opened t r row firing ∈ events)
    (h : (events[n]?.bind Event.delivery?).any (fun d => decide (d.endpoint.isSome ∧
      d.ResolvesFor row ∧ ∀ d' ∈ (events.take n).filterMap Event.delivery?,
        d'.notice = .fire firing → d'.channel ≠ d.channel)) = true) : ¬ FollowsFire events := by
  obtain ⟨d, hd, hfacts⟩ := (Option.any_eq_true ..).1 h
  obtain ⟨hsent, hres, hnone⟩ := of_decide_eq_true hfacts
  intro hfollows
  obtain ⟨d', hd', hfire, hchannel⟩ :=
    hfollows _ d _ (split_of_delivery hd) hsent row hres t r firing hopened
  exact hnone d' (List.mem_filterMap.2 ⟨_, hd', rfl⟩) hfire hchannel

/-- A failed statement brings a second resolved notice, an added channel one without
a fire notice. -/
theorem not_followsFire_channelAdded :
    ¬ OncePerChannel
        (run samplePlatform (sampleWorld (sampleRule [sampleHook] 300)) resolvedTwice).trace ∧
      ¬ FollowsFire
        (run samplePlatform (sampleWorld (sampleRule [sampleHook] 300)) channelAdded).trace :=
  ⟨not_oncePerChannel 9 5 100 (by decide +kernel),
    not_followsFire 10 1 7 100 1 (by decide +kernel) (by decide +kernel)⟩

end Feloxi.Alerting
