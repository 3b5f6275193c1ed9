import Feloxi.Alerting.Requests
import Mathlib.Data.Set.BooleanAlgebra
import Mathlib.Order.CompletePartialOrder

/-!
# Feloxi.Alerting.Tenancy

Which rows a request has to do with. Nearly every statement names the tenant. The rest goes by the
id of a rule: `get_alert_rule`, whose reply is checked, and what happens to the silences and the
history of a rule. There it matters that they are of the tenant of their rule (`Sound`).
-/

namespace Feloxi.Alerting.Requests

open Handlers
open Auth (CurrentUser)

/-! ### Whose a rule is -/

abbrev Known := Set (Uuid × Uuid)

def Store.known (s : Store) : Known := {x | x ∈ s.issued}

/-- What refers to a rule is of the tenant of the rule. -/
structure Sound (s : Store) : Prop where
  unique : ∀ id t t', (id, t) ∈ s.issued → (id, t') ∈ s.issued → t = t'
  rules : ∀ r ∈ s.alertRules, (r.id, r.tenantId) ∈ s.issued
  silences : ∀ x ∈ s.alertSilences, ∀ id, x.ruleId = some id → (id, x.tenantId) ∈ s.issued
  history : ∀ h ∈ s.alertHistory, (h.ruleId, h.tenantId) ∈ s.issued

/-- The statement is about rows of the tenant, as far as is known. -/
def Op.Of (A : Uuid) (w : Known) : Op → Prop
  | .clock | .getAlertRule _ => True
  | .createAlertRule tenantId _ | .listAlertRules tenantId => tenantId = A
  | .listEnabledAlertRules tenantId | .updateAlertRule tenantId _ _ => tenantId = A
  | .deleteAlertRule tenantId _ | .listOpenAlerts tenantId => tenantId = A
  | .resolveAlertsForRule tenantId _ | .updateDeliveryStatus tenantId _ _ _ => tenantId = A
  | .countAlertHistory tenantId | .listAlertHistory tenantId _ _ => tenantId = A
  | .listActiveSilences tenantId | .listSilences tenantId _ => tenantId = A
  | .expireSilence tenantId _ | .listIntegrations tenantId => tenantId = A
  | .getIntegration tenantId _ | .setIntegrationStatus tenantId _ _ => tenantId = A
  | .deleteIntegration tenantId _ => tenantId = A
  | .upsertOnConfigKey input _ => input.tenantId = A
  | .insertHistory input => input.tenantId = A ∧ (input.ruleId, A) ∈ w
  | .touchRule ruleId => (ruleId, A) ∈ w
  | .createSilence input => input.tenantId = A ∧ ∀ id, input.ruleId = some id → (id, A) ∈ w

/-- What a handler learns from a reply. -/
def Op.Tells (w : Known) : (op : Op) → op.Reply → Prop
  | .getAlertRule id, some rule => rule.id = id ∧ (rule.id, rule.tenantId) ∈ w
  | .listEnabledAlertRules tenantId, rules => ∀ r ∈ rules, (r.id, tenantId) ∈ w
  | _, _ => True

/-- The contract of the requests of a tenant. -/
def contract (A : Uuid) : Contract Known Op Op.Reply (Except AppError Answer) where
  pre w op := op.Of A w
  post w op reply := op.Tells w reply
  ans _ _ := True

theorem contract_stable (A : Uuid) : (contract A).Stable where
  pre := by
    intro w w' op hle hpre
    cases op with
    | insertHistory input => exact ⟨hpre.1, hle hpre.2⟩
    | touchRule ruleId => exact hle hpre
    | createSilence input => exact ⟨hpre.1, fun id hid => hle (hpre.2 id hid)⟩
    | _ => exact hpre
  ans := fun _ _ => trivial

/-! ### The handlers -/

section Keeping

variable {A : Uuid} {w : Known} {env : Env}

theorem keeps_query {op : Op} {next : op.Reply → Endpoint} (hpre : op.Of A w)
    (hnext : ∀ w' reply, w ≤ w' → op.Tells w' reply → Keeps (contract A) w' (next reply)) :
    Keeps (contract A) w (query env op next) :=
  ⟨hpre, hnext, fun _ _ => trivial⟩

theorem keeps_queryOr {op : Op} {default : op.Reply} {next : op.Reply → Endpoint}
    (hpre : op.Of A w) (hdefault : op.Tells w default)
    (hnext : ∀ w' reply, w ≤ w' → op.Tells w' reply → Keeps (contract A) w' (next reply)) :
    Keeps (contract A) w (queryOr op default next) :=
  ⟨hpre, hnext, fun _ hle => (hnext w default le_rfl hdefault).mono (contract_stable A) hle⟩

theorem keeps_permitted {user : CurrentUser} {permission : String} {handler : Endpoint}
    (h : Keeps (contract A) w handler) :
    Keeps (contract A) w (permitted user permission handler) := by
  unfold permitted
  split
  · trivial
  · exact h

theorem keeps_orRefuse {β : Type} (answer : β → Answer) (r : Except AppError β) :
    Keeps (contract A) w (orRefuse answer r) := by
  cases r <;> trivial

theorem keeps_validated {severity : Option String} {channels : List AlertChannel} {next : Endpoint}
    (h : Keeps (contract A) w next) : Keeps (contract A) w (validated severity channels next) := by
  unfold validated
  split
  · trivial
  · exact h

theorem keeps_validateChannels {channels : List AlertChannel} {next : Endpoint}
    (h : Keeps (contract A) w next) :
    Keeps (contract A) w (validateChannels env A channels next) := by
  unfold validateChannels
  dsimp only
  split
  · exact h
  · refine keeps_query rfl fun w' rows hle _ => ?_
    split
    · trivial
    · exact h.mono (contract_stable A) hle

theorem keeps_ownRule {user : CurrentUser} (huser : user.tenantId = A) {id : Uuid}
    {next : RuleRow → Endpoint}
    (hnext : ∀ w' rule, w ≤ w' → (id, A) ∈ w' → Keeps (contract A) w' (next rule)) :
    Keeps (contract A) w (ownRule env user id next) := by
  refine keeps_query trivial fun w' reply hle htells => ?_
  cases reply with
  | none => trivial
  | some rule =>
      obtain ⟨rfl, hknown⟩ := htells
      dsimp only
      split
      · trivial
      · rename_i htenant
        -- past the check the rule is the tenant's
        rw [ne_eq, not_not, huser] at htenant
        exact hnext w' rule hle (htenant ▸ hknown)

theorem keeps_insertSilence {user : CurrentUser} (huser : user.tenantId = A)
    {ruleId : Option Uuid} (reason : Option String) (minutes : Nat)
    (hknown : ∀ id, ruleId = some id → (id, A) ∈ w) :
    Keeps (contract A) w (insertSilence env user ruleId reason minutes) := by
  refine ⟨trivial, fun w' now hle _ => ?_⟩
  exact keeps_query ⟨huser, fun id hid => hle (hknown id hid)⟩ fun _ r _ _ => keeps_orRefuse _ r

theorem keeps_markRevoked {revoked : Option Uuid} {next : Endpoint}
    (h : Keeps (contract A) w next) : Keeps (contract A) w (markRevoked A revoked next) := by
  cases revoked with
  | none => exact h
  | some id =>
      unfold markRevoked
      exact keeps_queryOr rfl trivial fun _ _ hle _ => h.mono (contract_stable A) hle

theorem keeps_testIntegration {user : CurrentUser} (huser : user.tenantId = A) (id : Uuid)
    (channelId : Option String) (throttled : Bool)
    (deliver : IntegrationRow → AlertChannel → Delivery) :
    Keeps (contract A) w (testIntegration env user id channelId throttled deliver) := by
  subst huser
  refine keeps_permitted (keeps_query rfl fun _ found _ _ => ?_)
  cases found with
  | none => trivial
  | some integration =>
      dsimp only
      split
      · trivial
      · cases testChannel integration.kind id channelId with
        | error e => trivial
        | ok channel => exact keeps_markRevoked trivial

theorem keeps_deliveries (integrations : List IntegrationRow) (jobs : List Retry) :
    Keeps (contract A) w (deliveries A integrations jobs) := by
  induction jobs generalizing w with
  | nil => trivial
  | cons job rest ih => exact keeps_markRevoked (keeps_queryOr rfl trivial fun _ _ _ _ => ih)

theorem keeps_closeGone {enabled : List Uuid} {next : Endpoint}
    (h : Keeps (contract A) w next) (openRules : List Uuid) :
    Keeps (contract A) w (closeGone A enabled next openRules) := by
  induction openRules generalizing w with
  | nil => exact h
  | cons ruleId rest ih =>
      unfold closeGone
      split
      · exact ih h
      · exact keeps_queryOr rfl trivial fun _ _ hle _ => ih (h.mono (contract_stable A) hle)

theorem keeps_writes {rules : List RuleRow} (hrules : ∀ r ∈ rules, (r.id, A) ∈ w)
    {next : Endpoint} (h : Keeps (contract A) w next) (todo : List Write) :
    Keeps (contract A) w (writes A rules next todo) := by
  -- what is known grows, so that the rules that were read stay the tenant's
  induction todo generalizing w with
  | nil => exact h
  | cons write rest ih =>
      have hrest : ∀ w', w ≤ w' → Keeps (contract A) w' (writes A rules next rest) :=
        fun w' hle => ih (fun r hr => hle (hrules r hr)) (h.mono (contract_stable A) hle)
      cases write with
      | fired i severity summary details channelsSent =>
          unfold writes
          cases hi : rules[i]? with
          | none => exact hrest w le_rfl
          | some rule =>
              have hknown := hrules rule (List.mem_of_getElem? hi)
              refine ⟨⟨rfl, hknown⟩, fun w' reply hle _ => ?_, hrest⟩
              cases reply with
              | error e => exact hrest w' hle
              | ok row =>
                  exact keeps_queryOr (hle hknown) trivial fun w'' _ hle' _ =>
                    hrest w'' (hle.trans hle')
      | resolved ruleId => exact keeps_queryOr rfl trivial fun w' _ hle _ => hrest w' hle
      | revoked id => exact keeps_queryOr rfl trivial fun w' _ hle _ => hrest w' hle

theorem keeps_pass (plan : Plan) : Keeps (contract A) w (pass A plan) := by
  refine keeps_queryOr rfl (by simp [Op.Tells]) fun w₁ rules _ hrules => ?_
  refine keeps_queryOr rfl trivial fun w₂ openAlerts hle₂ _ => ?_
  split
  · trivial
  · refine keeps_closeGone ?_ _
    refine keeps_queryOr rfl trivial fun w₃ integrations hle₃ _ => ?_
    refine keeps_queryOr rfl trivial fun w₄ silences hle₄ _ => ?_
    refine keeps_writes (fun r hr => (hle₂.trans (hle₃.trans hle₄)) (hrules r hr)) ?_ _
    trivial

end Keeping

/-- **A request keeps to its tenant.** -/
theorem keeps_program (env : Env) (request : Request) (w : Known) :
    Keeps (contract request.tenantId) w (request.program env) := by
  cases request with
  | listRules user => exact keeps_permitted (keeps_query rfl fun _ _ _ _ => trivial)
  | createRule user req =>
      refine keeps_permitted (keeps_validateChannels (keeps_validated ?_))
      exact keeps_query rfl fun _ r _ _ => keeps_orRefuse _ r
  | getRule user id => exact keeps_permitted (keeps_ownRule rfl fun _ _ _ _ => trivial)
  | updateRule user id req =>
      refine keeps_permitted (keeps_validateChannels (keeps_validated ?_))
      exact keeps_query rfl fun _ r _ _ => keeps_orRefuse _ r
  | deleteRule user id => exact keeps_permitted (keeps_query rfl fun _ _ _ _ => trivial)
  | listHistory user limit offset =>
      refine keeps_permitted (keeps_query rfl fun _ _ _ _ => ?_)
      exact keeps_query rfl fun _ _ _ _ => trivial
  | listSilences user => exact keeps_permitted (keeps_query rfl fun _ _ _ _ => trivial)
  | createSilence user ruleId reason minutes =>
      refine keeps_permitted ?_
      cases ruleId with
      | none => exact keeps_insertSilence rfl reason _ (by simp)
      | some id =>
          refine keeps_ownRule rfl fun w' _ _ hknown => keeps_insertSilence rfl reason _ ?_
          exact fun id' hid => Option.some.inj hid ▸ hknown
  | expireSilence user id =>
      refine keeps_permitted (keeps_query rfl fun _ expired _ _ => ?_)
      cases expired <;> trivial
  | listIntegrations user => exact keeps_permitted (keeps_query rfl fun _ _ _ _ => trivial)
  | deleteIntegration user id =>
      refine keeps_permitted (keeps_query rfl fun _ deleted _ _ => ?_)
      cases deleted <;> trivial
  | testIntegration user id channelId throttled deliver =>
      exact keeps_testIntegration rfl id channelId throttled deliver
  | connect input service =>
      refine ⟨rfl, fun _ r _ _ => ?_, fun _ _ => trivial⟩
      cases r <;> trivial
  | pass tenantId plan => exact keeps_pass plan
  | retried tenantId jobs =>
      exact keeps_queryOr rfl trivial fun _ integrations _ _ => keeps_deliveries integrations jobs

/-! ### The statements -/

/-- An insert fails, or stores a row under an id that was never given out. -/
theorem insert_cases {β : Type} (env : Env) (id tenantId : Uuid) (row : Option β)
    (put : β → Store → Store) (s : Store) :
    (∃ e, s.insert env id tenantId row put = (s, .error e)) ∨
      ∃ r, row = some r ∧ id ∉ s.issued.map Prod.fst ∧
        s.insert env id tenantId row put =
          (put r { s with issued := (id, tenantId) :: s.issued }, .ok r) := by
  unfold Store.insert Store.draw
  cases row with
  | none => exact .inl ⟨_, rfl⟩
  | some r =>
      by_cases hid : id ∈ s.issued.map Prod.fst
      · simp only [if_pos (List.contains_iff_mem.2 hid)]
        exact .inl ⟨_, rfl⟩
      · simp only [if_neg (mt List.contains_iff_mem.1 hid)]
        exact .inr ⟨r, rfl, hid, rfl⟩

theorem CreateRule.row_eq_some {input : CreateRule} {tenantId id : Uuid} {now : Instant}
    {row : RuleRow} (h : input.row tenantId id now = some row) :
    row.id = id ∧ row.tenantId = tenantId := by
  unfold CreateRule.row at h
  split at h
  · cases h
    exact ⟨rfl, rfl⟩
  · cases h

theorem NewSilence.row_eq_some {input : NewSilence} {id : Uuid} {now : Instant} {row : SilenceRow}
    (h : input.row id now = some row) :
    row.tenantId = input.tenantId ∧ row.ruleId = input.ruleId := by
  obtain ⟨reason, -, rfl⟩ := Option.map_eq_some_iff.1 h
  exact ⟨rfl, rfl⟩

theorem NewHistory.row_eq_some {input : NewHistory} {id : Uuid} {now : Instant}
    {row : AlertHistoryRow} (h : input.row id now = some row) :
    row.tenantId = input.tenantId ∧ row.ruleId = input.ruleId := by
  unfold NewHistory.row at h
  split at h
  · cases h
    exact ⟨rfl, rfl⟩
  · cases h

theorem NewIntegration.row_eq_some {input : NewIntegration} {id : Uuid} {now : Instant}
    {row : IntegrationRow} (h : input.row id now = some row) : row.tenantId = input.tenantId := by
  unfold NewIntegration.row at h
  split at h
  · cases h
    rfl
  · cases h

/-- An update keeps the id and the tenant. -/
theorem UpdateRule.set_eq_some {input : UpdateRule} {now : Instant} {set : RuleRow → RuleRow}
    (h : input.set now = some set) (r : RuleRow) :
    (set r).id = r.id ∧ (set r).tenantId = r.tenantId := by
  unfold UpdateRule.set at h
  split at h
  · cases h
    exact ⟨rfl, rfl⟩
  · cases h

theorem updateRule_cases (env : Env) (tenantId id : Uuid) (input : UpdateRule) (s : Store) :
    (∃ e, s.updateRule env tenantId id input = (s, .error e)) ∨
      ∃ set row, input.set s.now = some set ∧
        s.updateRule env tenantId id input =
          ({ s with alertRules := s.alertRules.map fun r =>
              if r.id = id ∧ r.tenantId = tenantId then set r else r }, .ok (set row)) := by
  unfold Store.updateRule
  cases input.set s.now with
  | none => exact .inl ⟨_, rfl⟩
  | some set =>
      cases (s.rulesOf tenantId).find? (·.id == id) with
      | none => exact .inl ⟨_, rfl⟩
      | some row => exact .inr ⟨set, row, rfl, rfl⟩

theorem upsert_cases (env : Env) (input : NewIntegration) (service : Service) (id : Uuid)
    (s : Store) :
    (∃ e, s.upsert env input service id = (s, .error e)) ∨
      (∃ row, input.row id s.now = some row ∧
        s.upsert env input service id =
          s.insert env id input.tenantId (some row) Store.putIntegration) ∨
      ∃ row r, s.upsert env input service id =
        ({ s with integrations := s.integrations.map fun i =>
            if input.conflicts service i then i.reconnect row else i }, .ok r) := by
  unfold Store.upsert
  cases input.row id s.now with
  | none => exact .inl ⟨_, rfl⟩
  | some row =>
      cases (s.integrationsOf input.tenantId).find? (input.conflicts service) with
      | none => exact .inr (.inl ⟨row, rfl, rfl⟩)
      | some old => exact .inr (.inr ⟨row, _, rfl⟩)

/-! ### Soundness -/

section Soundness

variable {s : Store}

theorem Sound.draw (h : Sound s) {id tenantId : Uuid} (hid : id ∉ s.issued.map Prod.fst) :
    Sound { s with issued := (id, tenantId) :: s.issued } where
  unique := by
    intro id' t t' ht ht'
    have hold : ∀ t, (id, t) ∉ s.issued := fun t ht => hid (List.mem_map_of_mem ht)
    rcases List.mem_cons.1 ht with heq | hmem
    · cases heq
      rcases List.mem_cons.1 ht' with heq' | hmem'
      · cases heq'
        rfl
      · exact absurd hmem' (hold t')
    · rcases List.mem_cons.1 ht' with heq' | hmem'
      · cases heq'
        exact absurd hmem (hold t)
      · exact h.unique id' t t' hmem hmem'
  rules r hr := List.mem_cons_of_mem _ (h.rules r hr)
  silences x hx id hxid := List.mem_cons_of_mem _ (h.silences x hx id hxid)
  history x hx := List.mem_cons_of_mem _ (h.history x hx)

/-- Rules that are rewritten keep their id and tenant. -/
theorem Sound.mapRules (h : Sound s) {f : RuleRow → RuleRow}
    (hf : ∀ r, (f r).id = r.id ∧ (f r).tenantId = r.tenantId) :
    Sound { s with alertRules := s.alertRules.map f } where
  unique := h.unique
  rules := by
    intro r hr
    obtain ⟨old, hold, rfl⟩ := List.mem_map.1 hr
    rw [(hf old).1, (hf old).2]
    exact h.rules old hold
  silences := h.silences
  history := h.history

theorem Sound.mapHistory (h : Sound s) {f : AlertHistoryRow → AlertHistoryRow}
    (hf : ∀ x, (f x).ruleId = x.ruleId ∧ (f x).tenantId = x.tenantId) :
    Sound { s with alertHistory := s.alertHistory.map f } where
  unique := h.unique
  rules := h.rules
  silences := h.silences
  history := by
    intro x hx
    obtain ⟨old, hold, rfl⟩ := List.mem_map.1 hx
    rw [(hf old).1, (hf old).2]
    exact h.history old hold

theorem Sound.mapSilences (h : Sound s) {f : SilenceRow → SilenceRow}
    (hf : ∀ x, (f x).ruleId = x.ruleId ∧ (f x).tenantId = x.tenantId) :
    Sound { s with alertSilences := s.alertSilences.map f } where
  unique := h.unique
  rules := h.rules
  silences := by
    intro x hx id hid
    obtain ⟨old, hold, rfl⟩ := List.mem_map.1 hx
    rw [(hf old).1] at hid
    rw [(hf old).2]
    exact h.silences old hold id hid
  history := h.history

theorem Sound.integrations (h : Sound s) (integrations : List IntegrationRow) :
    Sound { s with integrations } := ⟨h.unique, h.rules, h.silences, h.history⟩

theorem Sound.deleteRule (h : Sound s) (tenantId id : Uuid) : Sound (s.deleteRule tenantId id) := by
  unfold Store.deleteRule
  split
  · exact ⟨h.unique, fun r hr => h.rules r (List.mem_of_mem_filter hr),
      fun x hx => h.silences x (List.mem_of_mem_filter hx),
      fun x hx => h.history x (List.mem_of_mem_filter hx)⟩
  · exact h

/-- An insert is sound if its row is of what was drawn. -/
theorem Sound.insert (h : Sound s) {β : Type} {env : Env} {id tenantId : Uuid} {row : Option β}
    {put : β → Store → Store}
    (hput : ∀ r, row = some r → Sound { s with issued := (id, tenantId) :: s.issued } →
      Sound (put r { s with issued := (id, tenantId) :: s.issued })) :
    Sound (s.insert env id tenantId row put).1 := by
  rcases insert_cases env id tenantId row put s with ⟨e, heq⟩ | ⟨r, hrow, hid, heq⟩
  · rw [heq]
    exact h
  · rw [heq]
    exact hput r hrow (h.draw hid)

theorem Sound.putRule (h : Sound s) {r : RuleRow} (hr : (r.id, r.tenantId) ∈ s.issued) :
    Sound (s.putRule r) where
  unique := h.unique
  rules := by
    intro x hx
    rcases List.mem_append.1 hx with hx | hx
    · exact h.rules x hx
    · exact List.mem_singleton.1 hx ▸ hr
  silences := h.silences
  history := h.history

theorem Sound.putSilence (h : Sound s) {r : SilenceRow}
    (hr : ∀ id, r.ruleId = some id → (id, r.tenantId) ∈ s.issued) : Sound (s.putSilence r) where
  unique := h.unique
  rules := h.rules
  silences := by
    intro x hx
    rcases List.mem_append.1 hx with hx | hx
    · exact h.silences x hx
    · exact List.mem_singleton.1 hx ▸ hr
  history := h.history

theorem Sound.putHistory (h : Sound s) {r : AlertHistoryRow}
    (hr : (r.ruleId, r.tenantId) ∈ s.issued) : Sound (s.putHistory r) where
  unique := h.unique
  rules := h.rules
  silences := h.silences
  history := by
    intro x hx
    rcases List.mem_append.1 hx with hx | hx
    · exact h.history x hx
    · exact List.mem_singleton.1 hx ▸ hr

end Soundness

/-- **A statement about rows of one tenant keeps the tables sound.** -/
theorem sound_exec (env : Env) {A : Uuid} {s : Store} (h : Sound s) (op : Op) (id : Uuid)
    (hpre : op.Of A s.known) : Sound (exec env op id s).1 := by
  cases op with
  | createAlertRule tenantId input =>
      refine h.insert fun r hrow hdrawn => hdrawn.putRule ?_
      obtain ⟨rfl, rfl⟩ := CreateRule.row_eq_some hrow
      exact List.mem_cons_self
  | updateAlertRule tenantId ruleId input =>
      rcases updateRule_cases env tenantId ruleId input s with ⟨e, heq⟩ | ⟨set, row, hset, heq⟩
      · rw [exec, heq]
        exact h
      · rw [exec, heq]
        refine h.mapRules fun r => ?_
        split
        · exact UpdateRule.set_eq_some hset r
        · exact ⟨rfl, rfl⟩
  | deleteAlertRule tenantId ruleId => exact h.deleteRule tenantId ruleId
  | insertHistory input =>
      rw [exec]
      split
      · refine h.insert fun r hrow hdrawn => hdrawn.putHistory ?_
        obtain ⟨htenant, hrule⟩ := NewHistory.row_eq_some hrow
        -- the caller knows whose the rule is
        rw [htenant, hrule, hpre.1]
        exact List.mem_cons_of_mem _ hpre.2
      · exact h
  | touchRule ruleId =>
      refine h.mapRules fun r => ?_
      split <;> exact ⟨rfl, rfl⟩
  | resolveAlertsForRule tenantId ruleId =>
      refine h.mapHistory fun x => ?_
      split <;> exact ⟨rfl, rfl⟩
  | updateDeliveryStatus tenantId historyId key status =>
      refine h.mapHistory fun x => ?_
      split <;> exact ⟨rfl, rfl⟩
  | createSilence input =>
      rw [exec]
      split
      · refine h.insert fun r hrow hdrawn => hdrawn.putSilence fun ruleId hid => ?_
        obtain ⟨htenant, hrule⟩ := NewSilence.row_eq_some hrow
        rw [htenant, hpre.1]
        exact List.mem_cons_of_mem _ (hpre.2 ruleId (hrule ▸ hid))
      · exact h
  | expireSilence tenantId silenceId =>
      refine h.mapSilences fun x => ?_
      split <;> exact ⟨rfl, rfl⟩
  | upsertOnConfigKey input service =>
      rcases upsert_cases env input service id s with ⟨e, heq⟩ | ⟨row, -, heq⟩ | ⟨row, r, heq⟩
      · rw [exec, heq]
        exact h
      · rw [exec, heq]
        exact h.insert fun r _ hdrawn => hdrawn.integrations _
      · rw [exec, heq]
        exact h.integrations _
  | setIntegrationStatus tenantId integrationId status => exact h.integrations _
  | deleteIntegration tenantId integrationId => exact h.integrations _
  | _ => exact h

/-- Ids that were given out stay given out. -/
theorem issued_insert {β : Type} (env : Env) (id tenantId : Uuid) (row : Option β)
    (put : β → Store → Store) (hput : ∀ r s, (put r s).issued = s.issued) (s : Store) :
    s.issued ⊆ (s.insert env id tenantId row put).1.issued := by
  rcases insert_cases env id tenantId row put s with ⟨e, heq⟩ | ⟨r, -, -, heq⟩
  · rw [heq]
    exact List.Subset.refl _
  · rw [heq, hput]
    exact List.subset_cons_self _ _

theorem issued_exec (env : Env) (op : Op) (id : Uuid) (s : Store) :
    s.issued ⊆ (exec env op id s).1.issued := by
  cases op with
  | createAlertRule tenantId input =>
      exact issued_insert env id _ _ Store.putRule (fun _ _ => rfl) s
  | updateAlertRule tenantId ruleId input =>
      rcases updateRule_cases env tenantId ruleId input s with ⟨e, heq⟩ | ⟨set, row, -, heq⟩ <;>
        rw [exec, heq] <;> exact List.Subset.refl _
  | deleteAlertRule tenantId ruleId =>
      rw [exec, Store.deleteRule]
      split <;> exact List.Subset.refl _
  | insertHistory input =>
      rw [exec]
      split
      · exact issued_insert env id _ _ Store.putHistory (fun _ _ => rfl) s
      · exact List.Subset.refl _
  | createSilence input =>
      rw [exec]
      split
      · exact issued_insert env id _ _ Store.putSilence (fun _ _ => rfl) s
      · exact List.Subset.refl _
  | upsertOnConfigKey input service =>
      rcases upsert_cases env input service id s with ⟨e, heq⟩ | ⟨row, -, heq⟩ | ⟨row, r, heq⟩
      · rw [exec, heq]
        exact List.Subset.refl _
      · rw [exec, heq]
        exact issued_insert env id _ _ Store.putIntegration (fun _ _ => rfl) s
      · rw [exec, heq]
        exact List.Subset.refl _
  | _ => exact List.Subset.refl _

/-- What handlers are told is so. -/
theorem honest_exec (env : Env) (A : Uuid) {s : Store} (h : Sound s) :
    Honest (contract A) (exec env) Store.known s := by
  intro op id _
  refine ⟨fun x hx => issued_exec env op id s hx, ?_⟩
  cases op with
  | getAlertRule ruleId =>
      show Op.Tells s.known (.getAlertRule ruleId) (s.alertRules.find? (·.id == ruleId))
      cases hfind : s.alertRules.find? (·.id == ruleId) with
      | none => trivial
      | some rule =>
          have hid : (rule.id == ruleId) = true := by simpa using List.find?_some hfind
          exact ⟨eq_of_beq hid, h.rules rule (List.mem_of_find?_eq_some hfind)⟩
  | listEnabledAlertRules tenantId =>
      intro r hr
      obtain ⟨hmem, htenant⟩ := List.mem_filter.1 (List.mem_of_mem_filter hr)
      exact eq_of_beq htenant ▸ h.rules r hmem
  | _ => trivial

end Feloxi.Alerting.Requests
