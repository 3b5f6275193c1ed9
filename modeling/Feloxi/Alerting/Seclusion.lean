import Feloxi.Alerting.Tenancy
import Feloxi.Lib.Unwinding

/-!
# Feloxi.Alerting.Seclusion

A tenant does not notice the others: its requests are answered as in the run without theirs, up to
the text of a 404, and leave the rows that they leave there (`secluded`).
-/

namespace Feloxi.Alerting.Requests

open Handlers
open Auth (CurrentUser)
open Runs (AllSteps)

/-! ### What replies may differ in -/

/-- The reply with the others there, and without them. -/
def Agree (A : Uuid) : (op : Op) → op.Reply → op.Reply → Prop
  | .getAlertRule _, r, r' => r = r' ∨ ∃ rule, r = some rule ∧ rule.tenantId ≠ A ∧ r' = none
  | _, r, r' => r = r'

/-- Only the text of a 404 tells a rule of another tenant from none. -/
def SameAnswer (a a' : Except AppError Answer) : Prop :=
  a = .error (.notFound "Alert rule not found") ∧ a' = .error (.notFound "Resource not found")

section Tolerating

variable {A : Uuid} {env : Env}

/-- Nearly all replies are the same. -/
theorem similar_of_same {op : Op} {next : op.Reply → Endpoint}
    (hsame : ∀ r r', Agree A op r r' → r = r') (r r' : op.Reply) (h : Agree A op r r') :
    Similar SameAnswer (next r) (next r') :=
  .inl (congrArg next (hsame r r' h))

theorem tolerates_query {op : Op} {next : op.Reply → Endpoint}
    (hsame : ∀ r r', Agree A op r r' → r = r')
    (hnext : ∀ r, (next r).Tolerates (Agree A) SameAnswer) :
    (query env op next).Tolerates (Agree A) SameAnswer :=
  ⟨similar_of_same hsame, hnext, trivial⟩

theorem tolerates_queryOr {op : Op} {default : op.Reply} {next : op.Reply → Endpoint}
    (hsame : ∀ r r', Agree A op r r' → r = r')
    (hnext : ∀ r, (next r).Tolerates (Agree A) SameAnswer) :
    (queryOr op default next).Tolerates (Agree A) SameAnswer :=
  ⟨similar_of_same hsame, hnext, hnext default⟩

theorem tolerates_permitted {user : CurrentUser} {permission : String} {handler : Endpoint}
    (h : handler.Tolerates (Agree A) SameAnswer) :
    (permitted user permission handler).Tolerates (Agree A) SameAnswer := by
  unfold permitted
  split
  · trivial
  · exact h

theorem tolerates_orRefuse {β : Type} (answer : β → Answer) (r : Except AppError β) :
    (orRefuse answer r).Tolerates (Agree A) SameAnswer := by
  cases r <;> trivial

theorem tolerates_validated {severity : Option String} {channels : List AlertChannel}
    {next : Endpoint} (h : next.Tolerates (Agree A) SameAnswer) :
    (validated severity channels next).Tolerates (Agree A) SameAnswer := by
  unfold validated
  split
  · trivial
  · exact h

theorem tolerates_validateChannels {tenantId : Uuid} {channels : List AlertChannel}
    {next : Endpoint} (h : next.Tolerates (Agree A) SameAnswer) :
    (validateChannels env tenantId channels next).Tolerates (Agree A) SameAnswer := by
  unfold validateChannels
  dsimp only
  split
  · exact h
  · refine tolerates_query (fun _ _ h => h) fun rows => ?_
    split
    · trivial
    · exact h

/-- The check comes before anything is done with the rule. -/
theorem tolerates_ownRule {user : CurrentUser} (huser : user.tenantId = A) {id : Uuid}
    {next : RuleRow → Endpoint} (h : ∀ rule, (next rule).Tolerates (Agree A) SameAnswer) :
    (ownRule env user id next).Tolerates (Agree A) SameAnswer := by
  refine ⟨fun r r' hr => ?_, fun r => ?_, trivial⟩
  · rcases hr with rfl | ⟨rule, rfl, htenant, rfl⟩
    · exact .inl rfl
    · refine .inr ⟨_, _, ?_, rfl, rfl, rfl⟩
      rw [← huser] at htenant
      simp only [htenant, ne_eq, not_false_eq_true, if_true, refuse]
  · cases r with
    | none => trivial
    | some rule =>
        dsimp only
        split
        · trivial
        · exact h rule

theorem tolerates_insertSilence (user : CurrentUser) (ruleId : Option Uuid)
    (reason : Option String) (minutes : Nat) :
    (insertSilence env user ruleId reason minutes).Tolerates (Agree A) SameAnswer := by
  refine ⟨similar_of_same fun _ _ h => h, fun now => ?_⟩
  exact tolerates_query (fun _ _ h => h) fun r => tolerates_orRefuse _ r

theorem tolerates_markRevoked {tenantId : Uuid} {revoked : Option Uuid} {next : Endpoint}
    (h : next.Tolerates (Agree A) SameAnswer) :
    (markRevoked tenantId revoked next).Tolerates (Agree A) SameAnswer := by
  cases revoked with
  | none => exact h
  | some id =>
      unfold markRevoked
      exact tolerates_queryOr (fun _ _ h => h) fun _ => h

theorem tolerates_testIntegration (user : CurrentUser) (id : Uuid) (channelId : Option String)
    (throttled : Bool) (deliver : IntegrationRow → AlertChannel → Delivery) :
    (testIntegration env user id channelId throttled deliver).Tolerates (Agree A) SameAnswer := by
  refine tolerates_permitted (tolerates_query (fun _ _ h => h) fun found => ?_)
  cases found with
  | none => trivial
  | some integration =>
      dsimp only
      split
      · trivial
      · cases testChannel integration.kind id channelId with
        | error e => trivial
        | ok channel => exact tolerates_markRevoked trivial

theorem tolerates_deliveries (tenantId : Uuid) (integrations : List IntegrationRow)
    (jobs : List Retry) :
    (deliveries tenantId integrations jobs).Tolerates (Agree A) SameAnswer := by
  induction jobs with
  | nil => trivial
  | cons job rest ih =>
      exact tolerates_markRevoked (tolerates_queryOr (fun _ _ h => h) fun _ => ih)

theorem tolerates_closeGone {tenantId : Uuid} {enabled : List Uuid} {next : Endpoint}
    (h : next.Tolerates (Agree A) SameAnswer) (openRules : List Uuid) :
    (closeGone tenantId enabled next openRules).Tolerates (Agree A) SameAnswer := by
  induction openRules with
  | nil => exact h
  | cons ruleId rest ih =>
      unfold closeGone
      split
      · exact ih
      · exact tolerates_queryOr (fun _ _ h => h) fun _ => ih

theorem tolerates_writes {tenantId : Uuid} {rules : List RuleRow} {next : Endpoint}
    (h : next.Tolerates (Agree A) SameAnswer) (todo : List Write) :
    (writes tenantId rules next todo).Tolerates (Agree A) SameAnswer := by
  induction todo with
  | nil => exact h
  | cons write rest ih =>
      cases write with
      | fired i severity summary details channelsSent =>
          unfold writes
          split
          · exact ih
          · refine ⟨similar_of_same fun _ _ h => h, fun reply => ?_, ih⟩
            cases reply with
            | error e => exact ih
            | ok row => exact tolerates_queryOr (fun _ _ h => h) fun _ => ih
      | resolved ruleId => exact tolerates_queryOr (fun _ _ h => h) fun _ => ih
      | revoked id => exact tolerates_queryOr (fun _ _ h => h) fun _ => ih

theorem tolerates_pass (tenantId : Uuid) (plan : Plan) :
    (pass tenantId plan).Tolerates (Agree A) SameAnswer := by
  refine tolerates_queryOr (fun _ _ h => h) fun rules => ?_
  refine tolerates_queryOr (fun _ _ h => h) fun openAlerts => ?_
  split
  · trivial
  · refine tolerates_closeGone ?_ _
    refine tolerates_queryOr (fun _ _ h => h) fun integrations => ?_
    refine tolerates_queryOr (fun _ _ h => h) fun silences => ?_
    refine tolerates_writes ?_ _
    trivial

end Tolerating

theorem tolerates_program (env : Env) (request : Request) :
    (request.program env).Tolerates (Agree request.tenantId) SameAnswer := by
  cases request with
  | listRules user =>
      exact tolerates_permitted (tolerates_query (fun _ _ h => h) fun _ => trivial)
  | createRule user req =>
      refine tolerates_permitted (tolerates_validateChannels (tolerates_validated ?_))
      exact tolerates_query (fun _ _ h => h) fun r => tolerates_orRefuse _ r
  | getRule user id => exact tolerates_permitted (tolerates_ownRule rfl fun _ => trivial)
  | updateRule user id req =>
      refine tolerates_permitted (tolerates_validateChannels (tolerates_validated ?_))
      exact tolerates_query (fun _ _ h => h) fun r => tolerates_orRefuse _ r
  | deleteRule user id =>
      exact tolerates_permitted (tolerates_query (fun _ _ h => h) fun _ => trivial)
  | listHistory user limit offset =>
      refine tolerates_permitted (tolerates_query (fun _ _ h => h) fun _ => ?_)
      exact tolerates_query (fun _ _ h => h) fun _ => trivial
  | listSilences user =>
      exact tolerates_permitted (tolerates_query (fun _ _ h => h) fun _ => trivial)
  | createSilence user ruleId reason minutes =>
      refine tolerates_permitted ?_
      cases ruleId with
      | none => exact tolerates_insertSilence user none reason _
      | some id => exact tolerates_ownRule rfl fun _ => tolerates_insertSilence user _ reason _
  | expireSilence user id =>
      refine tolerates_permitted (tolerates_query (fun _ _ h => h) fun r => ?_)
      cases r <;> trivial
  | listIntegrations user =>
      exact tolerates_permitted (tolerates_query (fun _ _ h => h) fun _ => trivial)
  | deleteIntegration user id =>
      refine tolerates_permitted (tolerates_query (fun _ _ h => h) fun r => ?_)
      cases r <;> trivial
  | testIntegration user id channelId throttled deliver =>
      exact tolerates_testIntegration user id channelId throttled deliver
  | connect input service =>
      refine ⟨similar_of_same fun _ _ h => h, fun r => ?_, trivial⟩
      cases r <;> trivial
  | pass tenantId plan => exact tolerates_pass tenantId plan
  | retried tenantId jobs =>
      refine tolerates_queryOr (fun _ _ h => h) fun integrations => ?_
      exact tolerates_deliveries tenantId integrations jobs

/-! ### The rows of a tenant -/

/-- The tables with the rows of a tenant only; of the ids some were given out. -/
def Store.only (A : Uuid) (issued : List (Uuid × Uuid)) (s : Store) : Store :=
  { now := s.now, alertRules := s.rulesOf A, alertSilences := s.silencesOf A,
    alertHistory := s.historyOf A, integrations := s.integrationsOf A, issued }

/-- The tables with the other tenants there, and without them. -/
def Alone (A : Uuid) (s s' : Store) : Prop := ∃ issued ⊆ s.issued, s' = s.only A issued

section Lists

variable {β : Type} (tenant : β → Uuid) {A : Uuid} {rows : List β}

theorem filter_map_own {f : β → β} (hf : ∀ x, tenant (f x) = tenant x) :
    (rows.map f).filter (tenant · == A) = (rows.filter (tenant · == A)).map f := by
  rw [List.filter_map]
  congr 2
  funext x
  simp only [Function.comp_apply, hf]

theorem filter_map_other {f : β → β} (hf : ∀ x, tenant (f x) = tenant x)
    (hsame : ∀ x ∈ rows, tenant x = A → f x = x) :
    (rows.map f).filter (tenant · == A) = rows.filter (tenant · == A) := by
  rw [filter_map_own tenant hf]
  calc (rows.filter (tenant · == A)).map f
      = (rows.filter (tenant · == A)).map id := by
        refine List.map_congr_left fun x hx => ?_
        obtain ⟨hmem, htenant⟩ := List.mem_filter.1 hx
        exact hsame x hmem (eq_of_beq htenant)
    _ = rows.filter (tenant · == A) := List.map_id _

theorem filter_filter_other {q : β → Bool} (hkept : ∀ x ∈ rows, tenant x = A → q x = true) :
    (rows.filter q).filter (tenant · == A) = rows.filter (tenant · == A) := by
  rw [List.filter_filter]
  refine List.filter_congr fun x hx => ?_
  by_cases htenant : tenant x = A
  · simp [htenant, hkept x hx htenant]
  · simp [htenant]

theorem filter_append_own {r : β} (hr : tenant r = A) :
    (rows ++ [r]).filter (tenant · == A) = rows.filter (tenant · == A) ++ [r] := by
  simp [hr]

theorem filter_append_other {r : β} (hr : tenant r ≠ A) :
    (rows ++ [r]).filter (tenant · == A) = rows.filter (tenant · == A) := by
  simp [hr]

theorem filter_own_own :
    (rows.filter (tenant · == A)).filter (tenant · == A) = rows.filter (tenant · == A) := by
  simp

omit tenant in
theorem find?_filter_of_imp {p q : β → Bool} (h : ∀ x ∈ rows, p x = true → q x = true) :
    (rows.filter q).find? p = rows.find? p := by
  induction rows with
  | nil => rfl
  | cons x rest ih =>
      have hrest := ih fun y hy => h y (List.mem_cons_of_mem _ hy)
      by_cases hp : p x = true
      · rw [List.filter_cons_of_pos (h x List.mem_cons_self hp), List.find?_cons_of_pos hp,
          List.find?_cons_of_pos hp]
      · rw [List.find?_cons_of_neg hp, ← hrest]
        by_cases hq : q x = true
        · rw [List.filter_cons_of_pos hq, List.find?_cons_of_neg hp]
        · rw [List.filter_cons_of_neg hq]

end Lists

/-! ### Tables -/

/-- A table of the store, and whose its rows are. -/
structure Table (β : Type) where
  rows : Store → List β
  write : Store → List β → Store
  tenant : β → Uuid
  write_rows : ∀ s, write s (rows s) = s
  issued_write : ∀ s new, (write s new).issued = s.issued
  rows_only : ∀ A issued s, rows (s.only A issued) = (rows s).filter (tenant · == A)
  only_write : ∀ A issued s new,
    (write s new).only A issued = write (s.only A issued) (new.filter (tenant · == A))

def ruleTable : Table RuleRow where
  rows s := s.alertRules
  write s alertRules := { s with alertRules }
  tenant r := r.tenantId
  write_rows _ := rfl
  issued_write _ _ := rfl
  rows_only _ _ _ := rfl
  only_write _ _ _ _ := rfl

def silenceTable : Table SilenceRow where
  rows s := s.alertSilences
  write s alertSilences := { s with alertSilences }
  tenant r := r.tenantId
  write_rows _ := rfl
  issued_write _ _ := rfl
  rows_only _ _ _ := rfl
  only_write _ _ _ _ := rfl

def historyTable : Table AlertHistoryRow where
  rows s := s.alertHistory
  write s alertHistory := { s with alertHistory }
  tenant r := r.tenantId
  write_rows _ := rfl
  issued_write _ _ := rfl
  rows_only _ _ _ := rfl
  only_write _ _ _ _ := rfl

def integrationTable : Table IntegrationRow where
  rows s := s.integrations
  write s integrations := { s with integrations }
  tenant r := r.tenantId
  write_rows _ := rfl
  issued_write _ _ := rfl
  rows_only _ _ _ := rfl
  only_write _ _ _ _ := rfl

namespace Table

variable {β : Type} (T : Table β) {A : Uuid} {issued : List (Uuid × Uuid)} {s : Store}

/-- A row that changes stays with its tenant. -/
theorem alone_map (hissued : issued ⊆ s.issued) {f : β → β}
    (hf : ∀ r, T.tenant (f r) = T.tenant r) :
    Alone A (T.write s ((T.rows s).map f))
      (T.write (s.only A issued) ((T.rows (s.only A issued)).map f)) := by
  refine ⟨issued, T.issued_write s _ ▸ hissued, ?_⟩
  rw [T.only_write, filter_map_own T.tenant hf, T.rows_only]

theorem alone_filter (hissued : issued ⊆ s.issued) (q : β → Bool) :
    Alone A (T.write s ((T.rows s).filter q))
      (T.write (s.only A issued) ((T.rows (s.only A issued)).filter q)) := by
  refine ⟨issued, T.issued_write s _ ▸ hissued, ?_⟩
  rw [T.only_write, T.rows_only, List.filter_comm]

theorem only_append {r : β} (hr : T.tenant r = A) (s : Store) (issued : List (Uuid × Uuid)) :
    T.write (s.only A issued) (T.rows (s.only A issued) ++ [r]) =
      (T.write s (T.rows s ++ [r])).only A issued := by
  rw [T.only_write, T.rows_only, filter_append_own T.tenant hr]

theorem only_map {f : β → β} (hf : ∀ r, T.tenant (f r) = T.tenant r)
    (hsame : ∀ r ∈ T.rows s, T.tenant r = A → f r = r) :
    (T.write s ((T.rows s).map f)).only A issued = s.only A issued := by
  rw [T.only_write, filter_map_other T.tenant hf hsame, ← T.rows_only, T.write_rows]

theorem only_filter {q : β → Bool} (hkept : ∀ r ∈ T.rows s, T.tenant r = A → q r = true) :
    (T.write s ((T.rows s).filter q)).only A issued = s.only A issued := by
  rw [T.only_write, filter_filter_other T.tenant hkept, ← T.rows_only, T.write_rows]

theorem only_append_other {r : β} {B : Uuid} (hr : T.tenant r = B) (hne : B ≠ A) :
    (T.write s (T.rows s ++ [r])).only A issued = s.only A issued := by
  rw [T.only_write, filter_append_other T.tenant (hr ▸ hne), ← T.rows_only, T.write_rows]

end Table

section Rows

variable {A : Uuid} {issued : List (Uuid × Uuid)} {s : Store}

@[simp] theorem rulesOf_only : (s.only A issued).rulesOf A = s.rulesOf A := filter_own_own _

@[simp] theorem silencesOf_only : (s.only A issued).silencesOf A = s.silencesOf A :=
  filter_own_own _

@[simp] theorem historyOf_only : (s.only A issued).historyOf A = s.historyOf A := filter_own_own _

@[simp] theorem integrationsOf_only : (s.only A issued).integrationsOf A = s.integrationsOf A :=
  filter_own_own _

/-- Two stores with the same rows of the tenant. -/
theorem only_congr {s₁ : Store} (hnow : s₁.now = s.now) (hrules : s₁.rulesOf A = s.rulesOf A)
    (hsilences : s₁.silencesOf A = s.silencesOf A) (hhistory : s₁.historyOf A = s.historyOf A)
    (hintegrations : s₁.integrationsOf A = s.integrationsOf A) :
    s₁.only A issued = s.only A issued := by
  simp only [Store.only, hnow, hrules, hsilences, hhistory, hintegrations]

/-- The rules of a tenant are all of its id. -/
theorem Sound.rule_tenant (h : Sound s) {r : RuleRow} (hr : r ∈ s.alertRules) {t : Uuid}
    (ht : (r.id, t) ∈ s.issued) : r.tenantId = t := h.unique r.id _ _ (h.rules r hr) ht

theorem Sound.hasRule_only (h : Sound s) {id : Uuid} (hid : (id, A) ∈ s.issued) :
    (s.only A issued).hasRule id = s.hasRule id := by
  rw [Bool.eq_iff_iff]
  simp only [Store.hasRule, Store.only, Store.rulesOf, List.any_eq_true, List.mem_filter,
    beq_iff_eq]
  constructor
  · rintro ⟨r, ⟨hmem, -⟩, heq⟩
    exact ⟨r, hmem, heq⟩
  · rintro ⟨r, hmem, rfl⟩
    exact ⟨r, ⟨hmem, h.rule_tenant hmem hid⟩, rfl⟩

/-- A rule that is looked up by its id, and whose it is. -/
theorem Sound.agree_getAlertRule (h : Sound s) (id : Uuid) :
    Agree A (.getAlertRule id) (s.alertRules.find? (·.id == id))
      ((s.only A issued).alertRules.find? (·.id == id)) := by
  have hfind : (s.only A issued).alertRules.find? (·.id == id) =
      s.alertRules.find? fun r => decide ((r.tenantId == A) = true ∧ (r.id == id) = true) :=
    List.find?_filter
  cases hrule : s.alertRules.find? (·.id == id) with
  | none =>
      left
      rw [hfind, eq_comm, List.find?_eq_none]
      intro r hr hboth
      exact List.find?_eq_none.1 hrule r hr (of_decide_eq_true hboth).2
  | some rule =>
      have hid : rule.id = id := eq_of_beq (by simpa using List.find?_some hrule)
      have hknown := h.rules rule (List.mem_of_find?_eq_some hrule)
      -- an id is of one tenant, so that the lookup finds this rule or none
      have hothers : ∀ r ∈ s.alertRules, (r.id == id) = true → r.tenantId = rule.tenantId :=
        fun r hr heq => h.rule_tenant hr (eq_of_beq heq ▸ hid ▸ hknown)
      by_cases htenant : rule.tenantId = A
      · left
        rw [← hrule]
        refine (find?_filter_of_imp fun r hr heq => ?_).symm
        exact beq_iff_eq.2 ((hothers r hr heq).trans htenant)
      · refine .inr ⟨rule, rfl, htenant, ?_⟩
        rw [hfind, List.find?_eq_none]
        intro r hr hboth
        obtain ⟨hown, heq⟩ := of_decide_eq_true hboth
        exact htenant ((hothers r hr heq).symm.trans (eq_of_beq hown))

end Rows

/-! ### The own statements -/

section Own

variable {A : Uuid} {issued : List (Uuid × Uuid)} {s : Store}

/-- An insert does the same in both, for an id that is new in the first. -/
theorem alone_insert {β : Type} (env : Env) {id : Uuid} (hid : id ∉ s.issued.map Prod.fst)
    (hissued : issued ⊆ s.issued) {row : Option β} {put : β → Store → Store}
    (hput : ∀ r, row = some r → ∀ (s : Store) issued, put r (s.only A issued) =
      (put r s).only A issued) (hputIssued : ∀ r s, (put r s).issued = s.issued) :
    Alone A (s.insert env id A row put).1 ((s.only A issued).insert env id A row put).1 ∧
      (s.insert env id A row put).2 = ((s.only A issued).insert env id A row put).2 := by
  -- what is new to all is new to the tenant
  have hid' : id ∉ (s.only A issued).issued.map Prod.fst := fun hmem => by
    obtain ⟨x, hx, rfl⟩ := List.mem_map.1 hmem
    exact hid (List.mem_map_of_mem (hissued hx))
  cases row with
  | none => exact ⟨⟨issued, hissued, rfl⟩, rfl⟩
  | some r =>
      simp only [Store.insert, Store.draw, if_neg (mt List.contains_iff_mem.1 hid),
        if_neg (mt List.contains_iff_mem.1 hid'), and_true]
      refine ⟨(id, A) :: issued, ?_, ?_⟩
      · rw [hputIssued]
        exact List.cons_subset_cons _ hissued
      · rw [← hput r rfl]
        rfl

theorem alone_updateRule (env : Env) (hissued : issued ⊆ s.issued) (id : Uuid)
    (input : UpdateRule) :
    Alone A (s.updateRule env A id input).1 ((s.only A issued).updateRule env A id input).1 ∧
      (s.updateRule env A id input).2 = ((s.only A issued).updateRule env A id input).2 := by
  have hnow : (s.only A issued).now = s.now := rfl
  simp only [Store.updateRule, rulesOf_only, hnow]
  cases hset : input.set s.now with
  | none => exact ⟨⟨issued, hissued, rfl⟩, rfl⟩
  | some set =>
      cases (s.rulesOf A).find? (·.id == id) with
      | none => exact ⟨⟨issued, hissued, rfl⟩, rfl⟩
      | some row =>
          refine ⟨ruleTable.alone_map hissued fun r => ?_, rfl⟩
          split
          · exact (UpdateRule.set_eq_some hset r).2
          · rfl

theorem alone_deleteRule (hissued : issued ⊆ s.issued) (id : Uuid) :
    Alone A (s.deleteRule A id) ((s.only A issued).deleteRule A id) := by
  simp only [Store.deleteRule, rulesOf_only]
  split
  · refine ⟨issued, hissued, ?_⟩
    simp only [Store.only, Store.rulesOf, Store.silencesOf, Store.historyOf, Store.integrationsOf]
    congr 1 <;> exact List.filter_comm _ _ _
  · exact ⟨issued, hissued, rfl⟩

theorem alone_upsert (env : Env) {id : Uuid} (hid : id ∉ s.issued.map Prod.fst)
    (hissued : issued ⊆ s.issued) {input : NewIntegration} (hinput : input.tenantId = A)
    (service : Service) :
    Alone A (s.upsert env input service id).1 ((s.only A issued).upsert env input service id).1 ∧
      (s.upsert env input service id).2 = ((s.only A issued).upsert env input service id).2 := by
  have hnow : (s.only A issued).now = s.now := rfl
  simp only [Store.upsert, hinput, integrationsOf_only, hnow]
  cases hrow : input.row id s.now with
  | none => exact ⟨⟨issued, hissued, rfl⟩, rfl⟩
  | some row =>
      cases (s.integrationsOf A).find? (input.conflicts service) with
      | none =>
          refine alone_insert env hid hissued (fun r hr => ?_) fun _ _ => rfl
          cases hr
          exact integrationTable.only_append ((NewIntegration.row_eq_some hrow).trans hinput)
      | some old =>
          refine ⟨integrationTable.alone_map hissued fun i => ?_, rfl⟩
          split <;> rfl

end Own

/-- **An own statement** does and says the same without the others. -/
theorem exec_own (env : Env) {A : Uuid} {s s' : Store} (h : Sound s) {op : Op} {id : Uuid}
    (hid : id ∉ s.issued.map Prod.fst) (hpre : op.Of A s.known) (halone : Alone A s s') :
    Alone A (exec env op id s).1 (exec env op id s').1 ∧
      Agree A op (exec env op id s).2 (exec env op id s').2 := by
  obtain ⟨issued, hissued, rfl⟩ := halone
  have hsame : Alone A s (s.only A issued) := ⟨issued, hissued, rfl⟩
  cases op with
  | clock => exact ⟨hsame, rfl⟩
  | createAlertRule tenantId input =>
      obtain rfl : tenantId = A := hpre
      refine alone_insert env hid hissued (fun r hrow => ?_) fun _ _ => rfl
      exact ruleTable.only_append (CreateRule.row_eq_some hrow).2
  | getAlertRule ruleId => exact ⟨hsame, h.agree_getAlertRule ruleId⟩
  | listAlertRules tenantId =>
      obtain rfl : tenantId = A := hpre
      exact ⟨hsame, by simp only [exec, Agree, rulesOf_only]⟩
  | listEnabledAlertRules tenantId =>
      obtain rfl : tenantId = A := hpre
      exact ⟨hsame, by simp only [exec, Agree, rulesOf_only]⟩
  | updateAlertRule tenantId ruleId input =>
      obtain rfl : tenantId = A := hpre
      exact alone_updateRule env hissued ruleId input
  | deleteAlertRule tenantId ruleId =>
      obtain rfl : tenantId = A := hpre
      exact ⟨alone_deleteRule hissued ruleId, rfl⟩
  | insertHistory input =>
      obtain ⟨rfl, hknown⟩ := hpre
      -- the foreign key sees the same rule
      simp only [exec, h.hasRule_only hknown]
      split
      · refine alone_insert env hid hissued (fun r hrow => ?_) fun _ _ => rfl
        exact historyTable.only_append (NewHistory.row_eq_some hrow).1
      · exact ⟨hsame, rfl⟩
  | touchRule ruleId =>
      refine ⟨ruleTable.alone_map hissued fun r => ?_, rfl⟩
      split <;> rfl
  | listOpenAlerts tenantId =>
      obtain rfl : tenantId = A := hpre
      exact ⟨hsame, by simp only [exec, Agree, Store.openAlerts, historyOf_only]⟩
  | resolveAlertsForRule tenantId ruleId =>
      refine ⟨historyTable.alone_map hissued fun x => ?_, rfl⟩
      split <;> rfl
  | updateDeliveryStatus tenantId historyId key status =>
      refine ⟨historyTable.alone_map hissued fun x => ?_, rfl⟩
      split <;> rfl
  | countAlertHistory tenantId =>
      obtain rfl : tenantId = A := hpre
      exact ⟨hsame, by simp only [exec, Agree, historyOf_only]⟩
  | listAlertHistory tenantId limit offset =>
      obtain rfl : tenantId = A := hpre
      exact ⟨hsame, by simp only [exec, Agree, historyOf_only]⟩
  | createSilence input =>
      obtain ⟨rfl, hknown⟩ := hpre
      have hall : input.ruleId.all (s.only input.tenantId issued).hasRule =
          input.ruleId.all s.hasRule := by
        cases hrule : input.ruleId with
        | none => rfl
        | some ruleId => exact h.hasRule_only (hknown ruleId hrule)
      simp only [exec, hall]
      split
      · refine alone_insert env hid hissued (fun r hrow => ?_) fun _ _ => rfl
        exact silenceTable.only_append (NewSilence.row_eq_some hrow).1
      · exact ⟨hsame, rfl⟩
  | listActiveSilences tenantId =>
      obtain rfl : tenantId = A := hpre
      refine ⟨hsame, ?_⟩
      simp only [exec, Agree, silencesOf_only]
      rfl
  | listSilences tenantId limit =>
      obtain rfl : tenantId = A := hpre
      exact ⟨hsame, by simp only [exec, Agree, silencesOf_only]⟩
  | expireSilence tenantId silenceId =>
      obtain rfl : tenantId = A := hpre
      refine ⟨silenceTable.alone_map hissued fun x => ?_, ?_⟩
      · split <;> rfl
      · simp only [exec, Agree, silencesOf_only]
        rfl
  | listIntegrations tenantId =>
      obtain rfl : tenantId = A := hpre
      exact ⟨hsame, by simp only [exec, Agree, integrationsOf_only]⟩
  | getIntegration tenantId integrationId =>
      obtain rfl : tenantId = A := hpre
      exact ⟨hsame, by simp only [exec, Agree, integrationsOf_only]⟩
  | upsertOnConfigKey input service => exact alone_upsert env hid hissued hpre service
  | setIntegrationStatus tenantId integrationId status =>
      refine ⟨integrationTable.alone_map hissued fun x => ?_, rfl⟩
      split <;> rfl
  | deleteIntegration tenantId integrationId =>
      obtain rfl : tenantId = A := hpre
      refine ⟨integrationTable.alone_filter hissued _, ?_⟩
      simp only [exec, Agree, integrationsOf_only]

/-! ### The statements of the others -/

section Others

variable {A : Uuid} {issued : List (Uuid × Uuid)} {s : Store}

theorem only_insert {β : Type} (env : Env) {id tenantId : Uuid} {row : Option β}
    {put : β → Store → Store}
    (hput : ∀ r, row = some r → ∀ s : Store, (put r s).only A issued = s.only A issued) :
    (s.insert env id tenantId row put).1.only A issued = s.only A issued := by
  rcases insert_cases env id tenantId row put s with ⟨e, heq⟩ | ⟨r, hrow, -, heq⟩
  · rw [heq]
  · rw [heq]
    exact hput r hrow _

/-- What refers to a rule of a tenant is of the tenant. -/
theorem Sound.deleteRule_only (h : Sound s) {B : Uuid} (hne : B ≠ A) (id : Uuid) :
    (s.deleteRule B id).only A issued = s.only A issued := by
  unfold Store.deleteRule
  split
  · rename_i hany
    obtain ⟨rule, hrule, hid⟩ := List.any_eq_true.1 hany
    obtain ⟨hmem, htenant⟩ := List.mem_filter.1 hrule
    have hknown : (id, B) ∈ s.issued := by
      rw [← eq_of_beq hid, ← eq_of_beq htenant]
      exact h.rules rule hmem
    -- the cascade goes by the rule alone, and the rule is of the other tenant
    have hnot : ∀ t, (id, t) ∈ s.issued → t ≠ A := fun t ht heq =>
      hne ((h.unique id _ _ hknown ht).trans heq)
    refine only_congr rfl ?_ ?_ ?_ rfl
    · refine filter_filter_other (fun r : RuleRow => r.tenantId) fun r _ hr => ?_
      simp [hr, hne.symm]
    · refine filter_filter_other (fun r : SilenceRow => r.tenantId) fun x hx htenant => ?_
      refine bne_iff_ne.2 fun hruleId => hnot _ (h.silences x hx id hruleId) htenant
    · refine filter_filter_other (fun r : AlertHistoryRow => r.tenantId) fun x hx htenant => ?_
      exact bne_iff_ne.2 fun hruleId => hnot _ (hruleId ▸ h.history x hx) htenant
  · rfl

end Others

/-- **A statement of another tenant** leaves the rows of the tenant. -/
theorem only_exec (env : Env) {A B : Uuid} (hne : B ≠ A) {s : Store} (h : Sound s) (op : Op)
    (id : Uuid) (hpre : op.Of B s.known) (issued : List (Uuid × Uuid)) :
    (exec env op id s).1.only A issued = s.only A issued := by
  cases op with
  | createAlertRule tenantId input =>
      obtain rfl : tenantId = B := hpre
      refine only_insert env fun r hrow s => ?_
      exact ruleTable.only_append_other (CreateRule.row_eq_some hrow).2 hne
  | updateAlertRule tenantId ruleId input =>
      obtain rfl : tenantId = B := hpre
      rcases updateRule_cases env tenantId ruleId input s with ⟨e, heq⟩ | ⟨set, row, hset, heq⟩
      · rw [exec, heq]
      · rw [exec, heq]
        refine ruleTable.only_map (fun r => ?_) fun r _ hr => ?_
        · split
          · exact (UpdateRule.set_eq_some hset r).2
          · rfl
        · exact if_neg fun hboth => hne (hboth.2.symm.trans hr)
  | deleteAlertRule tenantId ruleId =>
      obtain rfl : tenantId = B := hpre
      exact h.deleteRule_only hne ruleId
  | insertHistory input =>
      rw [exec]
      split
      · refine only_insert env fun r hrow s => ?_
        exact historyTable.only_append_other ((NewHistory.row_eq_some hrow).1.trans hpre.1) hne
      · rfl
  | touchRule ruleId =>
      refine ruleTable.only_map (fun r => ?_) fun r hr htenant => if_neg fun hid => ?_
      · split <;> rfl
      · exact hne ((h.rule_tenant hr (hid ▸ hpre)).symm.trans htenant)
  | resolveAlertsForRule tenantId ruleId =>
      obtain rfl : tenantId = B := hpre
      refine historyTable.only_map (fun x => ?_) fun x _ htenant => if_neg fun hopen => ?_
      · split <;> rfl
      · simp only [AlertHistoryRow.isOpenFor, Bool.and_eq_true, beq_iff_eq] at hopen
        exact hne (hopen.1.1.symm.trans htenant)
  | updateDeliveryStatus tenantId historyId key status =>
      obtain rfl : tenantId = B := hpre
      refine historyTable.only_map (fun x => ?_) fun x _ htenant => if_neg fun hboth => ?_
      · split <;> rfl
      · exact hne (hboth.1.symm.trans htenant)
  | createSilence input =>
      rw [exec]
      split
      · refine only_insert env fun r hrow s => ?_
        exact silenceTable.only_append_other ((NewSilence.row_eq_some hrow).1.trans hpre.1) hne
      · rfl
  | expireSilence tenantId silenceId =>
      obtain rfl : tenantId = B := hpre
      refine silenceTable.only_map (fun x => ?_) fun x _ htenant => if_neg fun hexpires => ?_
      · split <;> rfl
      · simp only [Store.expires, Bool.and_eq_true, beq_iff_eq] at hexpires
        exact hne (hexpires.1.1.symm.trans htenant)
  | upsertOnConfigKey input service =>
      rcases upsert_cases env input service id s with ⟨e, heq⟩ | ⟨row, hrow, heq⟩ | ⟨row, r, heq⟩
      · rw [exec, heq]
      · rw [exec, heq]
        refine only_insert env fun r hr s => ?_
        cases hr
        exact integrationTable.only_append_other ((NewIntegration.row_eq_some hrow).trans hpre) hne
      · rw [exec, heq]
        refine integrationTable.only_map (fun i => ?_) fun i _ htenant => if_neg fun hconflict => ?_
        · split <;> rfl
        · simp only [NewIntegration.conflicts, Bool.and_eq_true, beq_iff_eq] at hconflict
          exact hne ((hconflict.1.1.1.1.trans hpre).symm.trans htenant)
  | setIntegrationStatus tenantId integrationId status =>
      obtain rfl : tenantId = B := hpre
      refine integrationTable.only_map (fun i => ?_) fun i _ htenant => if_neg fun hboth => ?_
      · split <;> rfl
      · exact hne (hboth.2.symm.trans htenant)
  | deleteIntegration tenantId integrationId =>
      obtain rfl : tenantId = B := hpre
      refine integrationTable.only_filter fun i _ htenant => ?_
      rw [show i.tenantId = A from htenant]
      simp [hne.symm]
  | _ => rfl

/-! ### Runs -/

/-- Whether a request is of a tenant. -/
def ownedBy (A : Uuid) (request : Request) : Bool := request.tenantId == A

/-- The id was not given out yet. -/
def Fresh (id : Uuid) (s : Store) : Prop := id ∉ s.issued.map Prod.fst

theorem sound_start : Sound Store.empty :=
  ⟨fun _ _ _ h => absurd h List.not_mem_nil, fun _ h => absurd h List.not_mem_nil,
    fun _ h => absurd h List.not_mem_nil, fun _ h => absurd h List.not_mem_nil⟩

theorem unwinding (env : Env) (A : Uuid) :
    Unwinding (machine env) (ownedBy A) (fun r => contract r.tenantId) Store.known Sound Fresh
      (Alone A) (Agree A) SameAnswer where
  stable r := contract_stable r.tenantId
  honest r _ hs := honest_exec env r.tenantId hs
  exec _ op id _ hs hpre := sound_exec env hs op id hpre
  world _ _ hs := ⟨⟨hs.unique, hs.rules, hs.silences, hs.history⟩, le_rfl⟩
  keeps r w := keeps_program env r w
  tolerates r hr := eq_of_beq hr ▸ tolerates_program env r
  ownStep r _ _ _ _ hr hs hfresh hpre halone := by
    obtain rfl : r.tenantId = A := eq_of_beq hr
    exact exec_own env hs hfresh hpre halone
  otherStep r op id s _ hr hs _ hpre halone := by
    obtain ⟨issued, hissued, rfl⟩ := halone
    refine ⟨issued, List.Subset.trans hissued (issued_exec env op id s), ?_⟩
    exact (only_exec env (beq_eq_false_iff_ne.1 hr) hs op id hpre issued).symm
  worldStep d _ _ halone := by
    obtain ⟨issued, hissued, rfl⟩ := halone
    exact ⟨issued, hissued, rfl⟩

/-- A request in progress. -/
abbrev Running := Thread Op Op.Reply (Except AppError Answer) Request

/-- The server after some inputs. -/
def after (env : Env) (inputs : List (Action Uuid Request Nat)) :
    Pool Op Op.Reply (Except AppError Answer) Request Store :=
  Runs.run (machine env).step start inputs

/-- **A tenant does not notice the others**: after any run its requests have come as far, and are
answered the same up to the text of a 404, as without the steps of the others, and its rows are
the rows that there are then. -/
theorem secluded (env : Env) (A : Uuid) (inputs : List (Action Uuid Request Nat))
    (hfresh : AllSteps (machine env).step (Draws Fresh) start inputs) :
    Alone A (after env inputs).state (after env (alone (ownedBy A) [] inputs)).state ∧
      ∀ (i : Nat) (t : Running), (after env inputs).threads[i]? = some t → t.request.tenantId = A →
        ∃ t' : Running, (after env (alone (ownedBy A) [] inputs)).threads[i]? = some t' ∧
          t'.request = t.request ∧ Similar SameAnswer t.program t'.program := by
  have hcontract : Pool.UnderContract (fun r => contract r.tenantId) Store.known Sound start :=
    ⟨sound_start, fun _ h => absurd h List.not_mem_nil⟩
  have hstart : Pool.Alike (ownedBy A) (Alone A) (Agree A) SameAnswer start start :=
    ⟨⟨[], List.Subset.refl _, rfl⟩, rfl, fun _ _ _ h => by simp [start] at h⟩
  have hrun : (after env inputs).Alike (ownedBy A) (Alone A) (Agree A) SameAnswer
      (after env (alone (ownedBy A) [] inputs)) :=
    (unwinding env A).run_alone hcontract hstart inputs hfresh
  refine ⟨hrun.state, fun i t ht hown => ?_⟩
  obtain ⟨t', ht', hsame⟩ : ∃ t' : Running,
      (after env (alone (ownedBy A) [] inputs)).threads[i]? = some t' ∧
        t'.request = t.request := by
    have hrequest := congrArg (·[i]?) hrun.requests
    simpa [ht] using hrequest
  exact ⟨t', ht', hsame, (hrun.threads i t t' ht ht' (beq_iff_eq.2 hown)).2⟩

def plainEnv : Env :=
  { databaseError := "connection closed", rulesOrder := .stable _, historyOrder := .stable _,
    silencesOrder := .stable _, integrationsOrder := .stable _ }

def sampleAdmin (tenantId : Uuid) : CurrentUser :=
  { userId := 7, tenantId, email := "", roles := ["admin"], permissions := [] }

def sampleRule : CreateRule :=
  { name := "backlog", condition := .queueDepth 100 "celery", channels := [], cooldownSecs := none,
    severityOverride := none, description := none }

/-- Two tenants create a rule each, and the first looks up the rule of the second. -/
def sampleInputs : List (Action Uuid Request Nat) :=
  [.arrive (.createRule (sampleAdmin 1) sampleRule),
   .arrive (.createRule (sampleAdmin 2) sampleRule), .advance 1 .done 20, .advance 0 .done 10,
   .arrive (.getRule (sampleAdmin 1) 20), .advance 2 .done 30]

theorem draws_sampleInputs :
    AllSteps (machine plainEnv).step (Draws Fresh) start sampleInputs := by
  refine ⟨nofun, nofun, ?_, ?_, nofun, ?_, trivial⟩ <;> rintro i fate nonce ⟨⟩ <;>
    unfold Fresh <;> decide +kernel

/-- The answers differ in the text only. -/
theorem secluded_sampleInputs :
    Alone 1 (after plainEnv sampleInputs).state
        (after plainEnv (alone (ownedBy 1) [] sampleInputs)).state ∧
      (after plainEnv sampleInputs).threads[2]?.map (·.program) =
        some (refuse (.notFound "Alert rule not found")) ∧
      (after plainEnv (alone (ownedBy 1) [] sampleInputs)).threads[2]?.map (·.program) =
        some (refuse (.notFound "Resource not found")) :=
  ⟨(secluded plainEnv 1 sampleInputs draws_sampleInputs).1, rfl, rfl⟩

end Feloxi.Alerting.Requests
