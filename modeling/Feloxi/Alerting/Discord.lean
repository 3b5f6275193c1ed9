import Feloxi.Alerting.System
import Feloxi.Alerting.Texts
import Feloxi.Lib.JsonValues
import Feloxi.Lib.Text

/-!
# Feloxi.Alerting.Discord

The embed of a Discord message (`build_embed` in
`crates/alerting/src/channels/discord.rs`) and what Discord takes for one.

An embed is refused as a whole when one text is too long or missing. Every text is cut to its
limit; what stays open is that a text is not empty. Of the texts of an incident only the one that
the rule's condition is about can be (`buildEmbed_firedAlert_iff`).
-/

namespace Feloxi.Alerting

/-! ### The embed -/

def maxFields : Nat := 25
def maxTitle : Nat := 256
def maxDesc : Nat := 4096
def maxFieldValue : Nat := 1024
def maxFooter : Nat := 2048

/-- `truncate`. -/
def truncateText (s : String) (max : Nat) : String :=
  if s.length ≤ max then s else String.ofList (s.toList.take (max - 1)) ++ "…"

section Embed

variable (upper : Char → List Char) (floatText : F64 → JsonText.Numeral)

/-- `value_to_string`. -/
def valueToString : Json → String
  | .str s => s
  | other => other.display floatText

def embedField (name value : String) : Json :=
  .ofEntries [("name", .str name), ("value", .str value), ("inline", .bool true)]

/-- The field of one detail. -/
def detailField (detail : String × Json) : Json :=
  embedField (truncateText (snakeToTitle upper detail.1) maxTitle)
    (truncateText (valueToString floatText detail.2) maxFieldValue)

def detailFields : Json → List Json
  | .obj entries => (entries.take maxFields).map (detailField upper floatText)
  | _ => []

def embedFields (alert : FiredAlert) : List Json :=
  let fields := detailFields upper floatText alert.details
  match alert.conditionType with
  | some ct =>
    if fields.length < maxFields then fields ++ [embedField "Type" (truncateText ct maxFieldValue)]
    else fields
  | none => fields

/-- The text that stands for the summary. -/
def embedSummary (alert : FiredAlert) : String :=
  let s := String.ofList (trim alert.summary.toList)
  -- Description must be non-empty.
  if s = "" then alert.ruleName else s

def embedColor (severity : String) : Int :=
  match severity with
  | "critical" => 0xFF0000
  | "warning" => 0xFFA500
  | _ => 0x36A64F

def embedTitle (alert : FiredAlert) : String :=
  truncateText ("[" ++ toUppercase upper alert.severity ++ "] " ++ alert.ruleName) maxTitle

def embedFooter (tenant : AlertTenant) : Json :=
  .ofEntries [("text", .str (truncateText ("Feloxi Alert Engine • " ++ tenant.name) maxFooter))]

/-- The entries of an embed; `rfc3339` is the text of a moment, of the present one for a number
that is none. -/
def embedEntries (rfc3339 : Int → String) (alert : FiredAlert) (tenant : AlertTenant) :
    List (String × Json) := [
  ("title", .str (embedTitle upper alert)),
  ("description", .str (truncateText (embedSummary alert) maxDesc)),
  ("color", .int (embedColor alert.severity)),
  ("fields", .arr (embedFields upper floatText alert)),
  ("footer", embedFooter tenant),
  ("timestamp", .str (rfc3339 alert.firedAt.toI64))]

def buildEmbed (rfc3339 : Int → String) (alert : FiredAlert) (tenant : AlertTenant) : Json :=
  .ofEntries (embedEntries upper floatText rfc3339 alert tenant)

end Embed

/-! ### What Discord takes -/

/-- A text whose length is within two bounds. -/
def Within (lo hi : Nat) (text : Option Json) : Prop :=
  ∃ s, text = some (.str s) ∧ lo ≤ s.length ∧ s.length ≤ hi

structure FieldAccepted (field : Json) : Prop where
  name : Within 1 256 (field.get "name")
  value : Within 1 1024 (field.get "value")

structure EmbedAccepted (embed : Json) : Prop where
  title : Within 1 256 (embed.get "title")
  description : Within 1 4096 (embed.get "description")
  fields : ∃ fields, embed.get "fields" = some (.arr fields) ∧ fields.length ≤ 25 ∧
    ∀ field ∈ fields, FieldAccepted field
  footer : ∃ footer, embed.get "footer" = some footer ∧ Within 0 2048 (footer.get "text")

/-! ### Texts are cut to their limit -/

theorem within_str {lo hi : Nat} {s : String} :
    Within lo hi (some (.str s)) ↔ lo ≤ s.length ∧ s.length ≤ hi := by
  simp [Within]

theorem length_truncateText_le (s : String) {max : Nat} (hmax : 0 < max) :
    (truncateText s max).length ≤ max := by
  unfold truncateText
  split
  · assumption
  · rw [String.length_append, String.length_ofList, List.length_take]
    have hdots : "…".length = 1 := rfl
    omega

theorem truncateText_eq_empty {s : String} {max : Nat} : truncateText s max = "" ↔ s = "" := by
  unfold truncateText
  split
  · rfl
  · rename_i hlong
    have hs : s ≠ "" := by
      rintro rfl
      exact hlong (Nat.zero_le max)
    simp [hs]

/-- A text that is cut lacks nothing but a first character. -/
theorem within_truncateText {s : String} {max : Nat} (hmax : 0 < max) :
    Within 1 max (some (.str (truncateText s max))) ↔ s ≠ "" := by
  rw [within_str, and_iff_left (length_truncateText_le s hmax), Nat.one_le_iff_ne_zero, ne_eq,
    String.length_eq_zero_iff, truncateText_eq_empty]

section Accepted

variable {upper : Char → List Char} {floatText : F64 → JsonText.Numeral}

theorem valueToString_eq_empty {value : Json} : valueToString floatText value = "" ↔
    value = .str "" := by
  cases value with
  | str s => simp [valueToString]
  | null | bool | int | float | arr | obj =>
      simp [valueToString, Json.display_ne_empty]

theorem fieldAccepted_embedField {name value : String} :
    FieldAccepted (embedField name value) ↔
      Within 1 256 (some (.str name)) ∧ Within 1 1024 (some (.str value)) := by
  have hname : (embedField name value).get "name" = some (.str name) :=
    Json.get_ofEntries_of_mem (by simp) (e := ("name", .str name)) (by simp)
  have hvalue : (embedField name value).get "value" = some (.str value) :=
    Json.get_ofEntries_of_mem (by simp) (e := ("value", .str value)) (by simp)
  constructor
  · rintro ⟨h, h'⟩
    exact ⟨hname ▸ h, hvalue ▸ h'⟩
  · rintro ⟨h, h'⟩
    exact ⟨hname ▸ h, hvalue ▸ h'⟩

theorem fieldAccepted_detailField {detail : String × Json} :
    FieldAccepted (detailField upper floatText detail) ↔
      snakeToTitle upper detail.1 ≠ "" ∧ detail.2 ≠ .str "" := by
  rw [detailField, fieldAccepted_embedField]
  refine and_congr (within_truncateText (by decide)) ?_
  exact (within_truncateText (by decide)).trans valueToString_eq_empty.not

/-- The key and the value of a detail have a text. -/
def Legible (upper : Char → List Char) (detail : String × Json) : Prop :=
  snakeToTitle upper detail.1 ≠ "" ∧ detail.2 ≠ .str ""

/-- The details that become fields. -/
def shownDetails : Json → List (String × Json)
  | .obj entries => entries.take maxFields
  | _ => []

theorem detailFields_eq (details : Json) : detailFields upper floatText details =
    (shownDetails details).map (detailField upper floatText) := by
  cases details <;> rfl

theorem length_shownDetails_le (details : Json) : (shownDetails details).length ≤ maxFields := by
  cases details with
  | obj entries => exact List.length_take_le maxFields entries
  | null | bool | int | float | str | arr => exact Nat.zero_le _

/-- The fields are never too many, and each text of theirs is only missing if it is empty. -/
theorem embedFields_accepted_iff (alert : FiredAlert) :
    ((embedFields upper floatText alert).length ≤ 25 ∧
        ∀ field ∈ embedFields upper floatText alert, FieldAccepted field) ↔
      (∀ detail ∈ shownDetails alert.details, Legible upper detail) ∧
        ((shownDetails alert.details).length < maxFields → alert.conditionType ≠ some "") := by
  have hlength : (shownDetails alert.details).length ≤ 25 := length_shownDetails_le alert.details
  have hdetail : (∀ field ∈ (shownDetails alert.details).map (detailField upper floatText),
      FieldAccepted field) ↔ ∀ detail ∈ shownDetails alert.details, Legible upper detail := by
    simp only [List.forall_mem_map, fieldAccepted_detailField, Legible]
  have htype : ∀ ct, FieldAccepted (embedField "Type" (truncateText ct maxFieldValue)) ↔
      ct ≠ "" := by
    intro ct
    rw [fieldAccepted_embedField, within_str, and_iff_right (by decide)]
    exact within_truncateText (by decide)
  rw [embedFields, detailFields_eq]
  simp only [List.length_map]
  cases alert.conditionType with
  | none =>
      rw [hdetail, List.length_map, and_iff_right hlength]
      exact ⟨fun h => ⟨h, fun _ => nofun⟩, And.left⟩
  | some ct =>
      by_cases hroom : (shownDetails alert.details).length < maxFields
      · have hfit : (shownDetails alert.details).length + 1 ≤ 25 := hroom
        simp only [if_pos hroom, List.length_append, List.length_map, List.length_singleton,
          List.forall_mem_append, List.forall_mem_singleton]
        rw [hdetail, htype, and_iff_right hfit]
        simp [hroom]
      · simp only [if_neg hroom, List.length_map]
        rw [hdetail, and_iff_right hlength]
        exact ⟨fun h => ⟨h, fun h' => absurd h' hroom⟩, And.left⟩

theorem get_buildEmbed {rfc3339 : Int → String} {alert : FiredAlert} {tenant : AlertTenant}
    {key : String} {value : Json}
    (h : (key, value) ∈ embedEntries upper floatText rfc3339 alert tenant) :
    (buildEmbed upper floatText rfc3339 alert tenant).get key = some value :=
  Json.get_ofEntries_of_mem (by simp [embedEntries]) h

theorem get_embedFooter (tenant : AlertTenant) : (embedFooter tenant).get "text" =
    some (.str (truncateText ("Feloxi Alert Engine • " ++ tenant.name) maxFooter)) :=
  Json.get_ofEntries_of_mem (e := ("text", _)) (by simp) List.mem_cons_self

/-- **When an embed is taken**: the description, the details shown and the type have a text. -/
theorem buildEmbed_accepted_iff (rfc3339 : Int → String) (alert : FiredAlert)
    (tenant : AlertTenant) :
    EmbedAccepted (buildEmbed upper floatText rfc3339 alert tenant) ↔
      embedSummary alert ≠ "" ∧ (∀ detail ∈ shownDetails alert.details, Legible upper detail) ∧
        ((shownDetails alert.details).length < maxFields → alert.conditionType ≠ some "") := by
  have htitle : (buildEmbed upper floatText rfc3339 alert tenant).get "title" = some
      (.str (embedTitle upper alert)) := get_buildEmbed (by simp [embedEntries])
  have hdescription : (buildEmbed upper floatText rfc3339 alert tenant).get "description" =
      some (.str (truncateText (embedSummary alert) maxDesc)) :=
    get_buildEmbed (by simp [embedEntries])
  have hfields : (buildEmbed upper floatText rfc3339 alert tenant).get "fields" =
      some (.arr (embedFields upper floatText alert)) := get_buildEmbed (by simp [embedEntries])
  have hfooter : (buildEmbed upper floatText rfc3339 alert tenant).get "footer" =
      some (embedFooter tenant) := get_buildEmbed (by simp [embedEntries])
  rw [← @embedFields_accepted_iff upper floatText]
  constructor
  · intro h
    obtain ⟨fields, hget, hlength, haccepted⟩ := h.fields
    rw [hfields, Option.some.injEq, Json.arr.injEq] at hget
    subst hget
    refine ⟨?_, hlength, haccepted⟩
    exact (within_truncateText (by decide)).1 (hdescription ▸ h.description)
  · rintro ⟨hsummary, hlength, haccepted⟩
    refine ⟨?_, ?_, ⟨_, hfields, hlength, haccepted⟩, ⟨_, hfooter, ?_⟩⟩
    · rw [htitle]
      exact (within_truncateText (by decide)).2 (by simp)
    · rw [hdescription]
      exact (within_truncateText (by decide)).2 hsummary
    · rw [get_embedFooter, within_str]
      exact ⟨Nat.zero_le _, length_truncateText_le _ (by decide)⟩

end Accepted

/-! ### The embed of an incident -/

/-- What the rule is about, by name. -/
def AlertCondition.subject : AlertCondition → Option String
  | .queueDepth _ queue => some queue
  | .beatMissed scheduleName => some scheduleName
  | condition => taskPattern condition

/-- A text with a visible character is not trimmed away. -/
theorem trim_ne_nil {s : List Char} {c : Char} (hc : c ∈ s)
    (hvisible : Feloxi.isWhiteSpace c = false) : trim s ≠ [] := by
  intro h
  have hdrop : ∀ {l : List Char}, c ∈ l → c ∈ l.dropWhile Feloxi.isWhiteSpace := by
    intro l hl
    rw [← List.takeWhile_append_dropWhile (p := Feloxi.isWhiteSpace) (l := l),
      List.mem_append] at hl
    refine hl.resolve_left fun htake => ?_
    rw [List.all_eq_true.1 List.all_takeWhile c htake] at hvisible
    cases hvisible
  have hmem : c ∈ trim s := List.mem_reverse.2 (hdrop (List.mem_reverse.2 (hdrop hc)))
  rw [h] at hmem
  cases hmem

/-- A text with a character that is no space. -/
def Visible (s : String) : Prop := ∃ c ∈ s.toList, Feloxi.isWhiteSpace c = false

theorem Visible.append {s : String} (h : Visible s) (t : String) : Visible (s ++ t) := by
  obtain ⟨c, hc, hvisible⟩ := h
  exact ⟨c, by rw [String.toList_append]; exact List.mem_append_left _ hc, hvisible⟩

theorem Visible.after {t : String} (h : Visible t) (s : String) : Visible (s ++ t) := by
  obtain ⟨c, hc, hvisible⟩ := h
  exact ⟨c, by rw [String.toList_append]; exact List.mem_append_right _ hc, hvisible⟩

theorem embedSummary_ne_empty {alert : FiredAlert} (h : Visible alert.summary) :
    embedSummary alert ≠ "" := by
  obtain ⟨c, hc, hvisible⟩ := h
  have hsummary : String.ofList (trim alert.summary.toList) ≠ "" := by
    rw [ne_eq, String.ofList_eq_empty_iff]
    exact trim_ne_nil hc hvisible
  rw [embedSummary, if_neg hsummary]
  exact hsummary

/-- Every summary has words of its own. -/
theorem visible_generateSummary (condition : AlertCondition) (ctx : EvaluationContext) :
    Visible (generateSummary condition ctx) := by
  have hword : ∀ {s : String}, 'e' ∈ s.toList → Visible s := fun h => ⟨'e', h, rfl⟩
  cases condition with
  | taskFailureRate =>
      iterate 6 apply Visible.append
      exact hword (by decide)
  | queueDepth =>
      iterate 6 apply Visible.append
      exact hword (by decide)
  | workerOffline => exact (hword (by decide)).after _
  | taskDuration =>
      iterate 8 apply Visible.append
      exact ⟨'k', by decide, rfl⟩
  | beatMissed =>
      iterate 2 apply Visible.append
      exact hword (by decide)
  | taskFailed =>
      iterate 4 apply Visible.append
      exact ⟨'k', by decide, rfl⟩
  | noEvents =>
      iterate 4 apply Visible.append
      exact hword (by decide)
  | throughputAnomaly =>
      iterate 8 apply Visible.append
      exact ⟨'T', by decide, rfl⟩
  | latencyAnomaly =>
      iterate 8 apply Visible.append
      exact hword (by decide)
  | errorRateSpike =>
      iterate 8 apply Visible.append
      exact hword (by decide)

/-- The details of a condition: few, with keys to make a title of, and with no empty text but
the one that names what the condition is about. -/
theorem generateDetails_eq (condition : AlertCondition) (ctx : EvaluationContext) :
    ∃ entries, generateDetails condition ctx = .ofEntries entries ∧
      (entries.map Prod.fst).Nodup ∧ entries.length ≤ 6 ∧
      (∀ e ∈ entries, 2 ≤ e.1.length ∧ e.1 ≠ "silenced") ∧
      ((∀ e ∈ entries, e.2 ≠ .str "") ↔ condition.subject ≠ some "") := by
  have hfloat : ∀ x, jsonF64 x ≠ .str "" := by
    intro x
    unfold jsonF64
    split <;> nofun
  cases condition <;>
    exact ⟨_, rfl, by simp, by simp, by simp +decide, by
      simp [hfloat, AlertCondition.subject, taskPattern]⟩

theorem firedDetails_eq (condition : AlertCondition) (ctx : EvaluationContext)
    (silenced : Bool) :
    ∃ entries, firedDetails condition ctx silenced = .obj entries ∧ entries.length ≤ 7 ∧
      (∀ e ∈ entries, 2 ≤ e.1.length) ∧
      ((∀ e ∈ entries, e.2 ≠ .str "") ↔ condition.subject ≠ some "") := by
  obtain ⟨given, heq, hnodup, hlength, hkeys, hvalues⟩ := generateDetails_eq condition ctx
  obtain ⟨kept, hkept, hperm⟩ := Json.ofEntries_eq_obj hnodup
  rw [hkept] at heq
  cases silenced with
  | false =>
      refine ⟨kept, heq, hperm.length_eq ▸ (by omega), fun e he => (hkeys e (hperm.mem_iff.1 he)).1,
        ?_⟩
      rw [← hvalues]
      exact forall_congr' fun e => imp_congr_left hperm.mem_iff
  | true =>
      have hnew : "silenced" ∉ kept.map Prod.fst := by
        rw [List.mem_map]
        rintro ⟨e, he, hkey⟩
        exact (hkeys e (hperm.mem_iff.1 he)).2 hkey
      have hset := (Json.insertEntry_perm hnew (.bool true)).trans (hperm.cons _)
      refine ⟨Json.insertEntry "silenced" (.bool true) kept, ?_, ?_, ?_, ?_⟩
      · rw [firedDetails, heq]
        rfl
      · rw [hset.length_eq, List.length_cons]
        omega
      · intro e he
        rcases List.mem_cons.1 (hset.mem_iff.1 he) with rfl | he
        · decide
        · exact (hkeys e he).1
      · rw [← hvalues]
        simp [hset.mem_iff]

/-- **An incident's embed is taken exactly if its rule names what it is about**, or is about
nothing with a name. -/
theorem buildEmbed_firedAlert_iff (upper : Char → List Char) (floatText : F64 → JsonText.Numeral)
    (rfc3339 : Int → String) (env : PassEnv) (tp : TenantPass) (rule : AlertRule)
    (ctx : EvaluationContext) (now : Instant) (tenant : AlertTenant) :
    EmbedAccepted (buildEmbed upper floatText rfc3339 (firedAlert env tp rule ctx now) tenant) ↔
      rule.condition.subject ≠ some "" := by
  obtain ⟨entries, hdetails, hlength, hkeys, hvalues⟩ :=
    firedDetails_eq rule.condition ctx (isSilenced tp.silences rule.id)
  have hshown : shownDetails (firedAlert env tp rule ctx now).details = entries := by
    show shownDetails (firedDetails _ _ _) = entries
    rw [hdetails]
    exact List.take_of_length_le (hlength.trans (by decide))
  have hsummary : embedSummary (firedAlert env tp rule ctx now) ≠ "" :=
    embedSummary_ne_empty (visible_generateSummary rule.condition ctx)
  have htype : (firedAlert env tp rule ctx now).conditionType ≠ some "" := by
    show some (conditionTypeStr rule.condition) ≠ some ""
    cases rule.condition <;> simp [conditionTypeStr]
  rw [buildEmbed_accepted_iff, hshown, and_iff_right hsummary, and_iff_left fun _ => htype,
    ← hvalues]
  refine forall₂_congr fun e he => ?_
  exact and_iff_right (snakeToTitle_ne_empty upper (hkeys e he))

/-- A rule about the deepest queue, which it names by an empty name. -/
def deepestQueueRule : AlertRule := { sampleRule [] 300 with condition := .queueDepth 10 "" }

/-- Twenty-five tasks wait, the rule fires, and Discord refuses its embed. -/
theorem buildEmbed_deepest_queue :
    depthForQueue [("celery", 25)] "" = 25 ∧
      evaluateCondition deepestQueueRule.condition
        { EvaluationContext.default with queueDepth := 25 } = true ∧
      ¬ EmbedAccepted (buildEmbed (fun c => [c.toUpper]) (fun _ => .ofInt 0)
        (fun _ => "1970-01-01T00:00:00+00:00") (firedAlert (samplePass calmReads 100)
          ⟨sampleTenant, [deepestQueueRule], [], [], []⟩ deepestQueueRule
          { EvaluationContext.default with queueDepth := 25 } 0)
        (.ofTenant sampleTenant)) := by
  refine ⟨by decide, by decide, fun h => ?_⟩
  obtain ⟨-, hlegible, -⟩ := (buildEmbed_accepted_iff _ _ _).1 h
  exact (hlegible ("queue", .str "") (by decide)).2 rfl

end Feloxi.Alerting
