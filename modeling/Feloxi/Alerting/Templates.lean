import Feloxi.Alerting.Channels
import Feloxi.Alerting.Texts
import Feloxi.Lib.Html
import Feloxi.Lib.JsonValues
import Feloxi.Lib.Separators

/-!
# Feloxi.Alerting.Templates

The alert mail (`format_html` in `crates/alerting/src/templates.rs`) and the escaping of what is
put into it (`crates/common/src/html.rs`).

A template is the list of its pieces: the tags and texts that are written in it, and the arguments
that go through `escape`. All that an alert can change in the markup is the colour, the badge of
its condition type and the number of rows (`formatHtml_markup`).
-/

namespace Feloxi.Alerting

open Html

/-- The replacements of `escape`, in their order. -/
def htmlEscapes : List (Char × List Char) := [
  -- `&` first, so the ampersands the later replacements introduce survive.
  ('&', "&amp;".toList),
  ('<', "&lt;".toList),
  ('>', "&gt;".toList),
  ('"', "&quot;".toList),
  ('\'', "&#39;".toList)]

/-- `escape`. -/
def escape (s : String) : String := String.ofList (Replacements.replaceAll htmlEscapes s.toList)

/-! ### Templates -/

/-- A piece of a template. -/
inductive Piece where
  | tag (t : String)
  | text (s : String)
  /-- `escape(s)`. -/
  | escaped (s : String)

def Piece.write : Piece → String
  | .tag t => "<" ++ t ++ ">"
  | .text s => s
  | .escaped s => escape s

def writePieces (pieces : List Piece) : String := String.join (pieces.map Piece.write)

/-! ### The pieces of the mail -/

/-- The colour of a severity. -/
def severityColor (severity : String) : String :=
  match severity with
  | "critical" => "#dc2626"
  | "warning" => "#f59e0b"
  | _ => "#10b981"

/-- `condition_badge`. -/
def conditionBadge : Option String → List Piece
  | none => []
  | some ct => [
    .tag ("span style=\"display:inline-block;background:#374151;color:#d1d5db;\n" ++
      "                    font-size:11px;padding:2px 8px;border-radius:4px;margin-bottom:8px;\""),
    .text "\n                    ", .escaped ct, .tag "/span", .tag "br"]

/-- `n.fract() == 0.0`. -/
def isWhole : F64 → Bool
  | .fin q => decide (q.den = 1)
  | _ => false

section Mail

variable (upper : Char → List Char) (floatText : F64 → JsonText.Numeral)

/-- `format_value`. -/
def formatValue (key : String) (value : Json) : String :=
  match value.asF64 with
  | some n =>
    if containsText key "rate" then (n.mul (.fin 100)).fmtFixed 1 ++ "%"
    else if containsText key "seconds" || containsText key "runtime" || containsText key "latency"
    then n.fmtFixed 2 ++ "s"
    else if containsText key "factor" || containsText key "zscore" then n.fmtFixed 1
    else if isWhole n then toString n.toI64
    else n.fmtFixed 2
  | none =>
    match value.asU64 with
    | some n => toString n
    | none => value.asStr.getD (value.display floatText)

/-- A row of the details. -/
def detailRow (detail : String × Json) : List Piece := [
  .tag "tr", .text "\n    ",
  .tag ("td style=\"padding:6px 12px;border-bottom:1px solid #e5e7eb;color:#6b7280;" ++
    "font-size:13px;\""),
  .escaped (snakeToTitle upper detail.1), .tag "/td", .text "\n    ",
  .tag ("td style=\"padding:6px 12px;border-bottom:1px solid #e5e7eb;color:#111827;" ++
    "font-size:13px;font-weight:500;\""),
  .escaped (formatValue floatText detail.1 detail.2), .tag "/td", .text "\n", .tag "/tr"]

def headCell : Piece :=
  .tag ("th style=\"text-align:left;padding:6px 12px;border-bottom:2px solid #e5e7eb;" ++
    "color:#6b7280;font-size:11px;text-transform:uppercase;\"")

def detailsTableHead : List Piece := [
  .tag "table style=\"width:100%;border-collapse:collapse;margin:8px 0 12px;\"", .text "\n    ",
  .tag "thead", .tag "tr", .text "\n        ",
  headCell, .text "Metric", .tag "/th", .text "\n        ",
  headCell, .text "Value", .tag "/th", .text "\n    ",
  .tag "/tr", .tag "/thead", .text "\n    ", .tag "tbody"]

/-- `build_details_table`. -/
def buildDetailsTable : Json → List Piece
  | .obj (e :: entries) =>
    detailsTableHead ++
      [Piece.text "\n"].intercalate ((e :: entries).map (detailRow upper floatText)) ++
      [.tag "/tbody", .text "\n", .tag "/table"]
  | _ => []

def mailHead (alert : FiredAlert) (tenant : AlertTenant) : List Piece := [
  .tag "div style=\"font-family:sans-serif;max-width:600px;margin:0 auto;\"", .text "\n    ",
  .tag ("div style=\"background:" ++ severityColor alert.severity ++
    ";color:white;padding:16px;border-radius:8px 8px 0 0;\""), .text "\n        ",
  .tag ("p style=\"margin:0 0 4px;opacity:0.85;font-size:12px;text-transform:uppercase;" ++
    "letter-spacing:0.04em;\""), .escaped tenant.name, .tag "/p", .text "\n        ",
  .tag "h2 style=\"margin:0;\"", .escaped (toUppercase upper alert.severity), .text " Alert",
  .tag "/h2", .text "\n        ",
  .tag "p style=\"margin:4px 0 0;opacity:0.9;\"", .escaped alert.ruleName, .tag "/p",
  .text "\n    ", .tag "/div", .text "\n    ",
  .tag ("div style=\"background:#f9fafb;padding:16px;border:1px solid #e5e7eb;" ++
    "border-top:none;border-radius:0 0 8px 8px;\""), .text "\n        "]

def mailSummary (alert : FiredAlert) : List Piece := [
  .text "\n        ", .tag "p style=\"font-size:16px;color:#111827;margin:0 0 12px;\"",
  .escaped alert.summary, .tag "/p", .text "\n        "]

def mailFoot : List Piece := [
  .text "\n        ",
  .tag "hr style=\"border:none;border-top:1px solid #e5e7eb;margin:12px 0;\"", .text "\n        ",
  .tag "p style=\"font-size:12px;color:#6b7280;margin:0;\"",
  .text "\n            Sent by Feloxi Alert Engine\n        ", .tag "/p", .text "\n    ",
  .tag "/div", .text "\n", .tag "/div"]

def mailPieces (alert : FiredAlert) (tenant : AlertTenant) : List Piece :=
  mailHead upper alert tenant ++ conditionBadge alert.conditionType ++ mailSummary alert ++
    buildDetailsTable upper floatText alert.details ++ mailFoot

/-- `format_html`. -/
def formatHtml (alert : FiredAlert) (tenant : AlertTenant) : String :=
  writePieces (mailPieces upper floatText alert tenant)

end Mail

/-! ### What a template is read as -/

theorem escape_toList (s : String) : (escape s).toList = Html.write s.toList := by
  have hescapes : htmlEscapes = entities := by decide
  rw [escape, String.toList_ofList, hescapes, Replacements.replaceAll_eq_flatMap (by decide)]
  rfl

/-- The piece as it is read, an argument without its entities. -/
def Piece.part : Piece → Part
  | .tag t => .tag t.toList
  | .text s => .text s.toList
  | .escaped s => .text s.toList

/-- A tag that is one, and a text without a special character. -/
def Piece.Sound : Piece → Prop
  | .tag t => Proper t.toList
  | .text s => Html.write s.toList = s.toList
  | .escaped _ => True

instance (p : Piece) : Decidable p.Sound :=
  match p with
  | .tag t => inferInstanceAs (Decidable (Proper t.toList))
  | .text s => inferInstanceAs (Decidable (Html.write s.toList = s.toList))
  | .escaped _ => inferInstanceAs (Decidable True)

theorem render_part {p : Piece} (h : p.Sound) : render [p.part] = p.write.toList := by
  cases p with
  | tag t =>
      have hopen : "<".toList = ['<'] := rfl
      have hclose : ">".toList = ['>'] := rfl
      simp [Piece.part, Piece.write, render, hopen, hclose]
  | text s =>
      have hplain : Html.write s.toList = s.toList := h
      simp [Piece.part, Piece.write, render, hplain]
  | escaped s => simp [Piece.part, Piece.write, render, escape_toList]

theorem toList_writePieces {pieces : List Piece} (h : ∀ p ∈ pieces, p.Sound) :
    (writePieces pieces).toList = render (pieces.map Piece.part) := by
  induction pieces with
  | nil => rfl
  | cons p pieces ih =>
      obtain ⟨hp, hpieces⟩ := List.forall_mem_cons.1 h
      have hrest := ih hpieces
      rw [writePieces] at hrest ⊢
      rw [List.map_cons, String.join_cons, String.toList_append, hrest, ← render_part hp,
        ← render_append]
      rfl

/-- **Pieces are read as they are**, whatever the arguments. -/
theorem read_writePieces {pieces : List Piece} (h : ∀ p ∈ pieces, p.Sound) :
    read (writePieces pieces).toList = some (segments (pieces.map Piece.part)) := by
  rw [toList_writePieces h]
  refine read_render ?_
  rw [List.forall_mem_map]
  intro p hp
  have hsound := h p hp
  cases p with
  | tag t => exact hsound
  | text s => trivial
  | escaped s => trivial

/-! ### The mail -/

section

variable (upper : Char → List Char) (floatText : F64 → JsonText.Numeral)

/-- A tag that is written in two pieces, the second one from within a quoted value. -/
theorem Piece.sound_tag {s t : String} (hopens : opensTag s.toList = true)
    (hs : quoteAfter none s.toList = some (some '"'))
    (ht : quoteAfter (some '"') t.toList = some none) : (Piece.tag (s ++ t)).Sound := by
  show Proper (s ++ t).toList
  rw [String.toList_append]
  exact proper_append hopens hs ht

theorem quoteAfter_severityColor (severity : String) :
    quoteAfter (some '"') (severityColor severity).toList = some (some '"') := by
  unfold severityColor
  split <;> rfl

theorem sound_mailHead (alert : FiredAlert) (tenant : AlertTenant) :
    ∀ p ∈ mailHead upper alert tenant, p.Sound := by
  have hcolor : (Piece.tag ("div style=\"background:" ++ severityColor alert.severity ++
      ";color:white;padding:16px;border-radius:8px 8px 0 0;\"")).Sound := by
    refine Piece.sound_tag ?_ ?_ (by decide)
    · rw [String.toList_append]
      exact opensTag_append (by decide) _
    · have hstart : quoteAfter none "div style=\"background:".toList = some (some '"') := by decide
      rw [String.toList_append, quoteAfter_append hstart]
      exact quoteAfter_severityColor alert.severity
  simp only [mailHead, List.forall_mem_cons]
  exact ⟨by decide, by decide, hcolor, by decide,
    Piece.sound_tag (by decide) (by decide) (by decide), trivial, by decide, by decide, by decide,
    trivial, by decide, by decide, by decide, by decide, trivial, by decide, by decide, by decide,
    by decide, Piece.sound_tag (by decide) (by decide) (by decide), by decide, nofun⟩

theorem sound_conditionBadge (ct : Option String) : ∀ p ∈ conditionBadge ct, p.Sound := by
  cases ct with
  | none => exact nofun
  | some ct =>
      simp only [conditionBadge, List.forall_mem_cons]
      exact ⟨Piece.sound_tag (by decide) (by decide) (by decide), by decide, trivial, by decide,
        by decide, nofun⟩

theorem sound_mailSummary (alert : FiredAlert) : ∀ p ∈ mailSummary alert, p.Sound := by
  simp only [mailSummary, List.forall_mem_cons]
  exact ⟨by decide, by decide, trivial, by decide, by decide, nofun⟩

theorem sound_mailFoot : ∀ p ∈ mailFoot, p.Sound := by
  simp only [mailFoot, List.forall_mem_cons]
  exact ⟨by decide, by decide, by decide, by decide, by decide, by decide, by decide, by decide,
    by decide, by decide, nofun⟩

theorem sound_detailRow (detail : String × Json) :
    ∀ p ∈ detailRow upper floatText detail, p.Sound := by
  simp only [detailRow, List.forall_mem_cons]
  exact ⟨by decide, by decide, Piece.sound_tag (by decide) (by decide) (by decide), trivial,
    by decide, by decide, Piece.sound_tag (by decide) (by decide) (by decide), trivial, by decide,
    by decide, by decide, nofun⟩

theorem sound_detailsTableHead : ∀ p ∈ detailsTableHead, p.Sound := by
  have hcell : headCell.Sound := Piece.sound_tag (by decide) (by decide) (by decide)
  simp only [detailsTableHead, List.forall_mem_cons]
  exact ⟨by decide, by decide, by decide, by decide, by decide, hcell, by decide, by decide,
    by decide, hcell, by decide, by decide, by decide, by decide, by decide, by decide, by decide,
    nofun⟩

/-- How many details there are. -/
def detailCount : Json → Nat
  | .obj entries => entries.length
  | _ => 0

/-- There is a table exactly for some details. -/
theorem buildDetailsTable_eq (details : Json) :
    detailCount details = 0 ∧ buildDetailsTable upper floatText details = [] ∨
      ∃ entries : List (String × Json), detailCount details = entries.length ∧ entries.length ≠ 0 ∧
        buildDetailsTable upper floatText details = detailsTableHead ++
          [Piece.text "\n"].intercalate (entries.map (detailRow upper floatText)) ++
          [.tag "/tbody", .text "\n", .tag "/table"] := by
  cases details with
  | obj entries =>
      cases entries with
      | nil => exact .inl ⟨rfl, rfl⟩
      | cons e entries => exact .inr ⟨e :: entries, rfl, Nat.succ_ne_zero _, rfl⟩
  | null | bool | int | float | str | arr => exact .inl ⟨rfl, rfl⟩

theorem sound_buildDetailsTable (details : Json) :
    ∀ p ∈ buildDetailsTable upper floatText details, p.Sound := by
  have hfoot : ∀ p ∈ [Piece.tag "/tbody", .text "\n", .tag "/table"], p.Sound := by decide
  have hjoin : ∀ p ∈ [Piece.text "\n"], p.Sound := by decide
  rcases buildDetailsTable_eq upper floatText details with
    ⟨-, htable⟩ | ⟨entries, -, -, htable⟩ <;> rw [htable]
  · exact nofun
  · simp only [List.forall_mem_append]
    refine ⟨⟨sound_detailsTableHead, Separators.forall_mem_intercalate hjoin ?_⟩, hfoot⟩
    exact List.forall_mem_map.2 fun detail _ => sound_detailRow upper floatText detail

theorem sound_mailPieces (alert : FiredAlert) (tenant : AlertTenant) :
    ∀ p ∈ mailPieces upper floatText alert tenant, p.Sound := by
  simp only [mailPieces, List.forall_mem_append]
  exact ⟨⟨⟨⟨sound_mailHead upper alert tenant, sound_conditionBadge _⟩, sound_mailSummary alert⟩,
    sound_buildDetailsTable upper floatText _⟩, sound_mailFoot⟩

/-! ### The markup -/

/-- The tags of a template. -/
def markup (pieces : List Piece) : List (List Char) := pieces.filterMap fun p => p.part.tag?

theorem markup_append (pieces pieces' : List Piece) :
    markup (pieces ++ pieces') = markup pieces ++ markup pieces' := List.filterMap_append

/-- All rows have the same tags. -/
theorem markup_detailRow (detail detail' : String × Json) :
    markup (detailRow upper floatText detail) = markup (detailRow upper floatText detail') := by
  unfold detailRow
  generalize snakeToTitle upper detail.1 = label, snakeToTitle upper detail'.1 = label'
  generalize formatValue floatText detail.1 detail.2 = value,
    formatValue floatText detail'.1 detail'.2 = value'
  rfl

theorem markup_rows {entries entries' : List (String × Json)}
    (h : entries.length = entries'.length) :
    markup ([Piece.text "\n"].intercalate (entries.map (detailRow upper floatText))) =
      markup ([Piece.text "\n"].intercalate (entries'.map (detailRow upper floatText))) := by
  have hrows : ∀ entries : List (String × Json),
      markup ([Piece.text "\n"].intercalate (entries.map (detailRow upper floatText))) =
        (List.replicate entries.length (markup (detailRow upper floatText ("", .null)))).flatten := by
    intro entries
    rw [markup, Separators.filterMap_intercalate rfl, List.flatMap_map, List.flatMap_def,
      ← List.map_const']
    exact congrArg List.flatten (List.map_congr_left fun detail _ =>
      markup_detailRow upper floatText detail ("", .null))
  rw [hrows, hrows, h]

theorem markup_buildDetailsTable {details details' : Json}
    (h : detailCount details = detailCount details') :
    markup (buildDetailsTable upper floatText details) =
      markup (buildDetailsTable upper floatText details') := by
  rcases buildDetailsTable_eq upper floatText details with
    ⟨hzero, htable⟩ | ⟨entries, hlength, hne, htable⟩ <;>
    rcases buildDetailsTable_eq upper floatText details' with
      ⟨hzero', htable'⟩ | ⟨entries', hlength', hne', htable'⟩
  · rw [htable, htable']
  · exact absurd (hlength'.symm.trans (h.symm.trans hzero)) hne'
  · exact absurd (hlength.symm.trans (h.trans hzero')) hne
  · simp only [htable, htable', markup_append]
    rw [markup_rows upper floatText (hlength.symm.trans (h.trans hlength'))]

theorem markup_mailPieces {alert alert' : FiredAlert} (hseverity : alert.severity = alert'.severity)
    (htype : alert.conditionType.isSome = alert'.conditionType.isSome)
    (hdetails : detailCount alert.details = detailCount alert'.details)
    (tenant tenant' : AlertTenant) :
    markup (mailPieces upper floatText alert tenant) =
      markup (mailPieces upper floatText alert' tenant') := by
  have hhead : markup (mailHead upper alert tenant) = markup (mailHead upper alert' tenant') := by
    rw [mailHead, mailHead, hseverity]
    rfl
  have hbadge : markup (conditionBadge alert.conditionType) =
      markup (conditionBadge alert'.conditionType) := by
    generalize alert.conditionType = ct at htype
    generalize alert'.conditionType = ct' at htype
    cases ct <;> cases ct' <;> first | rfl | cases htype
  have hsummary : markup (mailSummary alert) = markup (mailSummary alert') := rfl
  simp only [mailPieces, markup_append]
  rw [hhead, hbadge, hsummary, markup_buildDetailsTable upper floatText hdetails]

theorem read_formatHtml (alert : FiredAlert) (tenant : AlertTenant) :
    read (formatHtml upper floatText alert tenant).toList =
      some (segments ((mailPieces upper floatText alert tenant).map Piece.part)) :=
  read_writePieces (sound_mailPieces upper floatText alert tenant)

theorem tags_formatHtml (alert : FiredAlert) (tenant : AlertTenant) :
    (read (formatHtml upper floatText alert tenant).toList).map tags =
      some (markup (mailPieces upper floatText alert tenant)) := by
  rw [read_formatHtml, Option.map_some, tags_segments, List.filterMap_map]
  rfl

theorem decode_escape (s : String) : decode (escape s).toList = s.toList := by
  have hdecode := decode_write s.toList []
  rw [List.append_nil] at hdecode
  rw [escape_toList, hdecode]
  exact List.append_nil _

end

/-- **The markup of an alert mail is fixed**: it depends on the severity, on whether there is a
condition type and on the number of details. What is put in is read back as text, in its place. -/
theorem formatHtml_markup (upper : Char → List Char) (floatText : F64 → JsonText.Numeral) :
    (∀ (alert alert' : FiredAlert) (tenant tenant' : AlertTenant),
      alert.severity = alert'.severity →
      alert.conditionType.isSome = alert'.conditionType.isSome →
      detailCount alert.details = detailCount alert'.details →
      (read (formatHtml upper floatText alert tenant).toList).map tags =
        (read (formatHtml upper floatText alert' tenant').toList).map tags) ∧
      (∀ (alert : FiredAlert) (tenant : AlertTenant),
        read (formatHtml upper floatText alert tenant).toList =
          some (segments ((mailPieces upper floatText alert tenant).map Piece.part))) ∧
      ∀ s : String, decode (escape s).toList = s.toList := by
  refine ⟨?_, read_formatHtml upper floatText, decode_escape⟩
  intro alert alert' tenant tenant' hseverity htype hdetails
  rw [tags_formatHtml, tags_formatHtml,
    markup_mailPieces upper floatText hseverity htype hdetails tenant tenant']

/-- An alert of a rule with this name. -/
def namedAlert (ruleName : String) : FiredAlert :=
  { id := 0, ruleId := 1, tenantId := 7, ruleName, conditionType := some "task_failure_rate",
    severity := "warning", summary := "a & b", details := .obj [("task_name", .str "*")],
    firedAt := .fin 1700000000 }

/-- Tags in the names of the rule and of the tenant are no tags of the mail. -/
theorem formatHtml_markup_named :
    (read (formatHtml (fun c => [c.toUpper]) (fun _ => .ofInt 0)
        (namedAlert "<img src=x onerror=alert(1)>")
        ⟨7, "<script>steal()</script>", "acme"⟩).toList).map tags =
      (read (formatHtml (fun c => [c.toUpper]) (fun _ => .ofInt 0) (namedAlert "Rate Alert")
        ⟨7, "Acme Payments", "acme"⟩).toList).map tags :=
  (formatHtml_markup _ _).1 (namedAlert "<img src=x onerror=alert(1)>") (namedAlert "Rate Alert")
    _ _ rfl rfl rfl

end Feloxi.Alerting
