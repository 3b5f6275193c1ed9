import Feloxi.Lib.JsonEscapes
import Feloxi.Lib.JsonValues
import Feloxi.Lib.Replacements
import Feloxi.Lib.Separators
import Feloxi.Lib.Uuid

/-!
# Feloxi.Auth.PopupPage

The page that ends an OAuth connect (`popup_page` in `crates/api/src/oauth.rs`). Its script posts
a JSON value to the window that opened it; the value may repeat a text of the provider.

The value is written into the script as a JSON text, which JavaScript reads as the same value. What
can go wrong before that is HTML: a script ends at the next `<` of its end tag, wherever it is. So
the text must be free of markup and still be the same JSON (`escapeForScript_posts`).
-/

namespace Feloxi.OAuth

open JsonText Replacements

/-- The replacements of `escape_for_script`, in their order. -/
def scriptEscapes : List (Char × List Char) := [
  ('<', ['\\', 'u', '0', '0', '3', 'c']),
  ('>', ['\\', 'u', '0', '0', '3', 'e']),
  ('&', ['\\', 'u', '0', '0', '2', '6']),
  ('\u2028', ['\\', 'u', '2', '0', '2', '8']),
  ('\u2029', ['\\', 'u', '2', '0', '2', '9'])]

/-- `escape_for_script`. -/
def escapeForScript (json : String) : String :=
  String.ofList (replaceAll scriptEscapes json.toList)

/-! ### The page -/

def textOrNull : Option String → Json
  | none => .null
  | some s => .str s

/-- What the page is to post. -/
def popupPayload (messageType : String) (ok : Bool) (integrationId : Option Uuid)
    (error : Option String) : Json :=
  .ofEntries [("type", .str messageType), ("ok", .bool ok),
    ("integrationId", textOrNull (integrationId.map Uuid.display)), ("error", textOrNull error)]

/-- The page up to its script. -/
def pageHead (provider : String) (ok : Bool) : String :=
  "<!doctype html><html><head><meta charset=\"utf-8\"><title>" ++ provider ++ "</title>\n" ++
    "<meta http-equiv=\"Content-Security-Policy\" content=\"default-src 'none'; " ++
    "script-src 'unsafe-inline'; style-src 'unsafe-inline'\"></head>\n" ++
    "<body style=\"font-family:system-ui;padding:2rem\">\n<p>" ++
    (if ok then provider ++ " connected" else provider ++ " connection failed") ++
    ". You can close this window.</p>\n"

def scriptHead : String := "\n  try \x7b if (window.opener) window.opener."

def scriptTail : String :=
  "); \x7d catch (e) \x7b\x7d\n  window.close();\n</script>\n</body></html>"

/-- `trim_end_matches('/')`. -/
def trimEndSlashes (s : String) : String :=
  String.ofList (s.toList.reverse.dropWhile (· == '/')).reverse

section Page

variable (floatText : F64 → Numeral) (debug : String → String) (appBaseUrl : String)

/-- `popup_page`; how a text is written by `Debug` is left open. -/
def popupPage (provider messageType : String) (ok : Bool) (integrationId : Option Uuid)
    (error : Option String) : String :=
  pageHead provider ok ++ "<script>" ++ scriptHead ++ "postMessage(" ++
    escapeForScript ((popupPayload messageType ok integrationId error).display floatText) ++
    ", " ++ debug (trimEndSlashes appBaseUrl) ++ scriptTail

/-- `oauth_slack::popup_page`. -/
def slackPopupPage (ok : Bool) (integrationId : Option Uuid) (error : Option String) : String :=
  popupPage floatText debug appBaseUrl "Slack" "slack-oauth" ok integrationId error

/-- `oauth_discord::popup_page`. -/
def discordPopupPage (ok : Bool) (integrationId : Option Uuid) (error : Option String) : String :=
  popupPage floatText debug appBaseUrl "Discord" "discord-oauth" ok integrationId error

end Page

/-! ### What a browser makes of it -/

/-- The text of the first script, as far as it is certain not to have ended. -/
def scriptText (page : List Char) : Option (List Char) :=
  (page.dropInfix? "<script>".toList).map fun cut => cut.2.takeWhile (· ≠ '<')

/-- The first argument of the first call of `postMessage`, if another one follows. -/
def postedMessage (page : List Char) : Option (JsonTree Numeral) := do
  let script ← scriptText page
  let (_, call) ← script.dropInfix? "postMessage(".toList
  match JsonText.value (call.length + 1) call with
  | some (message, ',' :: _) => some message
  | _ => none

/-! ### The escapes -/

theorem escapeForScript_toList (json : String) :
    (escapeForScript json).toList = json.toList.flatMap (image scriptEscapes) := by
  rw [escapeForScript, String.toList_ofList, replaceAll_eq_flatMap (by decide)]

/-- Each escape is the code of its character, which has no meaning in JSON. -/
theorem scriptEscapes_codes : ∀ rule ∈ scriptEscapes, isSyntax rule.1 = false ∧
    ∃ h₁ h₂ h₃ h₄, rule.2 = ['\\', 'u', h₁, h₂, h₃, h₄] ∧
      hex4 h₁ h₂ h₃ h₄ = some rule.1.toNat := by
  simp only [scriptEscapes, List.forall_mem_cons]
  exact ⟨⟨rfl, _, _, _, _, rfl, rfl⟩, ⟨rfl, _, _, _, _, rfl, rfl⟩, ⟨rfl, _, _, _, _, rfl, rfl⟩,
    ⟨rfl, _, _, _, _, rfl, rfl⟩, ⟨rfl, _, _, _, _, rfl, rfl⟩, nofun⟩

theorem respelled_escapeForScript (json : String) :
    Respelled json.toList (escapeForScript json).toList := by
  rw [escapeForScript_toList]
  refine Respelled.of_flatMap (fun c => ?_) _
  rcases image_cases scriptEscapes c with ⟨hsame, -⟩ | hrule
  · exact .inl hsame
  · exact .inr (scriptEscapes_codes _ hrule)

theorem not_mem_escapeForScript {c : Char} (hc : c ∈ scriptEscapes.map Prod.fst) (json : String) :
    c ∉ (escapeForScript json).toList := by
  have hnew : ∀ c ∈ scriptEscapes.map Prod.fst, ∀ rule ∈ scriptEscapes, c ∉ rule.2 := by
    simp [scriptEscapes]
  rw [escapeForScript_toList]
  exact not_mem_flatMap_image hc (hnew c hc) _

/-! ### The page posts its payload -/

/-- No script starts in a text. -/
def Scriptless (s : String) : Prop := Separators.apart '<' 's' s.toList = true

instance (s : String) : Decidable (Scriptless s) := inferInstanceAs (Decidable (_ = true))

theorem Scriptless.append {s t : String} (hs : Scriptless s) (ht : Scriptless t) :
    Scriptless (s ++ t) := by
  rw [Scriptless, String.toList_append]
  exact Separators.apart_append hs ht

theorem scriptless_pageHead {provider : String} (h : Scriptless provider) (ok : Bool) :
    Scriptless (pageHead provider ok) := by
  have hmsg : Scriptless (if ok then provider ++ " connected"
      else provider ++ " connection failed") := by
    split
    · exact h.append (by decide)
    · exact h.append (by decide)
  refine .append (.append ?_ hmsg) (by decide)
  iterate 4 refine .append ?_ (by decide)
  exact .append (by decide) h

/-- The script is the call with the escaped payload in front. -/
theorem scriptText_popupPage {provider : String} (h : Scriptless provider)
    (floatText : F64 → Numeral) (debug : String → String) (appBaseUrl messageType : String)
    (ok : Bool) (integrationId : Option Uuid) (error : Option String) :
    ∃ rest, scriptText
        (popupPage floatText debug appBaseUrl provider messageType ok integrationId error).toList =
      some (scriptHead.toList ++ "postMessage(".toList ++
        ((escapeForScript ((popupPayload messageType ok integrationId error).display
          floatText)).toList ++ ',' :: rest)) := by
  have hscript : "<script>".toList = '<' :: 's' :: ['c', 'r', 'i', 'p', 't', '>'] := rfl
  have hcomma : ", ".toList = [',', ' '] := rfl
  have hlead : ∀ c ∈ scriptHead.toList ++ "postMessage(".toList, decide (c ≠ '<') = true :=
    List.all_eq_true.1 (by decide)
  generalize hjson : (popupPayload messageType ok integrationId error).display floatText = json
  have hpayload : ∀ c ∈ (escapeForScript json).toList, decide (c ≠ '<') = true := by
    intro c hc
    rw [decide_eq_true_eq]
    rintro rfl
    exact not_mem_escapeForScript (by decide) json hc
  rw [scriptText, popupPage, hjson]
  simp only [String.toList_append, hscript, hcomma, List.append_assoc]
  rw [← List.append_assoc, Separators.dropInfix?_of_apart (scriptless_pageHead h ok)]
  simp only [Option.map_some, Option.some.injEq]
  rw [← List.append_assoc, List.takeWhile_append_of_pos hlead,
    List.takeWhile_append_of_pos hpayload]
  rw [List.cons_append, List.takeWhile_cons_of_pos (by decide)]
  exact ⟨_, rfl⟩

/-- **The page posts its payload**, whatever stands in it. -/
theorem postedMessage_popupPage {provider : String} (h : Scriptless provider)
    (floatText : F64 → Numeral) (debug : String → String) (appBaseUrl messageType : String)
    (ok : Bool) (integrationId : Option Uuid) (error : Option String) :
    postedMessage
        (popupPage floatText debug appBaseUrl provider messageType ok integrationId error).toList =
      some ((popupPayload messageType ok integrationId error).toTree floatText) := by
  obtain ⟨rest, hscript⟩ := scriptText_popupPage h floatText debug appBaseUrl messageType ok
    integrationId error
  have hcall : "postMessage(".toList =
      'p' :: 'o' :: ['s', 't', 'M', 'e', 's', 's', 'a', 'g', 'e', '('] := rfl
  have hlead : Separators.apart 'p' 'o' scriptHead.toList = true := by decide
  rw [Json.display] at hscript
  generalize (popupPayload messageType ok integrationId error).toTree floatText = t at *
  generalize hescaped : (escapeForScript (String.ofList t.print)).toList = escaped at hscript
  -- the payload and what follows it, in the other spelling
  have hrespelled : Respelled (t.print ++ ',' :: rest) (escaped ++ ',' :: rest) := by
    have hpayload := respelled_escapeForScript (String.ofList t.print)
    rw [String.toList_ofList, hescaped] at hpayload
    exact hpayload.append (Respelled.refl _)
  have hfuel : (escaped ++ ',' :: rest).length + 1 ≥ t.print.length + 1 := by
    have hlength := hrespelled.length_le
    rw [List.length_append] at hlength
    omega
  obtain ⟨rest', hread, hrest⟩ := (follows_all _ _ hfuel).1 hrespelled
    (value_print t (',' :: rest) _ (ends_cons (.inl rfl)) (Nat.lt_succ_self t.print.length))
  obtain ⟨rest'', rfl, -⟩ := hrest.of_cons rfl
  simp only [postedMessage, hscript, hcall, Separators.dropInfix?_of_apart hlead, hread,
    Option.bind_eq_bind, Option.bind_some]

/-- **The escapes are safe and lose nothing**: there is no markup in the text of a value, it is the
text of the same tree, which is read as the same value if the numbers in it are, and so the page
posts its payload whatever the error. -/
theorem escapeForScript_posts (floatText : F64 → Numeral) (v : Json) :
    (∀ c ∈ (escapeForScript (v.display floatText)).toList,
        c ≠ '<' ∧ c ≠ '>' ∧ c ≠ '&' ∧ c ≠ '\u2028' ∧ c ≠ '\u2029') ∧
      parse (escapeForScript (v.display floatText)).toList = some (v.toTree floatText) ∧
      (∀ readFloat : Numeral → F64, v.Ordered →
        (∀ x ∈ v.numbers, Json.ofTree readFloat (x.toJson.toTree floatText) = x.toJson) →
        (parse (escapeForScript (v.display floatText)).toList).map (Json.ofTree readFloat) =
          some v) ∧
      ∀ (debug : String → String) (appBaseUrl : String) (ok : Bool) (integrationId : Option Uuid)
        (error : Option String),
        postedMessage (slackPopupPage floatText debug appBaseUrl ok integrationId error).toList =
            some ((popupPayload "slack-oauth" ok integrationId error).toTree floatText) ∧
          postedMessage
              (discordPopupPage floatText debug appBaseUrl ok integrationId error).toList =
            some ((popupPayload "discord-oauth" ok integrationId error).toTree floatText) := by
  have hparse : parse (escapeForScript (v.display floatText)).toList =
      some (v.toTree floatText) := by
    have hrespelled := respelled_escapeForScript (v.display floatText)
    rw [Json.display, String.toList_ofList] at hrespelled
    exact hrespelled.parse (parse_print _)
  refine ⟨fun c hc => ?_, hparse, fun readFloat hordered hnumbers => ?_,
    fun debug appBaseUrl ok integrationId error => ⟨?_, ?_⟩⟩
  · have hne : ∀ d ∈ scriptEscapes.map Prod.fst, c ≠ d := by
      rintro d hd rfl
      exact not_mem_escapeForScript hd _ hc
    simpa [scriptEscapes] using hne
  · rw [hparse, Option.map_some, Json.ofTree_toTree floatText readFloat v hordered hnumbers]
  · exact postedMessage_popupPage (by decide) floatText debug appBaseUrl _ ok integrationId error
  · exact postedMessage_popupPage (by decide) floatText debug appBaseUrl _ ok integrationId error

end Feloxi.OAuth
