import Feloxi.Broker.Kombu

/-!
# Feloxi.Broker.Envelopes

The envelopes that are published over Redis (`crates/api/src/broker_conn/commands.rs`), and that
`decode_kombu_body` opens them again. An envelope can say in two places that its body is base64:
at the top, as `content-encoding`, and under `properties`, as `body_encoding`; the published ones
say it in the second.
-/

namespace Feloxi.Broker

open Pipeline (SerdeJson strField)

/-- `serde_json` and the base64 engine, both ways. -/
structure Codecs extends Decoders where
  /-- `STANDARD.encode`, of the bytes of a text. -/
  encode : String → String

/-- The text of a value, in base64. -/
def Codecs.encodedBody (d : Codecs) (body : Json) : String := d.encode (d.serde.toString body)

/-! ### What is published -/

/-- A task as `redis_publish_task` is given it. -/
structure PublishedTask where
  taskName : String
  taskId : String
  args : Json
  kwargs : Json
  queue : String
  parentId : Option String
  rootId : Option String

/-- A string or null. -/
def optionalStr : Option String → Json
  | some s => .str s
  | none => .null

/-- The body of `redis_publish_task`. -/
def PublishedTask.body (task : PublishedTask) : Json :=
  .arr [task.args, task.kwargs,
    .ofEntries [("callbacks", .null), ("errbacks", .null), ("chain", .null), ("chord", .null)]]

/-- The envelope of `redis_publish_task`; `deliveryTag` is the id drawn. -/
def PublishedTask.envelope (d : Codecs) (task : PublishedTask) (deliveryTag : String) : Json :=
  .ofEntries [
    ("body", .str (d.encodedBody task.body)),
    ("content-encoding", .str "utf-8"),
    ("content-type", .str "application/json"),
    ("headers", .ofEntries [
      ("lang", .str "py"),
      ("task", .str task.taskName),
      ("id", .str task.taskId),
      ("root_id", .str (task.rootId.getD task.taskId)),
      ("parent_id", optionalStr task.parentId),
      ("group", .null),
      ("origin", .str "feloxi"),
      ("argsrepr", .str (d.serde.toString task.args)),
      ("kwargsrepr", .str (d.serde.toString task.kwargs))]),
    ("properties", .ofEntries [
      ("correlation_id", .str task.taskId),
      ("reply_to", .str ""),
      ("delivery_mode", .int 2),
      ("delivery_info", .ofEntries [("exchange", .str ""), ("routing_key", .str task.queue)]),
      ("priority", .int 0),
      ("body_encoding", .str "base64"),
      ("delivery_tag", .str deliveryTag)])]

/-- `redis_publish_task`, up to the text that is pushed. -/
def redisPublishTask (d : Codecs) (task : PublishedTask) (deliveryTag : String) : String :=
  d.serde.toString (task.envelope d deliveryTag)

/-- The control message of `redis_broadcast_control`. -/
def controlMsg (method : String) (arguments : Json) (destination : Option (List String)) : Json :=
  .ofEntries [
    ("method", .str method),
    ("arguments", arguments),
    ("destination", (destination.map fun names => Json.arr (names.map .str)).getD .null),
    ("pattern", .null),
    ("matcher", .null)]

/-- `redis_control_envelope`. -/
def redisControlEnvelope (d : Codecs) (controlMsg : Json) (deliveryTag : String) : Json :=
  .ofEntries [
    ("body", .str (d.encodedBody controlMsg)),
    ("content-encoding", .str "utf-8"),
    ("content-type", .str "application/json"),
    ("headers", .ofEntries [("clock", .int 0), ("expires", .int 0)]),
    ("properties", .ofEntries [
      ("delivery_info", .ofEntries [("exchange", .str "celery.pidbox"), ("routing_key", .str "")]),
      ("priority", .int 0),
      ("body_encoding", .str "base64"),
      ("delivery_tag", .str deliveryTag)])]

/-- `redis_broadcast_control`, up to the text that is published. -/
def redisBroadcastControl (d : Codecs) (method : String) (arguments : Json)
    (destination : Option (List String)) (deliveryTag : String) : String :=
  d.serde.toString (redisControlEnvelope d (controlMsg method arguments destination) deliveryTag)

/-! ### Envelopes in general -/

/-- An envelope says that its body is base64, in one of the two places. -/
def DeclaresBase64 (envelope : Json) : Prop :=
  envelope.get "content-encoding" = some (.str "base64") ∨
    ∃ properties, envelope.get "properties" = some properties ∧
      properties.get "body_encoding" = some (.str "base64")

/-- An envelope names no other type of its body than JSON. -/
def DeclaresJson (envelope : Json) : Prop :=
  ∀ s, envelope.get "content-type" = some (.str s) → s = "application/json"

/-- The body of an envelope is the text of a value, in the encoding that the envelope declares. -/
structure CarriesBody (d : Codecs) (envelope body : Json) : Prop where
  isJson : DeclaresJson envelope
  coded : DeclaresBase64 envelope → envelope.get "body" = some (.str (d.encodedBody body))
  plain : ¬ DeclaresBase64 envelope → envelope.get "body" = some (.str (d.serde.toString body))

/-- The text of a value is read back. -/
def ReadsText (d : Codecs) (value : Json) : Prop :=
  d.serde.fromStr (d.serde.toString value) = some value

/-- The text of a value is read back, and so is its base64. -/
structure ReadsBack (d : Codecs) (body : Json) : Prop where
  text : ReadsText d body
  coded : d.base64 (d.encodedBody body) = some (d.serde.toString body)

theorem strField_eq_some {envelope : Json} {name s : String} :
    strField envelope name = some s ↔ envelope.get name = some (.str s) := by
  rw [strField, Option.bind_eq_some_iff]
  constructor
  · intro ⟨value, hvalue, hstr⟩
    cases value <;> simp_all [Json.asStr]
  · intro h
    exact ⟨.str s, h, rfl⟩

theorem isBase64_iff {envelope : Json} : isBase64 envelope = true ↔ DeclaresBase64 envelope := by
  have htop : (strField envelope "content-encoding").getD "utf-8" = "base64" ↔
      envelope.get "content-encoding" = some (.str "base64") := by
    rw [← strField_eq_some]
    cases strField envelope "content-encoding" with
    | none => simp
    | some encoding => simp
  have hproperties : (envelope.get "properties").bind (strField · "body_encoding") =
      some "base64" ↔ ∃ properties, envelope.get "properties" = some properties ∧
        properties.get "body_encoding" = some (.str "base64") := by
    simp [Option.bind_eq_some_iff, strField_eq_some]
  simp [isBase64, DeclaresBase64, htop, hproperties]

theorem contentType_of_declaresJson {envelope : Json} (h : DeclaresJson envelope) :
    (strField envelope "content-type").getD "application/json" = "application/json" := by
  cases htype : strField envelope "content-type" with
  | none => rfl
  | some s => exact h s (strField_eq_some.1 htype)

/-- Every envelope that carries a value wraps it, whatever else it holds. -/
theorem CarriesBody.wraps {d : Codecs} {envelope body : Json} {raw : String}
    (h : CarriesBody d envelope body) (hbody : ReadsBack d body)
    (hraw : d.serde.fromStr raw = some envelope) : Wraps d.toDecoders raw body := by
  have hjson := contentType_of_declaresJson h.isJson
  by_cases hcoded : DeclaresBase64 envelope
  · exact .base64 hraw hjson (strField_eq_some.2 (h.coded hcoded)) (isBase64_iff.2 hcoded)
      hbody.coded hbody.text
  · have hplain : isBase64 envelope = false := by
      rw [← Bool.not_eq_true, isBase64_iff]
      exact hcoded
    exact .json hraw hjson (strField_eq_some.2 (h.plain hcoded)) hplain hbody.text

/-- An envelope of three fields that matter, in any order with any others. -/
theorem carriesBody_of_coded {d : Codecs} {envelope body properties : Json}
    (htype : envelope.get "content-type" = some (.str "application/json"))
    (hproperties : envelope.get "properties" = some properties)
    (hencoding : properties.get "body_encoding" = some (.str "base64"))
    (hbody : envelope.get "body" = some (.str (d.encodedBody body))) :
    CarriesBody d envelope body where
  isJson s h := by simpa [htype] using h.symm
  coded _ := hbody
  plain h := absurd (.inr ⟨properties, hproperties, hencoding⟩) h

theorem PublishedTask.carriesBody_envelope (d : Codecs) (task : PublishedTask)
    (deliveryTag : String) : CarriesBody d (task.envelope d deliveryTag) task.body :=
  carriesBody_of_coded (Json.get_ofEntries [_, _] "content-type" _ (by simp))
    (Json.get_ofEntries [_, _, _, _] "properties" _ (by simp))
    (Json.get_ofEntries [_, _, _, _, _] "body_encoding" _ (by simp))
    (Json.get_ofEntries [] "body" _ (by simp))

theorem carriesBody_redisControlEnvelope (d : Codecs) (controlMsg : Json) (deliveryTag : String) :
    CarriesBody d (redisControlEnvelope d controlMsg deliveryTag) controlMsg :=
  carriesBody_of_coded (Json.get_ofEntries [_, _] "content-type" _ (by simp))
    (Json.get_ofEntries [_, _, _, _] "properties" _ (by simp))
    (Json.get_ofEntries [_, _] "body_encoding" _ (by simp))
    (Json.get_ofEntries [] "body" _ (by simp))

/-! ### Every declaration of the encoding -/

/-- An optional entry of an object. -/
def optionalEntry (key : String) (value : Option String) : List (String × Json) :=
  value.toList.map fun s => (key, .str s)

/-- An envelope with its type and its encoding declared or not. -/
def declaredEnvelope (d : Codecs) (contentType contentEncoding bodyEncoding : Option String)
    (body : Json) : Json :=
  .ofEntries (optionalEntry "content-type" contentType ++
    optionalEntry "content-encoding" contentEncoding ++
    [("properties", .ofEntries (optionalEntry "body_encoding" bodyEncoding)),
      ("body", .str (if contentEncoding = some "base64" ∨ bodyEncoding = some "base64" then
        d.encodedBody body else d.serde.toString body))])

/-- An optional entry is read back if no later one has its key. -/
theorem get_optionalEntry {key : String} (before : List (String × Json)) (value : Option String)
    (after : List (String × Json)) (hbefore : ∀ e ∈ before, e.1 ≠ key)
    (hafter : ∀ e ∈ after, e.1 ≠ key) :
    (Json.ofEntries (before ++ optionalEntry key value ++ after)).get key = value.map .str := by
  cases value with
  | none =>
      refine Json.get_ofEntries_of_not_mem fun e he => ?_
      rcases List.mem_append.1 he with hfirst | hlast
      · exact hbefore e (by simpa [optionalEntry] using hfirst)
      · exact hafter e hlast
  | some s =>
      rw [List.append_assoc]
      exact Json.get_ofEntries before key (.str s) hafter

theorem ne_of_mem_optionalEntry {key other : String} {value : Option String} (h : key ≠ other) :
    ∀ e ∈ optionalEntry key value, e.1 ≠ other := by
  intro e he
  obtain ⟨s, -, rfl⟩ := List.mem_map.1 he
  exact h

theorem carriesBody_declaredEnvelope (d : Codecs) {contentType : Option String}
    (contentEncoding bodyEncoding : Option String) (body : Json)
    (htype : ∀ s, contentType = some s → s = "application/json") :
    CarriesBody d (declaredEnvelope d contentType contentEncoding bodyEncoding body) body := by
  have hcontentType : (declaredEnvelope d contentType contentEncoding bodyEncoding body).get
      "content-type" = contentType.map .str := by
    rw [declaredEnvelope, List.append_assoc]
    refine get_optionalEntry [] contentType _ (by simp) ?_
    have hne : ∀ e ∈ optionalEntry "content-encoding" contentEncoding, e.1 ≠ "content-type" :=
      ne_of_mem_optionalEntry (by decide)
    intro e he
    rcases List.mem_append.1 he with hfirst | hlast
    · exact hne e hfirst
    · rcases List.mem_pair.1 hlast with rfl | rfl <;> simp
  have hcontentEncoding : (declaredEnvelope d contentType contentEncoding bodyEncoding body).get
      "content-encoding" = contentEncoding.map .str :=
    get_optionalEntry _ contentEncoding _ (ne_of_mem_optionalEntry (by decide)) (by simp)
  have hbodyEncoding : (Json.ofEntries (optionalEntry "body_encoding" bodyEncoding)).get
      "body_encoding" = bodyEncoding.map .str := by
    have : (Json.ofEntries ([] ++ optionalEntry "body_encoding" bodyEncoding ++ [])).get
        "body_encoding" = bodyEncoding.map .str :=
      get_optionalEntry [] bodyEncoding [] (by simp) (by simp)
    simpa using this
  have hdeclares : DeclaresBase64 (declaredEnvelope d contentType contentEncoding bodyEncoding body)
      ↔ contentEncoding = some "base64" ∨ bodyEncoding = some "base64" := by
    have hproperties : (declaredEnvelope d contentType contentEncoding bodyEncoding body).get
        "properties" = some (.ofEntries (optionalEntry "body_encoding" bodyEncoding)) :=
      Json.get_ofEntries _ "properties" _ (by simp)
    simp [DeclaresBase64, hcontentEncoding, hproperties, hbodyEncoding]
  have hbody : (declaredEnvelope d contentType contentEncoding bodyEncoding body).get "body" =
      some (.str (if contentEncoding = some "base64" ∨ bodyEncoding = some "base64" then
        d.encodedBody body else d.serde.toString body)) := by
    rw [declaredEnvelope, List.append_cons]
    exact Json.get_ofEntries _ "body" _ (by simp)
  refine ⟨fun s hs => ?_, fun hcoded => ?_, fun hplain => ?_⟩
  · rw [hcontentType] at hs
    exact htype s (by simpa using hs)
  · rw [hbody, if_pos (hdeclares.1 hcoded)]
  · rw [hbody, if_neg (mt hdeclares.2 hplain)]

/-- **Encode and decode agree.** The texts that are published decode to the control message and to
the body of the task. So does every text whose envelope carries a value, whatever it declares and
whatever else it holds: those of every combination of declarations are among them. -/
theorem decodeKombuBody_roundTrip (d : Codecs) :
    (∀ method arguments destination deliveryTag,
      let msg := controlMsg method arguments destination
      ReadsBack d msg → ReadsText d (redisControlEnvelope d msg deliveryTag) →
        decodeKombuBody d.toDecoders
          (redisBroadcastControl d method arguments destination deliveryTag) = some msg) ∧
      (∀ msg deliveryTag,
        ReadsBack d msg → ReadsText d (redisControlEnvelope d msg deliveryTag) →
          decodeKombuBody d.toDecoders
            (d.serde.toString (redisControlEnvelope d msg deliveryTag)) = some msg) ∧
      (∀ (task : PublishedTask) deliveryTag,
        ReadsBack d task.body → ReadsText d (task.envelope d deliveryTag) →
          decodeKombuBody d.toDecoders (redisPublishTask d task deliveryTag) = some task.body) ∧
      (∀ raw envelope body, d.serde.fromStr raw = some envelope → CarriesBody d envelope body →
        ReadsBack d body → decodeKombuBody d.toDecoders raw = some body) ∧
      ∀ contentType contentEncoding bodyEncoding body,
        (∀ s, contentType = some s → s = "application/json") →
          CarriesBody d
            (declaredEnvelope d contentType contentEncoding bodyEncoding body) body := by
  have hdecode : ∀ raw envelope body, d.serde.fromStr raw = some envelope →
      CarriesBody d envelope body → ReadsBack d body →
        decodeKombuBody d.toDecoders raw = some body :=
    fun raw envelope body hraw hcarries hbody =>
      decodeKombuBody_of_wraps (hcarries.wraps hbody hraw)
  refine ⟨?_, ?_, ?_, hdecode, ?_⟩
  · intro method arguments destination deliveryTag msg hmsg henvelope
    exact hdecode _ _ _ henvelope (carriesBody_redisControlEnvelope d msg deliveryTag) hmsg
  · intro msg deliveryTag hmsg henvelope
    exact hdecode _ _ _ henvelope (carriesBody_redisControlEnvelope d msg deliveryTag) hmsg
  · intro task deliveryTag hbody henvelope
    exact hdecode _ _ _ henvelope (task.carriesBody_envelope d deliveryTag) hbody
  · intro contentType contentEncoding bodyEncoding body htype
    exact carriesBody_declaredEnvelope d contentEncoding bodyEncoding body htype

/-- A ping, as it is broadcast. -/
def pingMsg : Json := controlMsg "ping" (.obj []) none

def pingText : String :=
  "\x7b\"arguments\":\x7b\x7d,\"destination\":null,\"matcher\":null,\"method\":\"" ++
  "ping\",\"pattern\":null\x7d"

def pingBody : String :=
  "eyJhcmd1bWVudHMiOnt9LCJkZXN0aW5hdGlvbiI6bnVsbCwibWF0Y2hlciI6bnVsbCwibWV0aG9kIj" ++
  "oicGluZyIsInBhdHRlcm4iOm51bGx9"

/-- The text that is published for it. -/
def pingEnvelopeText : String :=
  "\x7b\"body\":\"eyJhcmd1bWVudHMiOnt9LCJkZXN0aW5hdGlvbiI6bnVsbCwibWF0Y2hlciI6bnV" ++
  "sbCwibWV0aG9kIjoicGluZyIsInBhdHRlcm4iOm51bGx9\",\"content-encoding\":\"utf-8\"" ++
  ",\"content-type\":\"application/json\",\"headers\":\x7b\"clock\":0,\"expires\"" ++
  ":0\x7d,\"properties\":\x7b\"body_encoding\":\"base64\",\"delivery_info\":\x7b" ++
  "\"exchange\":\"celery.pidbox\",\"routing_key\":\"\"\x7d,\"delivery_tag\":\"tag" ++
  "-1\",\"priority\":0\x7d\x7d"

def pingEnvelope : Json :=
  .ofEntries [
    ("body", .str pingBody),
    ("content-encoding", .str "utf-8"),
    ("content-type", .str "application/json"),
    ("headers", .ofEntries [("clock", .int 0), ("expires", .int 0)]),
    ("properties", .ofEntries [
      ("delivery_info", .ofEntries [("exchange", .str "celery.pidbox"), ("routing_key", .str "")]),
      ("priority", .int 0),
      ("body_encoding", .str "base64"),
      ("delivery_tag", .str "tag-1")])]

/-- The codecs, as far as a ping needs them. -/
def pingCodecs : Codecs where
  serde :=
    { toString := fun v =>
        if v = pingMsg then pingText else if v = pingEnvelope then pingEnvelopeText else ""
      fromStr := fun s =>
        if s = pingText then some pingMsg else
          if s = pingEnvelopeText then some pingEnvelope else none }
  base64 s := if s = pingBody then some pingText else none
  encode s := if s = pingText then pingBody else ""

theorem decodeKombuBody_ping :
    decodeKombuBody pingCodecs.toDecoders
      (redisBroadcastControl pingCodecs "ping" (.obj []) none "tag-1") = some pingMsg := by
  have henvelope : redisControlEnvelope pingCodecs pingMsg "tag-1" = pingEnvelope := by
    decide +kernel
  have hmsg : pingCodecs.serde.fromStr (pingCodecs.serde.toString pingMsg) = some pingMsg := by
    decide +kernel
  have hcoded : pingCodecs.base64 (pingCodecs.encodedBody pingMsg) =
      some (pingCodecs.serde.toString pingMsg) := by
    decide +kernel
  have hback : pingCodecs.serde.fromStr (pingCodecs.serde.toString pingEnvelope) =
      some pingEnvelope := by
    decide +kernel
  exact (decodeKombuBody_roundTrip pingCodecs).1 "ping" (.obj []) none "tag-1"
    ⟨hmsg, hcoded⟩ (henvelope.symm ▸ hback)

end Feloxi.Broker
