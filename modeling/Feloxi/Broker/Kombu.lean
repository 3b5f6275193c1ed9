import Feloxi.Pipeline.Events

/-!
# Feloxi.Broker.Kombu

Kombu message envelopes (`crates/api/src/broker_conn/kombu.rs`): the body of an envelope,
and the event type read off it.
-/

namespace Feloxi.Broker

open Pipeline (SerdeJson strField)

/-- The decoders of message bodies that this repository does not define. -/
structure Decoders where
  serde : SerdeJson
  /-- `STANDARD.decode`, as text: bytes that are not UTF-8 are no JSON either. -/
  base64 : String → Option String

/-- `starts_with`. -/
def startsWith (s lead : String) : Bool := lead.toList.isPrefixOf s.toList

/-- Whether the body of an envelope is base64; Celery's Redis transport says so under
`properties`. -/
def isBase64 (envelope : Json) : Bool :=
  (strField envelope "content-encoding").getD "utf-8" == "base64" ||
    (envelope.get "properties").bind (strField · "body_encoding") == some "base64"

/-- `decode_kombu_body`. -/
def decodeKombuBody (d : Decoders) (raw : String) : Option Json := do
  let envelope ← d.serde.fromStr raw
  let bodyStr ← strField envelope "body"
  let contentType := (strField envelope "content-type").getD "application/json"
  let decoded ← if isBase64 envelope then d.base64 bodyStr else some bodyStr
  if contentType == "application/json" then d.serde.fromStr decoded else none

/-- An element of an array body; a string is JSON once more. -/
def arrayItem (serde : SerdeJson) (item : Json) : Option Json :=
  match item.asStr with
  | some s => serde.fromStr s
  | none => some item

/-- `extract_type_from_body`: of an array, the type of the first element that has one. -/
def extractTypeFromBody (serde : SerdeJson) (body : Json) : Option String :=
  (strField body "type").or (body.asArray.bind fun items =>
    items.findSome? fun item => (arrayItem serde item).bind (strField · "type"))

/-- `rk.replace('.', "-")`. -/
def dotsToDashes (rk : String) : String :=
  String.ofList (rk.toList.map fun c => if c = '.' then '-' else c)

/-- `extract_event_type`: from the headers, the body or the routing key. -/
def extractEventType (d : Decoders) (envelope : String) : Option String := do
  let val ← d.serde.fromStr envelope
  let fromHeaders := (val.get "headers").bind (strField · "task")
  let fromBody := (strField val "body").bind fun bodyStr =>
    ((d.serde.fromStr bodyStr).bind (extractTypeFromBody d.serde)).or
      (((d.base64 bodyStr).bind d.serde.fromStr).bind (extractTypeFromBody d.serde))
  let fromRoutingKey := (((val.get "properties").bind (·.get "delivery_info")).bind
    (strField · "routing_key")).map dotsToDashes
  fromHeaders.or (fromBody.or fromRoutingKey)

/-- A text is an envelope around a body, which it holds as JSON or as base64. -/
inductive Wraps (d : Decoders) (raw : String) (body : Json) : Prop where
  | json {envelope : Json} {bodyStr : String} (isEnvelope : d.serde.fromStr raw = some envelope)
      (isJson : (strField envelope "content-type").getD "application/json" = "application/json")
      (hasBody : strField envelope "body" = some bodyStr) (plain : isBase64 envelope = false)
      (isBody : d.serde.fromStr bodyStr = some body)
  | base64 {envelope : Json} {bodyStr text : String}
      (isEnvelope : d.serde.fromStr raw = some envelope)
      (isJson : (strField envelope "content-type").getD "application/json" = "application/json")
      (hasBody : strField envelope "body" = some bodyStr) (coded : isBase64 envelope = true)
      (isText : d.base64 bodyStr = some text) (isBody : d.serde.fromStr text = some body)

/-- Both kinds of envelope decode to their body. -/
theorem decodeKombuBody_of_wraps {d : Decoders} {raw : String} {body : Json}
    (h : Wraps d raw body) : decodeKombuBody d raw = some body := by
  cases h with
  | json isEnvelope isJson hasBody plain isBody =>
      simp [decodeKombuBody, isEnvelope, hasBody, plain, isJson, isBody]
  | base64 isEnvelope isJson hasBody coded isText isBody =>
      simp [decodeKombuBody, isEnvelope, hasBody, coded, isText, isJson, isBody]

end Feloxi.Broker
