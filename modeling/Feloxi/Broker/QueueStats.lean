import Feloxi.Broker.RedisUrl
import Feloxi.Lib.SortDedup
import Feloxi.Redis.QueueDepths

/-!
# Feloxi.Broker.QueueStats

The queues of a broker and their depths (`queue_stats` in
`crates/api/src/broker_conn/commands.rs`). A Redis broker lists its queues in the bindings of Kombu;
an AMQP broker is asked for each candidate.
-/

namespace Feloxi.Broker

open Redis (QueueInfo)
open Separators
open SortDedup

/-! ### Bindings -/

/-- What Kombu puts between the parts of a member of a binding set. -/
def bindingSep : List Char := ['\x06', '\x16']

structure Binding where
  routingKey : String
  pattern : String
  queue : String
  deriving DecidableEq

/-- The member that Kombu stores. -/
def Binding.member (b : Binding) : String :=
  String.ofList (bindingSep.intercalate [b.routingKey.toList, b.pattern.toList, b.queue.toList])

/-- What comes behind the first separator. -/
def behindSep (text : List Char) : Option (List Char) := (text.dropInfix? bindingSep).map Prod.snd

/-- What comes before the first separator, or all. -/
def beforeSep (text : List Char) : List Char :=
  match text.dropInfix? bindingSep with
  | some (head, _) => head
  | none => text

/-- `binding_member_queue`: the third part, unless it is empty. -/
def bindingMemberQueue (member : String) : Option String :=
  (((behindSep member.toList).bind behindSep).map beforeSep).bind fun queue =>
    if queue = [] then none else some (String.ofList queue)

/-- `is_internal_binding`. -/
def isInternalBinding (name : String) : Bool :=
  name == "celeryev" || decide (".pidbox".toList <:+ name.toList) ||
    decide ("reply.".toList <+: name.toList)

/-! ### Redis -/

/-- The Redis of a broker, as far as it answers. -/
structure RedisServer where
  /-- The keys that a `SCAN` with this pattern comes up with, some of them maybe twice. -/
  scan : String → List String
  /-- Nothing if the command fails. -/
  smembers : String → List String
  /-- Zero if the command fails. -/
  llen : String → UInt64

/-- `BINDING_PREFIX`, behind the prefix of the broker. -/
def bindingPrefix (broker : RedisBrokerUrl) : String := broker.key "_kombu.binding."

/-- The exchange of a key that a scan came up with. -/
def exchangeOf (broker : RedisBrokerUrl) (key : String) : Option String :=
  (key.toList.dropPrefix? (bindingPrefix broker).toList).map String.ofList

/-- The binding keys of the task queues. -/
def bindingKeys (server : RedisServer) (broker : RedisBrokerUrl) : List String :=
  (server.scan (bindingPrefix broker ++ "*")).filter fun key =>
    (exchangeOf broker key).any fun exchange => !isInternalBinding exchange

def redisQueueNames (server : RedisServer) (broker : RedisBrokerUrl) : List String :=
  sortDedup ((bindingKeys server broker).flatMap fun key =>
    (server.smembers key).filterMap bindingMemberQueue)

/-- `redis_queue_stats`, on a connection. -/
def redisQueueStats (server : RedisServer) (broker : RedisBrokerUrl) : List QueueInfo :=
  (redisQueueNames server broker).map fun name => ⟨name, server.llen (broker.key name)⟩

/-! ### AMQP -/

/-- An AMQP connection. -/
structure AmqpServer where
  /-- The messages of a queue that may be declared passively. -/
  queueDeclare : String → Option UInt32
  /-- The channels that can be opened before the connection fails. -/
  channels : Nat

/-- The names that are probed: the default queue of Celery is always one of them. -/
def probedNames (candidates : List String) : List String :=
  sortDedup (if "celery" ∈ candidates then candidates else candidates ++ ["celery"])

/-- `amqp_queue_stats`, on a connection. -/
def amqpQueueStats (server : AmqpServer) (candidates : List String) : List QueueInfo :=
  ((probedNames candidates).take server.channels).filterMap fun name =>
    (server.queueDeclare name).map fun count => ⟨name, count.toUInt64⟩

/-! ### Any broker -/

/-- What connecting to a URL comes to. -/
structure Network where
  redis : String → Except String RedisServer
  amqp : String → Except String AmqpServer

/-- `queue_stats`. -/
def queueStats (network : Network) (brokerType url : String) (candidates : List String) :
    Except String (List QueueInfo) :=
  if brokerType = "redis" then
    let broker := RedisBrokerUrl.parse url
    (network.redis broker.url).map fun server => redisQueueStats server broker
  else if brokerType = "rabbitmq" ∨ brokerType = "amqp" then
    (network.amqp url).map fun server => amqpQueueStats server candidates
  else .error ("Unsupported broker type: " ++ brokerType)

/-! ### Reading a binding back -/

/-- The separator stands nowhere in the text, and does not begin at its end. -/
def Apart (text : String) : Prop := apart '\x06' '\x16' text.toList = true

theorem behindSep_append {head : List Char} (h : apart '\x06' '\x16' head = true)
    (rest : List Char) : behindSep (head ++ bindingSep ++ rest) = some rest := by
  rw [behindSep, bindingSep, dropInfix?_of_apart h [] rest]
  rfl

theorem not_apart_append (head rest : List Char) :
    apart '\x06' '\x16' (head ++ bindingSep ++ rest) = false := by
  rw [bindingSep, List.append_assoc]
  induction head with
  | nil => simp [apart]
  | cons c head ih =>
      cases head with
      | nil => simp [apart]
      | cons d head =>
          simp only [List.cons_append] at ih ⊢
          rw [apart, ih, Bool.and_false]

theorem beforeSep_of_apart {text : List Char} (h : apart '\x06' '\x16' text = true) :
    beforeSep text = text := by
  rw [beforeSep]
  split
  · rename_i head tail hcut
    rw [(dropInfix?_eq_some.1 hcut).1, not_apart_append] at h
    cases h
  · rfl

theorem bindingMemberQueue_member {b : Binding} (hkey : Apart b.routingKey)
    (hpattern : Apart b.pattern) (hqueue : Apart b.queue) :
    bindingMemberQueue b.member = if b.queue = "" then none else some b.queue := by
  have hmember : b.member.toList = b.routingKey.toList ++ bindingSep ++
      (b.pattern.toList ++ bindingSep ++ b.queue.toList) := by
    simp [Binding.member, List.intercalate_cons_cons]
  rw [bindingMemberQueue, hmember, behindSep_append hkey, Option.bind_some,
    behindSep_append hpattern, Option.map_some, beforeSep_of_apart hqueue]
  simp [String.toList_eq_nil_iff]

/-! ### The queues that are listed -/

/-- The bindings of the exchanges of a broker. -/
abbrev BindingTable := List (String × List Binding)

/-- The server holds the table: a scan for the binding keys comes up with the exchanges, in any
order and as often as it likes, and the set of an exchange has its members. -/
structure Serves (server : RedisServer) (broker : RedisBrokerUrl) (table : BindingTable) :
    Prop where
  scan : ∀ key, key ∈ server.scan (bindingPrefix broker ++ "*") ↔
    ∃ e ∈ table, key = bindingPrefix broker ++ e.1
  smembers : ∀ e ∈ table, ∀ member,
    member ∈ server.smembers (bindingPrefix broker ++ e.1) ↔ ∃ b ∈ e.2, member = b.member

theorem exchangeOf_append (broker : RedisBrokerUrl) (exchange : String) :
    exchangeOf broker (bindingPrefix broker ++ exchange) = some exchange := by
  rw [exchangeOf, String.toList_append, dropPrefix?_eq_some.2 rfl, Option.map_some,
    String.ofList_toList]

theorem mem_bindingKeys {server : RedisServer} {broker : RedisBrokerUrl} {table : BindingTable}
    (h : Serves server broker table) {key : String} :
    key ∈ bindingKeys server broker ↔
      ∃ e ∈ table, isInternalBinding e.1 = false ∧ key = bindingPrefix broker ++ e.1 := by
  rw [bindingKeys, List.mem_filter, h.scan]
  constructor
  · rintro ⟨⟨e, he, rfl⟩, hvisible⟩
    refine ⟨e, he, ?_, rfl⟩
    simpa [exchangeOf_append] using hvisible
  · rintro ⟨e, he, hvisible, rfl⟩
    exact ⟨⟨e, he, rfl⟩, by simp [exchangeOf_append, hvisible]⟩

/-- **The queues of a Redis broker.** Whatever Kombu has bound, in parts without the separator: each
queue that is bound on an exchange of its own is listed once, in the order of the names and with the
length of its list, and nothing else is. -/
theorem redisQueueStats_table (server : RedisServer) (broker : RedisBrokerUrl)
    (table : BindingTable) (h : Serves server broker table)
    (hapart : ∀ e ∈ table, ∀ b ∈ e.2, Apart b.routingKey ∧ Apart b.pattern ∧ Apart b.queue) :
    (redisQueueStats server broker).Pairwise (fun a b => a.queueName < b.queueName) ∧
      ∀ q, q ∈ redisQueueStats server broker ↔
        q.depth = server.llen (broker.key q.queueName) ∧ q.queueName ≠ "" ∧
          ∃ e ∈ table, isInternalBinding e.1 = false ∧ ∃ b ∈ e.2, b.queue = q.queueName := by
  have hname : ∀ name, name ∈ redisQueueNames server broker ↔
      name ≠ "" ∧ ∃ e ∈ table, isInternalBinding e.1 = false ∧ ∃ b ∈ e.2, b.queue = name := by
    intro name
    rw [redisQueueNames, mem_sortDedup]
    simp only [List.mem_flatMap, List.mem_filterMap]
    constructor
    · rintro ⟨key, hkey, member, hmember, hqueue⟩
      obtain ⟨e, he, hvisible, rfl⟩ := (mem_bindingKeys h).1 hkey
      obtain ⟨b, hb, rfl⟩ := (h.smembers e he member).1 hmember
      obtain ⟨hrouting, hpattern, hlast⟩ := hapart e he b hb
      rw [bindingMemberQueue_member hrouting hpattern hlast] at hqueue
      split at hqueue
      · cases hqueue
      · cases hqueue
        exact ⟨‹_›, e, he, hvisible, b, hb, rfl⟩
    · rintro ⟨hne, e, he, hvisible, b, hb, rfl⟩
      obtain ⟨hrouting, hpattern, hlast⟩ := hapart e he b hb
      refine ⟨_, (mem_bindingKeys h).2 ⟨e, he, hvisible, rfl⟩, b.member, ?_, ?_⟩
      · exact (h.smembers e he _).2 ⟨b, hb, rfl⟩
      · rw [bindingMemberQueue_member hrouting hpattern hlast, if_neg hne]
  refine ⟨List.pairwise_map.2 (pairwise_sortDedup _), fun q => ?_⟩
  rw [redisQueueStats, List.mem_map]
  constructor
  · rintro ⟨name, hmem, rfl⟩
    exact ⟨rfl, (hname name).1 hmem⟩
  · rintro ⟨hdepth, hlisted⟩
    exact ⟨q.queueName, (hname q.queueName).2 hlisted, by rw [← hdepth]⟩

/-- A broker with one exchange, bound to one queue. -/
def mailBroker : RedisBrokerUrl := ⟨"redis://broker", "app."⟩

def mailBinding : Binding := ⟨"email.#", "", "emails"⟩

def mailServer : RedisServer where
  scan _ := [bindingPrefix mailBroker ++ "mail"]
  smembers _ := [mailBinding.member]
  llen _ := 4

theorem redisQueueStats_mail : ⟨"emails", 4⟩ ∈ redisQueueStats mailServer mailBroker := by
  have hserves : Serves mailServer mailBroker [("mail", [mailBinding])] := by
    refine ⟨fun key => by simp [mailServer], ?_⟩
    intro e he member
    rw [List.mem_singleton.1 he]
    simp [mailServer]
  have hapart : ∀ e ∈ [("mail", [mailBinding])], ∀ b ∈ e.2,
      Apart b.routingKey ∧ Apart b.pattern ∧ Apart b.queue := by
    simp [mailBinding, Apart, apart]
  refine ((redisQueueStats_table _ _ _ hserves hapart).2 _).2 ⟨rfl, by decide, ?_⟩
  exact ⟨_, List.mem_singleton_self _, by decide, mailBinding, List.mem_singleton_self _, rfl⟩

/-! ### The queues that are probed -/

@[simp] theorem mem_probedNames {candidates : List String} {name : String} :
    name ∈ probedNames candidates ↔ name ∈ candidates ∨ name = "celery" := by
  rw [probedNames, mem_sortDedup]
  split
  · refine ⟨.inl, ?_⟩
    rintro (h | rfl)
    · exact h
    · assumption
  · simp

theorem length_probedNames_le (candidates : List String) :
    (probedNames candidates).length ≤ candidates.length + 1 := by
  refine (length_sortDedup_le _).trans ?_
  split
  · exact Nat.le_succ _
  · simp

/-- A queue among the candidates is reported, if the connection lasts for all of them. -/
theorem mem_amqpQueueStats {server : AmqpServer} {candidates : List String} {name : String}
    {count : UInt32} (hmem : name ∈ candidates) (hcount : server.queueDeclare name = some count)
    (hchannels : candidates.length < server.channels) :
    ⟨name, count.toUInt64⟩ ∈ amqpQueueStats server candidates := by
  have hall : (probedNames candidates).take server.channels = probedNames candidates :=
    List.take_of_length_le ((length_probedNames_le candidates).trans hchannels)
  rw [amqpQueueStats, hall]
  exact List.mem_filterMap.2 ⟨name, mem_probedNames.2 (.inl hmem), by simp [hcount]⟩

end Feloxi.Broker
