import Feloxi.Broker.RedisUrl
import Mathlib.Algebra.Group.Nat.Defs
import Mathlib.Data.List.TakeWhile

/-!
# Feloxi.Broker.RedisDb

The number of a broker's database, and the channels that are named after it. The number is looked
for behind the last `/` of the URL, and a query is only cut off afterwards: a `/` of a parameter
comes behind the one of the path.
-/

namespace Feloxi.Broker

open Separators

/-! ### Reading the number -/

/-- `s.parse::<u32>()`. -/
def parseU32 (s : List Char) : Option Nat :=
  let digits := match s with
    | '+' :: rest => rest
    | _ => s
  if digits = [] ∨ ¬ digits.all Char.isDigit then none
  else if Nat.ofDigitChars 10 digits 0 < 2 ^ 32 then some (Nat.ofDigitChars 10 digits 0)
  else none

/-- `rsplit('/').next()`. -/
def lastSegment (text : List Char) : List Char := ((splitLast '/' text).map (·.2)).getD text

/-- What is parsed: the last segment up to the next `?`. -/
def dbText (url : List Char) : List Char := (lastSegment url).takeWhile (· != '?')

/-- `parse_redis_db`. -/
def parseRedisDb (url : String) : Nat := (parseU32 (dbText url.toList)).getD 0

/-! ### The channels -/

/-- `redis_pidbox_channel`. -/
def redisPidboxChannel (db : Nat) : String := "/" ++ toString db ++ ".celery.pidbox"

/-- The pattern of the events of a database. -/
def celeryevPattern (db : Nat) : String := "/" ++ toString db ++ ".celeryev/*"

/-- The pattern that `run_redis_consumer` subscribes to. -/
def patternWithDb (raw : String) : String :=
  let broker := RedisBrokerUrl.parse raw
  broker.key (celeryevPattern (parseRedisDb broker.url))

/-- The channel that `redis_broadcast_control` publishes on. -/
def controlChannel (raw : String) : String :=
  let broker := RedisBrokerUrl.parse raw
  broker.key (redisPidboxChannel (parseRedisDb broker.url))

/-- The number is read off the URL, and both channels are those of the database. -/
structure ServesDb (raw : String) (db : Nat) : Prop where
  number : parseRedisDb (RedisBrokerUrl.parse raw).url = db
  events : patternWithDb raw = (RedisBrokerUrl.parse raw).keyPrefix ++ celeryevPattern db
  pidbox : controlChannel raw = (RedisBrokerUrl.parse raw).keyPrefix ++ redisPidboxChannel db

theorem servesDb_iff_number {raw : String} {db : Nat} :
    ServesDb raw db ↔ parseRedisDb (RedisBrokerUrl.parse raw).url = db := by
  refine ⟨ServesDb.number, fun h => ⟨h, ?_, ?_⟩⟩
  · rw [patternWithDb, RedisBrokerUrl.key, h]
  · rw [controlChannel, RedisBrokerUrl.key, h]

/-! ### The last segment -/

theorem lastSegment_append {tail : List Char} (h : '/' ∉ tail) (front : List Char) :
    lastSegment (front ++ '/' :: tail) = tail := by
  rw [lastSegment, splitLast_append front h]
  rfl

/-- What stands before a text with a slash is of no account. -/
theorem lastSegment_append_of_mem {text : List Char} (h : '/' ∈ text) (front : List Char) :
    lastSegment (front ++ text) = lastSegment text := by
  obtain ⟨before, behind, rfl, hbehind⟩ := exists_last h
  rw [← List.append_assoc, lastSegment_append hbehind, lastSegment_append hbehind]

/-- A digit is no separator. -/
theorem ne_question_of_digits {digits : List Char} (h : digits.all Char.isDigit = true) :
    ∀ c ∈ digits, (c != '?') = true := by
  intro c hc
  rw [bne_iff_ne]
  intro hquestion
  have := List.all_eq_true.1 h c hc
  rw [hquestion] at this
  exact absurd this (by decide)

/-! ### Broker URLs with a database -/

/-- A URL up to its query: `redis://[userinfo@]host[:port]/n`. -/
structure DbUrl where
  /-- Everything before the slash of the path. -/
  authority : String
  digits : String
  db : Nat
  noQuery : '?' ∉ authority.toList
  allDigits : digits.toList.all Char.isDigit = true
  isU32 : parseU32 digits.toList = some db

/-- The URL without a query. -/
def DbUrl.base (u : DbUrl) : String := u.authority ++ "/" ++ u.digits

/-- The parameters that are left of a query. -/
def keptQuery (query : String) : String := "&".intercalate (keptPairs (queryPairs query))

/-- The parameters that are left have no slash, or the text behind their last slash is taken for
the same number. -/
def LeavesDb (query : String) (db : Nat) : Prop :=
  '/' ∉ (keptQuery query).toList ∨ (parseU32 (dbText (keptQuery query).toList)).getD 0 = db

theorem slash_not_mem_digits (u : DbUrl) : '/' ∉ u.digits.toList := by
  intro hmem
  exact absurd (List.all_eq_true.1 u.allDigits _ hmem) (by decide)

theorem question_not_mem_base (u : DbUrl) : '?' ∉ u.base.toList := by
  have hdigits : '?' ∉ u.digits.toList := by
    intro hmem
    exact absurd (List.all_eq_true.1 u.allDigits _ hmem) (by decide)
  simp [DbUrl.base, u.noQuery, hdigits]

/-- Without a slash in its parameters, a URL has the number of its path. -/
theorem parseRedisDb_joinUrl (u : DbUrl) {kept : List String}
    (h : '/' ∉ ("&".intercalate kept).toList) : parseRedisDb (joinUrl u.base kept) = u.db := by
  have hslash := slash_not_mem_digits u
  by_cases hnil : kept = []
  · subst hnil
    have htake : u.digits.toList.takeWhile (· != '?') = u.digits.toList :=
      List.takeWhile_eq_self_iff.2 (ne_question_of_digits u.allDigits)
    have hbase : u.base.toList = u.authority.toList ++ '/' :: u.digits.toList := by
      simp [DbUrl.base]
    rw [joinUrl_nil, parseRedisDb, dbText, hbase, lastSegment_append hslash, htake, u.isU32]
    rfl
  · have hurl : (joinUrl u.base kept).toList = u.authority.toList ++
        '/' :: (u.digits.toList ++ '?' :: ("&".intercalate kept).toList) := by
      simp [joinUrl_of_ne_nil hnil, DbUrl.base, -String.toList_intercalate]
    have hsegment : '/' ∉ u.digits.toList ++ '?' :: ("&".intercalate kept).toList := by
      simp [hslash, h, -String.toList_intercalate]
    -- the query is cut off behind the digits
    have htake : (u.digits.toList ++ '?' :: ("&".intercalate kept).toList).takeWhile (· != '?') =
        u.digits.toList := by
      rw [List.takeWhile_append_of_pos (ne_question_of_digits u.allDigits)]
      simp
    rw [parseRedisDb, dbText, hurl, lastSegment_append hsegment, htake, u.isU32]
    rfl

/-- With a slash in its parameters, a URL has the number that is read behind the last one. -/
theorem parseRedisDb_joinUrl_of_slash (base : String) {kept : List String}
    (h : '/' ∈ ("&".intercalate kept).toList) :
    parseRedisDb (joinUrl base kept) =
      (parseU32 (dbText ("&".intercalate kept).toList)).getD 0 := by
  have hne : kept ≠ [] := by
    rintro rfl
    simp at h
  have hurl : (joinUrl base kept).toList =
      (base ++ "?").toList ++ ("&".intercalate kept).toList := by
    rw [joinUrl_of_ne_nil hne, String.toList_append]
  rw [parseRedisDb, dbText, hurl, lastSegment_append_of_mem h, dbText]

/-- **The database of a broker URL.** Without a query the number of the path is read. With one it
is read exactly if the parameters other than the prefix leave it. -/
theorem servesDb_iff (u : DbUrl) :
    ServesDb u.base u.db ∧
      ∀ query, ServesDb (u.base ++ "?" ++ query) u.db ↔ LeavesDb query u.db := by
  have hbase := question_not_mem_base u
  constructor
  · have hparse : RedisBrokerUrl.parse (joinUrl u.base []) = ⟨joinUrl u.base [], ""⟩ :=
      parse_of_forall hbase (by simp) (by simp)
    rw [joinUrl_nil] at hparse
    rw [servesDb_iff_number, hparse]
    have hplain : '/' ∉ ("&".intercalate []).toList := by simp
    have hdb := parseRedisDb_joinUrl u hplain
    rwa [joinUrl_nil] at hdb
  · intro query
    have hraw : u.base ++ "?" ++ query = joinUrl u.base (queryPairs query) := by
      rw [joinUrl_of_ne_nil (queryPairs_ne_nil query), intercalate_queryPairs]
    rw [servesDb_iff_number, hraw,
      parse_joinUrl hbase fun pair hpair => not_mem_of_mem_queryPairs hpair]
    unfold LeavesDb keptQuery
    by_cases hslash : '/' ∈ ("&".intercalate (keptPairs (queryPairs query))).toList
    · rw [parseRedisDb_joinUrl_of_slash u.base hslash]
      simp [hslash, -String.toList_intercalate]
    · rw [parseRedisDb_joinUrl u hslash]
      simp [hslash, -String.toList_intercalate]

/-- The path of a certificate hides database 1. -/
theorem not_servesDb_certificate :
    parseRedisDb (RedisBrokerUrl.parse
        "redis://localhost:6379/1?ssl_ca_certs=/etc/ssl/ca.pem").url = 0 ∧
      ¬ ServesDb "redis://localhost:6379/1?ssl_ca_certs=/etc/ssl/ca.pem" 1 := by
  have hnumber : parseRedisDb (RedisBrokerUrl.parse
      "redis://localhost:6379/1?ssl_ca_certs=/etc/ssl/ca.pem").url = 0 := by
    decide +kernel
  refine ⟨hnumber, fun h => ?_⟩
  have := h.number
  rw [hnumber] at this
  cases this

end Feloxi.Broker
