import Feloxi.Lib.Percent

/-!
# Feloxi.Broker.RedisUrl

Redis broker URLs (`crates/api/src/broker_conn/commands.rs`): Kombu's `global_keyprefix` is taken
out of the query, and the number of the database is read off what is left.
-/

namespace Feloxi.Broker

open Separators

/-! ### The URL without the prefix -/

/-- `RedisBrokerUrl`. -/
structure RedisBrokerUrl where
  /-- The URL with `global_keyprefix` removed. -/
  url : String
  /-- The key prefix, empty when not set. -/
  keyPrefix : String
  deriving DecidableEq

/-- `PARAM`. -/
def prefixParam : String := "global_keyprefix"

/-- The key and the value of a parameter. -/
def keyAndValue (pair : String) : String × String := (splitOnce '=' pair).getD (pair, "")

/-- A round of the loop over the parameters. -/
def takePair (state : String × List String) (pair : String) : String × List String :=
  if (keyAndValue pair).1 = prefixParam then
    (Percent.utf8Lossy (Percent.decode (asBytes (keyAndValue pair).2)), state.2)
  else (state.1, state.2 ++ [pair])

/-- `query.split('&')`. -/
def queryPairs (query : String) : List String := (query.toList.splitOn '&').map String.ofList

/-- The base and the parameters, put together. -/
def joinUrl (base : String) (kept : List String) : String :=
  if kept.isEmpty then base else base ++ "?" ++ "&".intercalate kept

/-- `RedisBrokerUrl::parse`. -/
def RedisBrokerUrl.parse (raw : String) : RedisBrokerUrl :=
  match splitOnce '?' raw with
  | none => ⟨raw, ""⟩
  | some (base, query) =>
    let (keyPrefix, kept) := (queryPairs query).foldl takePair ("", [])
    ⟨joinUrl base kept, keyPrefix⟩

/-- `RedisBrokerUrl::key`. -/
def RedisBrokerUrl.key (broker : RedisBrokerUrl) (name : String) : String :=
  broker.keyPrefix ++ name

/-! ### The parameters of the prefix -/

/-- A parameter that sets the prefix, with or without a value. -/
def SetsPrefix (pair : String) : Prop :=
  pair = prefixParam ∨ ∃ value, pair = prefixParam ++ "=" ++ value

theorem keyAndValue_fst {pair : String} :
    (keyAndValue pair).1 = prefixParam ↔ SetsPrefix pair := by
  cases hcut : splitOnce '=' pair with
  | none =>
      have hplain := splitOnce_eq_none.1 hcut
      rw [keyAndValue, hcut, Option.getD_none, SetsPrefix]
      refine ⟨.inl, fun h => h.resolve_right fun ⟨value, hvalue⟩ => hplain ?_⟩
      simp [hvalue]
  | some cut =>
      obtain ⟨hpair, hkey⟩ := splitOnce_eq_some.1 hcut
      rw [keyAndValue, hcut, Option.getD_some, SetsPrefix]
      constructor
      · intro h
        refine .inr ⟨cut.2, String.toList_inj.1 ?_⟩
        simp [hpair, h]
      · rintro (rfl | ⟨value, rfl⟩)
        · have hnone : splitOnce '=' prefixParam = none := splitOnce_eq_none.2 (by decide)
          rw [hnone] at hcut
          cases hcut
        · have hsome : splitOnce '=' (prefixParam ++ "=" ++ value) = some (prefixParam, value) :=
            splitOnce_eq_some.2 ⟨by simp, by decide⟩
          rw [hsome] at hcut
          rw [← Option.some.inj hcut]

instance (pair : String) : Decidable (SetsPrefix pair) := decidable_of_iff _ keyAndValue_fst

/-- The value of a parameter that sets the prefix. -/
theorem keyAndValue_snd (value : String) :
    (keyAndValue (prefixParam ++ "=" ++ value)).2 = value := by
  have hsome : splitOnce '=' (prefixParam ++ "=" ++ value) = some (prefixParam, value) :=
    splitOnce_eq_some.2 ⟨by simp, by decide⟩
  rw [keyAndValue, hsome, Option.getD_some]

/-- The parameters that are kept, in their order. -/
def keptPairs (pairs : List String) : List String := pairs.filter fun pair => ¬ SetsPrefix pair

theorem takePair_of_not {pair : String} (h : ¬ SetsPrefix pair) (state : String × List String) :
    takePair state pair = (state.1, state.2 ++ [pair]) := by
  rw [takePair, if_neg (mt keyAndValue_fst.1 h)]

theorem foldl_takePair_snd (pairs : List String) (state : String × List String) :
    (pairs.foldl takePair state).2 = state.2 ++ keptPairs pairs := by
  induction pairs generalizing state with
  | nil => simp [keptPairs]
  | cons pair pairs ih =>
      rw [List.foldl_cons, ih]
      by_cases h : SetsPrefix pair
      · simp [h, takePair, keyAndValue_fst, keptPairs]
      · simp [h, takePair_of_not, keptPairs]

theorem keptPairs_of_forall {pairs : List String} (h : ∀ pair ∈ pairs, ¬ SetsPrefix pair) :
    keptPairs pairs = pairs := by
  rw [keptPairs, List.filter_eq_self]
  simpa using h

/-- Without a parameter that sets the prefix, it stays. -/
theorem foldl_takePair_fst {pairs : List String} (h : ∀ pair ∈ pairs, ¬ SetsPrefix pair)
    (state : String × List String) : (pairs.foldl takePair state).1 = state.1 := by
  induction pairs generalizing state with
  | nil => rfl
  | cons pair pairs ih =>
      rw [List.foldl_cons, ih fun p hp => h p (List.mem_cons_of_mem pair hp),
        takePair_of_not (h pair List.mem_cons_self)]

/-! ### A URL and its parameters -/

/-- The parameters of a URL. -/
def urlPairs (raw : String) : List String :=
  match splitOnce '?' raw with
  | none => []
  | some (_, query) => queryPairs query

theorem joinUrl_nil (base : String) : joinUrl base [] = base := rfl

theorem joinUrl_of_ne_nil {pairs : List String} (h : pairs ≠ []) (base : String) :
    joinUrl base pairs = base ++ "?" ++ "&".intercalate pairs := by
  rw [joinUrl, if_neg (by simpa using h)]

theorem splitOnce_query {base : String} (hbase : '?' ∉ base.toList) (query : String) :
    splitOnce '?' (base ++ "?" ++ query) = some (base, query) :=
  splitOnce_eq_some.2 ⟨by simp, hbase⟩

theorem intercalate_queryPairs (query : String) : "&".intercalate (queryPairs query) = query := by
  rw [← String.toList_inj, String.toList_intercalate, queryPairs, List.map_map]
  have hid : (String.toList ∘ String.ofList) = id := funext fun _ => String.toList_ofList
  rw [hid, List.map_id]
  exact List.intercalate_splitOn '&'

theorem queryPairs_ne_nil (query : String) : queryPairs query ≠ [] := by
  simp [queryPairs, List.splitOn_ne_nil]

theorem not_mem_of_mem_queryPairs {query pair : String} (h : pair ∈ queryPairs query) :
    '&' ∉ pair.toList := by
  obtain ⟨part, hpart, rfl⟩ := List.mem_map.1 h
  rw [String.toList_ofList]
  exact not_mem_of_mem_splitOn hpart

theorem queryPairs_intercalate {pairs : List String} (hpairs : ∀ pair ∈ pairs, '&' ∉ pair.toList)
    (hne : pairs ≠ []) : queryPairs ("&".intercalate pairs) = pairs := by
  have hsplit : (['&'].intercalate (pairs.map String.toList)).splitOn '&' =
      pairs.map String.toList := by
    refine List.splitOn_intercalate '&' ?_ (by simpa using hne)
    simpa using hpairs
  rw [queryPairs, String.toList_intercalate]
  exact (congrArg (List.map String.ofList) hsplit).trans (by simp [Function.comp_def])

/-- Every URL is a base and its parameters. -/
theorem exists_joinUrl (raw : String) :
    ∃ base, '?' ∉ base.toList ∧ raw = joinUrl base (urlPairs raw) ∧
      ∀ pair ∈ urlPairs raw, '&' ∉ pair.toList := by
  unfold urlPairs
  cases hcut : splitOnce '?' raw with
  | none => exact ⟨raw, splitOnce_eq_none.1 hcut, rfl, by simp⟩
  | some cut =>
      obtain ⟨hraw, hbase⟩ := splitOnce_eq_some.1 hcut
      refine ⟨cut.1, hbase, ?_, fun pair => not_mem_of_mem_queryPairs⟩
      rw [joinUrl_of_ne_nil (queryPairs_ne_nil cut.2), intercalate_queryPairs]
      exact String.toList_inj.1 (by simp [hraw])

/-- The loop runs over the parameters. -/
theorem parse_joinUrl {base : String} {pairs : List String} (hbase : '?' ∉ base.toList)
    (hpairs : ∀ pair ∈ pairs, '&' ∉ pair.toList) :
    RedisBrokerUrl.parse (joinUrl base pairs) =
      ⟨joinUrl base (keptPairs pairs), (pairs.foldl takePair ("", [])).1⟩ := by
  unfold RedisBrokerUrl.parse
  by_cases hnil : pairs = []
  · subst hnil
    rw [joinUrl_nil, splitOnce_eq_none.2 hbase]
    rfl
  · rw [joinUrl_of_ne_nil hnil, splitOnce_query hbase]
    dsimp only
    rw [queryPairs_intercalate hpairs hnil, foldl_takePair_snd, List.nil_append]

theorem mem_keptPairs {pair : String} {pairs : List String} :
    pair ∈ keptPairs pairs ↔ pair ∈ pairs ∧ ¬ SetsPrefix pair := by
  simp [keptPairs]

/-- Without a parameter of the prefix nothing changes. -/
theorem parse_of_forall {base : String} {pairs : List String} (hbase : '?' ∉ base.toList)
    (hpairs : ∀ pair ∈ pairs, '&' ∉ pair.toList) (hkept : ∀ pair ∈ pairs, ¬ SetsPrefix pair) :
    RedisBrokerUrl.parse (joinUrl base pairs) = ⟨joinUrl base pairs, ""⟩ := by
  rw [parse_joinUrl hbase hpairs, keptPairs_of_forall hkept, foldl_takePair_fst hkept]

/-! ### The prefix -/

/-- The parameter that sets a prefix. -/
def prefixPair (set : Percent.AsciiSet) (keyPrefix : String) : String :=
  prefixParam ++ "=" ++ Percent.encode set keyPrefix

theorem setsPrefix_prefixPair (set : Percent.AsciiSet) (keyPrefix : String) :
    SetsPrefix (prefixPair set keyPrefix) := .inr ⟨_, rfl⟩

theorem ampersand_not_mem_prefixPair (set : Percent.AsciiSet) (keyPrefix : String) :
    '&' ∉ (prefixPair set keyPrefix).toList := by
  have hparam : '&' ∉ prefixParam.toList := by decide
  simp [prefixPair, hparam, Percent.ampersand_not_mem_encode]

theorem takePair_prefixPair (set : Percent.AsciiSet) (keyPrefix : String)
    (state : String × List String) :
    takePair state (prefixPair set keyPrefix) = (keyPrefix, state.2) := by
  rw [takePair, if_pos (keyAndValue_fst.2 (setsPrefix_prefixPair set keyPrefix)), prefixPair,
    keyAndValue_snd, Percent.utf8Lossy_decode_encode]

/-- **Key prefix extraction.** A URL without the parameter is returned as it is; one with the
parameter at any place gives the prefix, and itself without the parameter; and what is returned
has no parameter any more. -/
theorem redisBrokerUrl_parse_spec :
    (∀ raw, (∀ pair ∈ urlPairs raw, ¬ SetsPrefix pair) → RedisBrokerUrl.parse raw = ⟨raw, ""⟩) ∧
      (∀ base before after set keyPrefix, '?' ∉ base.toList →
        (∀ pair ∈ before ++ after, '&' ∉ pair.toList ∧ ¬ SetsPrefix pair) →
        RedisBrokerUrl.parse (joinUrl base (before ++ prefixPair set keyPrefix :: after)) =
          ⟨joinUrl base (before ++ after), keyPrefix⟩) ∧
      ∀ raw, RedisBrokerUrl.parse (RedisBrokerUrl.parse raw).url =
        ⟨(RedisBrokerUrl.parse raw).url, ""⟩ := by
  refine ⟨?_, ?_, ?_⟩
  · intro raw hkept
    obtain ⟨base, hbase, hraw, hpairs⟩ := exists_joinUrl raw
    rw [hraw]
    exact parse_of_forall hbase hpairs hkept
  · intro base before after set keyPrefix hbase hothers
    rw [List.forall_mem_append] at hothers
    obtain ⟨hbefore, hafter⟩ := hothers
    have hpairs : ∀ pair ∈ before ++ prefixPair set keyPrefix :: after, '&' ∉ pair.toList := by
      intro pair hpair
      rcases List.mem_append.1 hpair with hmem | hmem
      · exact (hbefore pair hmem).1
      · rcases List.mem_cons.1 hmem with rfl | hmem
        · exact ampersand_not_mem_prefixPair set keyPrefix
        · exact (hafter pair hmem).1
    have hkept : keptPairs (before ++ prefixPair set keyPrefix :: after) = before ++ after := by
      rw [keptPairs, List.filter_append, List.filter_cons_of_neg
        (by simpa using setsPrefix_prefixPair set keyPrefix)]
      exact congrArg₂ (· ++ ·) (keptPairs_of_forall fun pair h => (hbefore pair h).2)
        (keptPairs_of_forall fun pair h => (hafter pair h).2)
    rw [parse_joinUrl hbase hpairs, hkept, List.foldl_append, List.foldl_cons,
      takePair_prefixPair, foldl_takePair_fst fun pair h => (hafter pair h).2]
  · intro raw
    obtain ⟨base, hbase, hraw, hpairs⟩ := exists_joinUrl raw
    rw [hraw, parse_joinUrl hbase hpairs]
    exact parse_of_forall hbase (fun pair h => hpairs pair (mem_keptPairs.1 h).1)
      fun pair h => (mem_keptPairs.1 h).2

example : RedisBrokerUrl.parse
    "redis://localhost:6379/0?timeout=5&global_keyprefix=%7Bmyapp%7D.&a=b" =
      ⟨"redis://localhost:6379/0?timeout=5&a=b", "\x7bmyapp\x7d."⟩ := by
  decide +kernel

end Feloxi.Broker
