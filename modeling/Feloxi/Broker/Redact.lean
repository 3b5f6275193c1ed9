import Feloxi.Lib.Separators
import Feloxi.Lib.Text
import Mathlib.Data.List.TakeWhile

/-!
# Feloxi.Broker.Redact

Connection-string passwords kept out of saved errors (`crates/common/src/redact.rs`): the scan
stops at a `://`, reads an authority up to the first `/`, space, quote, parenthesis or comma,
masks it, and goes on behind it.
-/

namespace Feloxi.Broker

open Separators

/-! ### The scan -/

/-- `"://"`. -/
def schemeEnd : List Char := [':', '/', '/']

/-- Where the scan takes an authority to end. -/
def isEnd (c : Char) : Bool :=
  c == '/' || isWhiteSpace c || c == '\'' || c == '"' || c == ')' || c == ','

/-- The authority behind a `://`, as the scan reads it. -/
def readAuthority (tail : List Char) : List Char := tail.takeWhile fun c => !isEnd c

/-- What the scan goes on with. -/
def readRest (tail : List Char) : List Char := tail.dropWhile fun c => !isEnd c

def maskUserinfo (userinfo : List Char) : List Char :=
  if ':' ∈ userinfo then userinfo.takeWhile (· != ':') ++ ":***".toList
  -- A lone token (redis://secret@host) is the password.
  else if userinfo = [] then []
  else "***".toList

def maskAuthority (authority : List Char) : List Char :=
  match splitLast '@' authority with
  | some (userinfo, host) => maskUserinfo userinfo ++ '@' :: host
  | none => authority

/-- The loop; every round takes a `://` away from the rest. -/
def redactLoop : Nat → List Char → List Char
  | 0, rest => rest
  | fuel + 1, rest =>
    match rest.dropInfix? schemeEnd with
    | none => rest
    | some (head, tail) =>
      head ++ schemeEnd ++ (maskAuthority (readAuthority tail) ++ redactLoop fuel (readRest tail))

def redact (text : List Char) : List Char := redactLoop text.length text

/-- `redact_url_credentials`. -/
def redactUrlCredentials (text : String) : String := String.ofList (redact text.toList)

/-! ### Rounds -/

theorem schemeEnd_ne_nil : schemeEnd ≠ [] := by decide

theorem readAuthority_append_readRest (tail : List Char) :
    readAuthority tail ++ readRest tail = tail := List.takeWhile_append_dropWhile

theorem length_readRest_lt {text head tail : List Char}
    (h : text.dropInfix? schemeEnd = some (head, tail)) : (readRest tail).length < text.length := by
  have htail : (readRest tail).length ≤ tail.length := List.length_dropWhile_le ..
  have := congrArg List.length (dropInfix?_eq_some.1 h).1
  simp only [List.length_append, schemeEnd, List.length_cons] at this
  omega

/-- There are enough rounds. -/
theorem redactLoop_eq {n m : Nat} {text : List Char} (hn : text.length ≤ n)
    (hm : text.length ≤ m) : redactLoop n text = redactLoop m text := by
  induction n generalizing m text with
  | zero =>
      obtain rfl := List.length_eq_zero_iff.1 (Nat.le_zero.1 hn)
      cases m <;> rfl
  | succ n ih =>
      rcases m with _ | m
      · obtain rfl := List.length_eq_zero_iff.1 (Nat.le_zero.1 hm)
        rfl
      · rw [redactLoop, redactLoop]
        cases hfirst : text.dropInfix? schemeEnd with
        | none => rfl
        | some cut =>
            have := length_readRest_lt hfirst
            simp only
            rw [ih (m := m) (by omega) (by omega)]

theorem redact_of_none {text : List Char} (h : text.dropInfix? schemeEnd = none) :
    redact text = text := by
  rw [redact]
  cases text.length with
  | zero => rfl
  | succ n => simp only [redactLoop, h]

theorem redact_of_some {text head tail : List Char}
    (h : text.dropInfix? schemeEnd = some (head, tail)) :
    redact text =
      head ++ schemeEnd ++ (maskAuthority (readAuthority tail) ++ redact (readRest tail)) := by
  have hlt := length_readRest_lt h
  rw [redact]
  cases hlen : text.length with
  | zero => omega
  | succ n =>
      simp only [redactLoop, h]
      rw [redactLoop_eq (m := (readRest tail).length) (by omega) (Nat.le_refl _)]
      rfl

/-- By rounds of the scan: the rest is shorter. -/
theorem scan_induction {motive : List Char → Prop}
    (none : ∀ text, text.dropInfix? schemeEnd = none → motive text)
    (some : ∀ text head tail, text.dropInfix? schemeEnd = some (head, tail) →
      motive (readRest tail) → motive text) (text : List Char) : motive text := by
  induction hlen : text.length using Nat.strongRecOn generalizing text with
  | ind n ih =>
      cases hfirst : text.dropInfix? schemeEnd with
      | none => exact none text hfirst
      | some cut =>
          exact some text cut.1 cut.2 hfirst
            (ih _ (hlen ▸ length_readRest_lt hfirst) (readRest cut.2) rfl)

/-! ### Masks -/

theorem maskUserinfo_append {user password : List Char} (h : ':' ∉ user) :
    maskUserinfo (user ++ ':' :: password) = user ++ ":***".toList := by
  have huser : (user ++ ':' :: password).takeWhile (· != ':') = user := by
    rw [List.takeWhile_append_of_pos]
    · simp
    · intro c hc
      have hne : c ≠ ':' := fun heq => h (heq ▸ hc)
      simpa using hne
  rw [maskUserinfo, if_pos (by simp), huser]

theorem maskUserinfo_of_not_mem {userinfo : List Char} (h : ':' ∉ userinfo) :
    maskUserinfo userinfo = if userinfo = [] then [] else "***".toList := if_neg h

theorem maskUserinfo_maskUserinfo (userinfo : List Char) :
    maskUserinfo (maskUserinfo userinfo) = maskUserinfo userinfo := by
  by_cases hcolon : ':' ∈ userinfo
  · obtain ⟨user, password, rfl, huser⟩ := List.eq_append_cons_of_mem hcolon
    rw [maskUserinfo_append huser]
    exact maskUserinfo_append huser
  · rw [maskUserinfo_of_not_mem hcolon]
    by_cases hnil : userinfo = []
    · rw [if_pos hnil]; rfl
    · rw [if_neg hnil]; rfl

theorem mem_maskUserinfo {userinfo : List Char} {c : Char} (h : c ∈ maskUserinfo userinfo) :
    c ∈ userinfo ∨ c = '*' := by
  by_cases hcolon : ':' ∈ userinfo
  · obtain ⟨user, password, rfl, huser⟩ := List.eq_append_cons_of_mem hcolon
    rw [maskUserinfo_append huser] at h
    simp only [String.reduceToList, List.mem_append, List.mem_cons] at h ⊢
    tauto
  · rw [maskUserinfo_of_not_mem hcolon] at h
    split at h
    · cases h
    · right
      simpa using h

theorem maskAuthority_append {userinfo host : List Char} (h : '@' ∉ host) :
    maskAuthority (userinfo ++ '@' :: host) = maskUserinfo userinfo ++ '@' :: host := by
  rw [maskAuthority, splitLast_append userinfo h]

theorem maskAuthority_of_not_mem {authority : List Char} (h : '@' ∉ authority) :
    maskAuthority authority = authority := by
  rw [maskAuthority, splitLast_of_not_mem h]

theorem maskAuthority_maskAuthority (authority : List Char) :
    maskAuthority (maskAuthority authority) = maskAuthority authority := by
  by_cases hat : '@' ∈ authority
  · obtain ⟨userinfo, host, rfl, hhost⟩ := exists_last hat
    rw [maskAuthority_append hhost, maskAuthority_append hhost, maskUserinfo_maskUserinfo]
  · rw [maskAuthority_of_not_mem hat, maskAuthority_of_not_mem hat]

theorem mem_maskAuthority {authority : List Char} {c : Char} (h : c ∈ maskAuthority authority) :
    c ∈ authority ∨ c = '*' := by
  by_cases hat : '@' ∈ authority
  · obtain ⟨userinfo, host, rfl, hhost⟩ := exists_last hat
    rw [maskAuthority_append hhost, List.mem_append] at h
    rw [List.mem_append]
    rcases h with h | h
    · exact (mem_maskUserinfo h).imp_left .inl
    · exact .inl (.inr h)
  · rw [maskAuthority_of_not_mem hat] at h
    exact .inl h

theorem getLast?_maskAuthority (authority : List Char) :
    (maskAuthority authority).getLast? = authority.getLast? := by
  by_cases hat : '@' ∈ authority
  · obtain ⟨userinfo, host, rfl, hhost⟩ := exists_last hat
    rw [maskAuthority_append hhost, List.getLast?_append, List.getLast?_append]
    rfl
  · rw [maskAuthority_of_not_mem hat]

/-! ### The rest of the text -/

theorem isEnd_of_mem_readAuthority {tail : List Char} {c : Char} (h : c ∈ readAuthority tail) :
    isEnd c = false := by
  simpa using List.all_eq_true.1 List.all_takeWhile c h

theorem isEnd_of_mem_maskAuthority {tail : List Char} {c : Char}
    (h : c ∈ maskAuthority (readAuthority tail)) : isEnd c = false := by
  rcases mem_maskAuthority h with h | rfl
  · exact isEnd_of_mem_readAuthority h
  · decide

theorem readRest_cases (tail : List Char) :
    readRest tail = [] ∨ ∃ c rest, readRest tail = c :: rest ∧ isEnd c = true := by
  have hhead := List.head?_dropWhile_not (fun c => !isEnd c) tail
  cases hrest : readRest tail with
  | nil => exact .inl rfl
  | cons c rest =>
      rw [readRest] at hrest
      rw [hrest] at hhead
      exact .inr ⟨c, rest, rfl, by simpa using hhead⟩

theorem redact_nil : redact [] = [] := rfl

theorem redact_cons {c : Char} (h : c ≠ ':') (text : List Char) :
    redact (c :: text) = c :: redact text := by
  have hcons : (c :: text).dropInfix? schemeEnd = _ := dropInfix?_cons_of_ne h text
  cases hfirst : text.dropInfix? schemeEnd with
  | none =>
      rw [show [':', '/', '/'] = schemeEnd from rfl, hfirst] at hcons
      rw [redact_of_none hcons, redact_of_none hfirst]
  | some cut =>
      rw [show [':', '/', '/'] = schemeEnd from rfl, hfirst] at hcons
      rw [redact_of_some hcons, redact_of_some hfirst]
      rfl

/-- The first three characters are not touched. -/
theorem prefix_redact {lead : List Char} (h : lead.length ≤ 3) (text : List Char) :
    lead <+: redact text ↔ lead <+: text := by
  cases hfirst : text.dropInfix? schemeEnd with
  | none => rw [redact_of_none hfirst]
  | some cut =>
      obtain ⟨head, tail⟩ := cut
      rw [redact_of_some hfirst, (dropInfix?_eq_some.1 hfirst).1]
      have hle : lead.length ≤ (head ++ schemeEnd).length := by
        simp only [List.length_append, schemeEnd, List.length_cons, List.length_nil]
        omega
      constructor <;> intro hlead <;>
        exact (List.prefix_of_prefix_length_le hlead (List.prefix_append _ _) hle).trans
          (List.prefix_append _ _)

/-- Nothing changes up to the first `/`. -/
theorem takeWhile_redact {p : Char → Bool} (hp : p '/' = false) (text : List Char) :
    (redact text).takeWhile p = text.takeWhile p := by
  cases hfirst : text.dropInfix? schemeEnd with
  | none => rw [redact_of_none hfirst]
  | some cut =>
      obtain ⟨head, tail⟩ := cut
      rw [redact_of_some hfirst, (dropInfix?_eq_some.1 hfirst).1]
      have hcut : ∀ x, head ++ schemeEnd ++ x = (head ++ [':']) ++ '/' :: ('/' :: x) := by
        simp [schemeEnd]
      rw [hcut, hcut]
      exact takeWhile_append_of_stop hp _ _ _

theorem prefix_append_redact {lead : List Char} (h : '/' ∉ lead) (x text : List Char) :
    lead <+: x ++ redact text ↔ lead <+: x ++ text := by
  have hlead : ∀ c ∈ lead, (c != '/') = true := by
    intro c hc
    have hne : c ≠ '/' := fun heq => h (heq ▸ hc)
    simpa using hne
  rw [← prefix_takeWhile hlead, ← prefix_takeWhile (l := x ++ text) hlead, List.takeWhile_append,
    List.takeWhile_append, takeWhile_redact (by simp)]

theorem read_append {authority : List Char} (h : ∀ c ∈ authority, isEnd c = false)
    (rest : List Char) : readAuthority (authority ++ rest) = authority ++ readAuthority rest ∧
      readRest (authority ++ rest) = readRest rest := by
  have hpos : ∀ c ∈ authority, (!isEnd c) = true := by
    intro c hc
    rw [h c hc]
    rfl
  exact ⟨List.takeWhile_append_of_pos hpos, List.dropWhile_append_of_pos hpos⟩

theorem read_of_isEnd {c : Char} (h : isEnd c = true) (rest : List Char) :
    readAuthority (c :: rest) = [] ∧ readRest (c :: rest) = c :: rest :=
  ⟨List.takeWhile_cons_of_neg (by simp [h]), List.dropWhile_cons_of_neg (by simp [h])⟩

/-- The scan reads the same authority behind a redacted one. -/
theorem read_append_redact {authority tail : List Char} (h : ∀ c ∈ authority, isEnd c = false) :
    readAuthority (authority ++ redact (readRest tail)) = authority ∧
      readRest (authority ++ redact (readRest tail)) = redact (readRest tail) := by
  obtain ⟨hauthority, hrest⟩ := read_append h (redact (readRest tail))
  rw [hauthority, hrest]
  rcases readRest_cases tail with hnil | ⟨c, rest, hcons, hc⟩
  · rw [hnil, redact_nil]
    exact ⟨List.append_nil _, rfl⟩
  · have hne : c ≠ ':' := by
      rintro rfl
      exact absurd hc (by decide)
    obtain ⟨hread, hkeep⟩ := read_of_isEnd hc (redact rest)
    rw [hcons, redact_cons hne, hread, hkeep, List.append_nil]
    exact ⟨rfl, rfl⟩

/-- What is redacted is not redacted again. -/
theorem redact_redact (text : List Char) : redact (redact text) = redact text := by
  induction text using scan_induction with
  | none text hfirst => rw [redact_of_none hfirst, redact_of_none hfirst]
  | some text head tail hfirst ih =>
      obtain ⟨hauthority, hrest⟩ :=
        read_append_redact fun _ => @isEnd_of_mem_maskAuthority tail _
      have hfirst' := dropInfix?_append ((dropInfix?_eq_some.1 hfirst).1 ▸ hfirst)
        (maskAuthority (readAuthority tail) ++ redact (readRest tail))
      rw [redact_of_some hfirst, redact_of_some hfirst', hauthority, hrest,
        maskAuthority_maskAuthority, ih]

theorem redactUrlCredentials_idem (text : String) :
    redactUrlCredentials (redactUrlCredentials text) = redactUrlCredentials text := by
  rw [redactUrlCredentials, redactUrlCredentials, String.toList_ofList, redact_redact]

example : redactUrlCredentials "a amqp://u:p@h b redis://x:y@z" =
    "a amqp://u:***@h b redis://x:***@z" := by decide

end Feloxi.Broker
