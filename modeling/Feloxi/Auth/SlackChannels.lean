import Feloxi.Common
import Feloxi.Lib.Json
import Feloxi.Lib.Text
import Mathlib.Data.Set.Defs

/-!
# Feloxi.Auth.SlackChannels

The channels of a workspace, asked of Slack page by page (`fetch_all_slack_channels` in
`crates/api/src/routes/oauth_slack.rs`). The server answers as it likes. What it makes the code wait
comes out of one budget; a wait of nothing costs nothing, and can go on forever.
-/

namespace Feloxi.Slack

/-! ### The server -/

/-- The bytes of a `Retry-After` header, if the answer has one. -/
abbrev RetryAfter := Option (List UInt8)

inductive Answer where
  /-- No answer: the text of the error. -/
  | failed (text : String)
  /-- The body is JSON, or the text of the error. -/
  | response (status : Nat) (retryAfter : RetryAfter) (body : Except String Json)

/-- A request by its cursor, and what came back. -/
abbrev Exchange := String × Answer

/-- What the server answers to a cursor may depend on all exchanges before, the newest first. -/
abbrev Server := List Exchange → String → Answer

/-- `HeaderValue::to_str`: visible ASCII, blanks and tabs. -/
def toStr (bytes : List UInt8) : Option (List Char) :=
  if bytes.all fun b => b == 9 || (32 ≤ b && b < 127) then
    some (bytes.map fun b => Char.ofNat b.toNat)
  else none

/-- `retry_after`, in seconds. -/
def retryAfter (header : RetryAfter) : Nat :=
  ((header.bind toStr).bind fun s => parseU64 (trim s)).getD 1

structure SlackChannel where
  id : String
  name : String
  deriving Repr, DecidableEq

/-! ### The loops -/

/-- What is left to wait, in seconds; the exchanges, and the waits, the newest first. -/
structure Session where
  backoffBudget : Nat
  exchanges : List Exchange
  waits : List Nat

def Session.start : Session := ⟨15, [], []⟩

def Session.asked (s : Session) (cursor : String) (answer : Answer) : Session :=
  { s with exchanges := (cursor, answer) :: s.exchanges }

def Session.wait (s : Session) (secs : Nat) : Session :=
  { s with backoffBudget := s.backoffBudget - secs, waits := secs :: s.waits }

/-- What an answer is to the inner loop. -/
inductive Reading where
  | page (body : Json)
  | backOff (secs : Nat)
  | failure (error : AppError)

def errorCode (body : Json) : String :=
  ((body.get "error").bind Json.asStr).getD "unknown_error"

def readBody : Except String Json → Reading
  | .error text => .failure (.internal text)
  | .ok body =>
    if ((body.get "ok").bind Json.asBool).getD false then .page body
    -- sometimes a limit comes as a 200
    else if errorCode body = "ratelimited" then .backOff 1
    else .failure (.internal ("Slack conversations.list failed: " ++ errorCode body))

def Answer.read : Answer → Reading
  | .failed text => .failure (.internal ("Slack API error: " ++ text))
  | .response status retry body =>
    if status = 429 then .backOff (min (retryAfter retry) 5) else readBody body

/-- The inner loop: the page of a cursor, asked for until it comes. -/
def fetchPage (server : Server) (cursor : String) :
    Nat → Session → Option (Except AppError Json × Session)
  | 0, _ => none
  | fuel + 1, s =>
    let answer := server s.exchanges cursor
    let s := s.asked cursor answer
    match answer.read with
    | .failure e => some (.error e, s)
    | .page body => some (.ok body, s)
    | .backOff secs =>
      if secs > s.backoffBudget then some (.error .rateLimited, s)
      else fetchPage server cursor fuel (s.wait secs)

/-- The channels of a page that have an id and a name. -/
def channelsOf (body : Json) : List SlackChannel :=
  (((body.get "channels").bind Json.asArray).getD []).filterMap fun ch =>
    ((ch.get "id").bind Json.asStr).bind fun id =>
      ((ch.get "name").bind Json.asStr).map fun name => ⟨id, name⟩

def nextCursor (body : Json) : String :=
  (((body.get "response_metadata").bind (Json.get "next_cursor")).bind Json.asStr).getD ""

/-- `for _ in 0..pages`. -/
def fetchPages (server : Server) (fuel : Nat) : Nat → String → List SlackChannel → Session →
    Option (Except AppError (List SlackChannel) × Session)
  | 0, _, channels, s => some (.ok channels, s)
  | pages + 1, cursor, channels, s =>
    match fetchPage server cursor fuel s with
    | none => none
    | some (.error e, s) => some (.error e, s)
    | some (.ok body, s) =>
      let channels := channels ++ channelsOf body
      if nextCursor body = "" then some (.ok channels, s)
      else fetchPages server fuel pages (nextCursor body) channels s

/-- `fetch_all_slack_channels`, and how the session ended; nothing if the fuel of a page is not
enough. -/
def fetchAllSlackChannels (server : Server) (fuel : Nat) :
    Option (Except AppError (List SlackChannel) × Session) :=
  fetchPages server fuel 50 "" [] .start

/-! ### Bounds -/

def Answer.isPage (answer : Answer) : Bool :=
  match answer.read with
  | .page _ => true
  | _ => false

def Session.pages (s : Session) : Nat := s.exchanges.countP fun e => e.2.isPage

/-- It returns, however much fuel there is: after at most fifty pages and the waits that the budget
allows, with one request more for an answer that ends it. -/
def Bounded (server : Server) : Prop :=
  ∃ n result s, (∀ fuel, n ≤ fuel → fetchAllSlackChannels server fuel = some (result, s)) ∧
    s.pages ≤ 50 ∧ s.waits.length ≤ 15 ∧ s.exchanges.length ≤ s.pages + s.waits.length + 1

/-- Every `429` of the server comes with one of these headers. -/
def Uses (server : Server) (headers : Set RetryAfter) : Prop :=
  ∀ exchanges cursor retry body, server exchanges cursor = .response 429 retry body →
    retry ∈ headers

variable {server : Server} {headers : Set RetryAfter} {cursor : String}

/-! ### Steps of the inner loop -/

theorem fetchPage_failure {s : Session} {e : AppError}
    (h : (server s.exchanges cursor).read = .failure e) (fuel : Nat) :
    fetchPage server cursor (fuel + 1) s =
      some (.error e, s.asked cursor (server s.exchanges cursor)) := by
  simp only [fetchPage, h]

theorem fetchPage_page {s : Session} {body : Json}
    (h : (server s.exchanges cursor).read = .page body) (fuel : Nat) :
    fetchPage server cursor (fuel + 1) s =
      some (.ok body, s.asked cursor (server s.exchanges cursor)) := by
  simp only [fetchPage, h]

theorem fetchPage_backOff {s : Session} {secs : Nat}
    (h : (server s.exchanges cursor).read = .backOff secs) (fuel : Nat) :
    fetchPage server cursor (fuel + 1) s =
      if secs > s.backoffBudget then
        some (.error .rateLimited, s.asked cursor (server s.exchanges cursor))
      else fetchPage server cursor fuel
        ((s.asked cursor (server s.exchanges cursor)).wait secs) := by
  simp only [fetchPage, h]
  rfl

theorem pages_asked (s : Session) (cursor : String) (answer : Answer) :
    (s.asked cursor answer).pages = s.pages + if answer.isPage then 1 else 0 := by
  simp [Session.pages, Session.asked, List.countP_cons]

theorem isPage_eq_false {answer : Answer} (h : ∀ body, answer.read ≠ .page body) :
    answer.isPage = false := by
  unfold Answer.isPage
  split
  · exact absurd ‹_› (h _)
  · rfl

theorem eq_one_of_readBody {body : Except String Json} {secs : Nat}
    (h : readBody body = .backOff secs) : secs = 1 := by
  cases body with
  | error text => cases h
  | ok body =>
      rw [readBody] at h
      split at h
      · cases h
      · split at h
        · cases h
          rfl
        · cases h

/-- A `429` waits for what its header says, everything else for a second. -/
theorem one_le_of_backOff (huses : Uses server headers) (hpos : ∀ h ∈ headers, retryAfter h ≠ 0)
    {exchanges : List Exchange} {secs : Nat}
    (h : (server exchanges cursor).read = .backOff secs) : 1 ≤ secs := by
  cases hanswer : server exchanges cursor with
  | failed text =>
      rw [hanswer] at h
      cases h
  | response status retry body =>
      rw [hanswer, Answer.read] at h
      by_cases hstatus : status = 429
      · have hheader := hpos retry (huses exchanges cursor retry body (hstatus ▸ hanswer))
        rw [if_pos hstatus] at h
        cases h
        omega
      · rw [if_neg hstatus] at h
        rw [eq_one_of_readBody h]

/-! ### Runs -/

/-- What a part of the run does to the session: a wait takes a second of the budget at least, and
every request is a page or a wait, but for the last. -/
structure Advances (s s' : Session) (pages last : Nat) : Prop where
  shrinks : s'.backoffBudget ≤ s.backoffBudget
  budget : s'.backoffBudget + s'.waits.length ≤ s.backoffBudget + s.waits.length
  pages : s'.pages ≤ s.pages + pages
  requests : s'.exchanges.length + (s.pages + s.waits.length) ≤
    s.exchanges.length + (s'.pages + s'.waits.length) + last

theorem Advances.trans {s mid s' : Session} {m n last : Nat} (hfirst : Advances s mid m 0)
    (hrest : Advances mid s' n last) : Advances s s' (m + n) last where
  shrinks := hrest.shrinks.trans hfirst.shrinks
  budget := hrest.budget.trans hfirst.budget
  pages := by
    have := hfirst.pages
    have := hrest.pages
    omega
  requests := by
    have := hfirst.requests
    have := hrest.requests
    omega

theorem advances_wait {s : Session} {answer : Answer} (hpage : answer.isPage = false) {secs : Nat}
    (hsecs : 1 ≤ secs) (hle : secs ≤ s.backoffBudget) :
    Advances s ((s.asked cursor answer).wait secs) 0 0 where
  shrinks := Nat.sub_le _ _
  budget := by
    simp only [Session.wait, Session.asked, List.length_cons]
    omega
  pages := by
    have hpages := pages_asked s cursor answer
    rw [hpage] at hpages
    exact Nat.le_of_eq hpages
  requests := by
    have hpages := pages_asked s cursor answer
    rw [hpage] at hpages
    have hwait : ((s.asked cursor answer).wait secs).pages = (s.asked cursor answer).pages := rfl
    rw [hwait, hpages]
    simp only [Session.wait, Session.asked, List.length_cons]
    simp
    omega

theorem advances_page {s : Session} {answer : Answer} (hpage : answer.isPage = true) :
    Advances s (s.asked cursor answer) 1 0 where
  shrinks := Nat.le_refl _
  budget := Nat.le_refl _
  pages := by rw [pages_asked, hpage, if_pos rfl]
  requests := by
    rw [pages_asked, hpage, if_pos rfl]
    simp only [Session.asked, List.length_cons]
    omega

/-- The request that ends it. -/
theorem advances_last {s : Session} {answer : Answer} (hpage : answer.isPage = false) :
    Advances s (s.asked cursor answer) 0 1 where
  shrinks := Nat.le_refl _
  budget := Nat.le_refl _
  pages := by
    rw [pages_asked, hpage]
    exact Nat.le_refl _
  requests := by
    rw [pages_asked, hpage]
    simp only [Session.asked, List.length_cons]
    simp
    omega

/-- **One page.** If every wait takes some time, the inner loop ends before the budget does. -/
theorem fetchPage_advances (hpos : ∀ exchanges cursor secs,
      (server exchanges cursor).read = .backOff secs → 1 ≤ secs) (cursor : String) (s : Session) :
    ∃ result s', (∀ fuel, s.backoffBudget < fuel → fetchPage server cursor fuel s =
        some (result, s')) ∧
      ((∃ e, result = .error e) ∧ Advances s s' 0 1 ∨ (∃ body, result = .ok body) ∧
        Advances s s' 1 0) := by
  induction hbudget : s.backoffBudget using Nat.strongRecOn generalizing s with
  | _ budget ih =>
      cases hread : (server s.exchanges cursor).read with
      | failure e =>
          have hpage := @isPage_eq_false (server s.exchanges cursor) (by simp [hread])
          refine ⟨.error e, s.asked cursor (server s.exchanges cursor), fun fuel hfuel => ?_,
            .inl ⟨⟨e, rfl⟩, advances_last hpage⟩⟩
          obtain ⟨n, rfl⟩ := Nat.exists_eq_succ_of_ne_zero (Nat.ne_zero_of_lt hfuel)
          exact fetchPage_failure hread n
      | page body =>
          have hpage : (server s.exchanges cursor).isPage = true := by simp [Answer.isPage, hread]
          refine ⟨.ok body, s.asked cursor (server s.exchanges cursor), fun fuel hfuel => ?_,
            .inr ⟨⟨body, rfl⟩, advances_page hpage⟩⟩
          obtain ⟨n, rfl⟩ := Nat.exists_eq_succ_of_ne_zero (Nat.ne_zero_of_lt hfuel)
          exact fetchPage_page hread n
      | backOff secs =>
          have hsecs := hpos _ _ _ hread
          have hpage := @isPage_eq_false (server s.exchanges cursor) (by simp [hread])
          by_cases hover : secs > s.backoffBudget
          · refine ⟨.error .rateLimited, s.asked cursor (server s.exchanges cursor),
              fun fuel hfuel => ?_, .inl ⟨⟨.rateLimited, rfl⟩, advances_last hpage⟩⟩
            obtain ⟨n, rfl⟩ := Nat.exists_eq_succ_of_ne_zero (Nat.ne_zero_of_lt hfuel)
            rw [fetchPage_backOff hread, if_pos hover]
          · have hwait := @advances_wait cursor s _ hpage secs hsecs (Nat.le_of_not_lt hover)
            obtain ⟨result, s', hrun, hends⟩ := ih (s.backoffBudget - secs) (by omega)
              ((s.asked cursor (server s.exchanges cursor)).wait secs) rfl
            refine ⟨result, s', fun fuel hfuel => ?_, ?_⟩
            · obtain ⟨n, rfl⟩ := Nat.exists_eq_succ_of_ne_zero (Nat.ne_zero_of_lt hfuel)
              rw [fetchPage_backOff hread, if_neg hover]
              exact hrun n (by omega)
            · rcases hends with ⟨herror, hrest⟩ | ⟨hok, hrest⟩
              · exact .inl ⟨herror, hwait.trans hrest⟩
              · exact .inr ⟨hok, hwait.trans hrest⟩

/-- **All pages.** -/
theorem fetchPages_advances (hpos : ∀ exchanges cursor secs,
      (server exchanges cursor).read = .backOff secs → 1 ≤ secs) (pages : Nat) (cursor : String)
    (channels : List SlackChannel) (s : Session) :
    ∃ result s', (∀ fuel, s.backoffBudget < fuel →
        fetchPages server fuel pages cursor channels s = some (result, s')) ∧
      Advances s s' pages 1 := by
  induction pages generalizing cursor channels s with
  | zero => exact ⟨.ok channels, s, fun _ _ => rfl, Nat.le_refl _, Nat.le_refl _, Nat.le_refl _, by omega⟩
  | succ pages ih =>
      obtain ⟨result, mid, hrun, ⟨⟨e, rfl⟩, hpage⟩ | ⟨⟨body, rfl⟩, hpage⟩⟩ :=
        fetchPage_advances hpos cursor s
      · refine ⟨.error e, mid, fun fuel hfuel => ?_, hpage.shrinks, hpage.budget, ?_,
          hpage.requests⟩
        · rw [fetchPages, hrun fuel hfuel]
        · exact hpage.pages.trans (Nat.add_le_add_left (Nat.zero_le _) _)
      · by_cases hlast : nextCursor body = ""
        · refine ⟨.ok (channels ++ channelsOf body), mid, fun fuel hfuel => ?_, hpage.shrinks,
            hpage.budget, ?_, ?_⟩
          · rw [fetchPages, hrun fuel hfuel]
            exact if_pos hlast
          · exact hpage.pages.trans (by omega)
          · exact hpage.requests.trans (Nat.le_succ _)
        · obtain ⟨result, s', hrest, hadvances⟩ :=
            ih (nextCursor body) (channels ++ channelsOf body) mid
          have hboth := hpage.trans hadvances
          rw [Nat.add_comm 1 pages] at hboth
          refine ⟨result, s', fun fuel hfuel => ?_, hboth⟩
          have hbudget := Nat.lt_of_le_of_lt hpage.shrinks hfuel
          rw [fetchPages, hrun fuel hfuel]
          exact (if_neg hlast).trans (hrest fuel hbudget)

theorem bounded_of_waits (hpos : ∀ exchanges cursor secs,
    (server exchanges cursor).read = .backOff secs → 1 ≤ secs) : Bounded server := by
  obtain ⟨result, s, hrun, hadvances⟩ := fetchPages_advances hpos 50 "" [] .start
  have hbudget := hadvances.budget
  have hpages := hadvances.pages
  have hrequests := hadvances.requests
  have hstart : Session.start.backoffBudget = 15 ∧ Session.start.waits.length = 0 ∧
      Session.start.pages = 0 ∧ Session.start.exchanges.length = 0 := ⟨rfl, rfl, rfl, rfl⟩
  exact ⟨16, result, s, fun fuel hfuel => hrun fuel (by omega), by omega, by omega, by omega⟩

/-! ### Waiting for nothing -/

/-- A server that always asks to try again. -/
def stalling (retry : RetryAfter) : Server := fun _ _ => .response 429 retry (.error "")

/-- A wait of nothing leaves the budget as it is, so the loop never ends. -/
theorem fetchPage_stalling {retry : RetryAfter} (hzero : retryAfter retry = 0) (cursor : String)
    (fuel : Nat) (s : Session) : fetchPage (stalling retry) cursor fuel s = none := by
  induction fuel generalizing s with
  | zero => rfl
  | succ fuel ih =>
      have hread : (stalling retry s.exchanges cursor).read = .backOff 0 := by
        simp [stalling, Answer.read, hzero]
      rw [fetchPage_backOff hread, if_neg (Nat.not_lt_zero _)]
      exact ih _

theorem fetchAll_stalling {retry : RetryAfter} (hzero : retryAfter retry = 0) (fuel : Nat) :
    fetchAllSlackChannels (stalling retry) fuel = none := by
  rw [fetchAllSlackChannels, fetchPages, fetchPage_stalling hzero]

/-- **The bound.** Whatever a server sends, the requests are bounded by the pages and the budget,
exactly if none of its `Retry-After` headers asks for a wait of nothing. -/
theorem fetchAll_bounded_iff (headers : Set RetryAfter) :
    (∀ server, Uses server headers → Bounded server) ↔ ∀ h ∈ headers, retryAfter h ≠ 0 := by
  constructor
  · intro hbounded retry hretry hzero
    have huses : Uses (stalling retry) headers := by
      intro exchanges cursor retry' body heq
      cases heq
      exact hretry
    obtain ⟨n, result, s, hrun, -⟩ := hbounded (stalling retry) huses
    have hreturned := hrun n (Nat.le_refl n)
    rw [fetchAll_stalling hzero] at hreturned
    cases hreturned
  · intro hpos server huses
    exact bounded_of_waits fun _ _ _ hread => one_le_of_backOff huses hpos hread

/-- `Retry-After: 0`. -/
theorem fetchAll_zero_header :
    retryAfter (some (asBytes "0")) = 0 ∧ ¬ Bounded (stalling (some (asBytes "0"))) := by
  have hzero : retryAfter (some (asBytes "0")) = 0 := by decide
  refine ⟨hzero, ?_⟩
  rintro ⟨n, result, s, hrun, -⟩
  have hreturned := hrun n (Nat.le_refl n)
  rw [fetchAll_stalling hzero] at hreturned
  cases hreturned

end Feloxi.Slack
