import Feloxi.Auth.SlackFlight
import Mathlib.Data.List.Sort
import Mathlib.Data.String.Basic

/-!
# Feloxi.Auth.SlackListing

What a request for the channels of an integration is answered with: the channels of pages that were
linked by their cursors, all of them and in their order, from its own enumeration or from one that
another request stored in the cache.
-/

namespace Feloxi.Slack

open Handlers (Fate)

/-! ### The pages of an enumeration -/

def Exchange.page? (e : Exchange) : Option (String × Json) :=
  match e.2.read with
  | .page body => some (e.1, body)
  | _ => none

/-- The pages that came, each with the cursor it was asked for, the oldest first. -/
def Session.bodies (s : Session) : List (String × Json) := s.exchanges.reverse.filterMap Exchange.page?

/-- Every page was asked for with the cursor of the page before it, which was not empty. -/
def Linked : String → List (String × Json) → Prop
  | _, [] => True
  | cursor, page :: rest =>
    page.1 = cursor ∧ (rest ≠ [] → nextCursor page.2 ≠ "") ∧ Linked (nextCursor page.2) rest

/-- The last page has no cursor, or is the fiftieth. -/
def Finished (pages : List (String × Json)) : Prop :=
  (∃ page ∈ pages.getLast?, nextCursor page.2 = "") ∨ pages.length = 50

/-- The channels of an enumeration that came to its end. -/
def Whole (list : List SlackChannel) : Prop :=
  ∃ pages, Linked "" pages ∧ Finished pages ∧ list = pages.flatMap fun page => channelsOf page.2

theorem bodies_asked (s : Session) (cursor : String) (answer : Answer) :
    (s.asked cursor answer).bodies = s.bodies ++ (Exchange.page? (cursor, answer)).toList := by
  cases hpage : Exchange.page? (cursor, answer) <;>
    simp [Session.bodies, Session.asked, List.filterMap_append, hpage]

@[simp] theorem bodies_wait (s : Session) (secs : Nat) : (s.wait secs).bodies = s.bodies := rfl

/-- However often a page is asked for, it is read once. -/
theorem fetchPage_bodies {server : Server} {cursor : String} {fuel : Nat} {s s' : Session}
    {body : Json} (h : fetchPage server cursor fuel s = some (.ok body, s')) :
    s'.bodies = s.bodies ++ [(cursor, body)] := by
  induction fuel generalizing s with
  | zero => cases h
  | succ fuel ih =>
      cases hread : (server s.exchanges cursor).read with
      | failure e =>
          rw [fetchPage_failure hread] at h
          cases h
      | page page =>
          rw [fetchPage_page hread] at h
          cases h
          simp [bodies_asked, Exchange.page?, hread]
      | backOff secs =>
          rw [fetchPage_backOff hread] at h
          split at h
          · cases h
          · rw [ih h, bodies_wait, bodies_asked]
            simp [Exchange.page?, hread]

/-- **The loop over the pages** adds the pages it reads, linked from its cursor on. -/
theorem fetchPages_bodies {server : Server} {fuel n : Nat} {cursor : String}
    {channels list : List SlackChannel} {s s' : Session}
    (h : fetchPages server fuel n cursor channels s = some (.ok list, s')) :
    ∃ pages, s'.bodies = s.bodies ++ pages ∧ Linked cursor pages ∧
      list = channels ++ pages.flatMap (fun page => channelsOf page.2) ∧
      ((∃ page ∈ pages.getLast?, nextCursor page.2 = "") ∨ pages.length = n) := by
  induction n generalizing cursor channels s with
  | zero =>
      cases h
      exact ⟨[], by simp [Linked]⟩
  | succ n ih =>
      rw [fetchPages] at h
      split at h
      · cases h
      · cases h
      · rename_i body mid hpage
        have hbodies := fetchPage_bodies hpage
        dsimp only at h
        split at h
        · rename_i hlast
          cases h
          exact ⟨[(cursor, body)], by simp [hbodies, Linked, hlast]⟩
        · rename_i hmore
          obtain ⟨pages, hread, hlinked, rfl, hend⟩ := ih h
          refine ⟨(cursor, body) :: pages, ?_, ⟨rfl, fun _ => hmore, hlinked⟩, ?_, ?_⟩
          · simp [hread, hbodies]
          · simp
          · rcases hend with ⟨page, hpage, hnone⟩ | hlen
            · refine .inl ⟨page, ?_, hnone⟩
              rw [List.getLast?_cons, Option.mem_def.1 hpage]
              rfl
            · exact .inr (by simp [hlen])

theorem whole_of_fetchAll {server : Server} {fuel : Nat} {list : List SlackChannel} {s : Session}
    (h : fetchAllSlackChannels server fuel = some (.ok list, s)) : Whole list := by
  obtain ⟨pages, -, hlinked, hlist, hend⟩ := fetchPages_bodies h
  exact ⟨pages, hlinked, hend, hlist⟩

/-! ### The cache over a run -/

/-- The list that a request carries. -/
def Phase.list? : Phase → Option (List SlackChannel)
  | .storing _ list => some list
  | .unlocking _ (.ok list) => some list
  | .answered (.ok list) => some list
  | _ => none

namespace Flights

variable {s : Flights} {input : Input} {i : Nat} {list : List SlackChannel}

/-- The step puts the list into the cache. -/
def Stores (s : Flights) (input : Input) (list : List SlackChannel) : Prop :=
  ∃ i since, s.phases[i]? = some (.storing since list) ∧
    (input = .advance i .done ∨ input = .advance i .lost ∨ input = .drop i true)

theorem effect_channels (k : Keys) (phase : Phase) :
    (phase.effect k).channels = k.channels ∨
      ∃ since list, phase = .storing since list ∧
        (phase.effect k).channels = some (list, k.now + 300000) := by
  cases phase with
  | locking =>
      left
      simp only [Phase.effect, Keys.tryLock]
      split <;> rfl
  | storing since list => exact .inr ⟨since, list, rfl, rfl⟩
  | _ => exact .inl rfl

/-- What a step can do to the cache. -/
theorem channels_step (s : Flights) (input : Input) :
    ((s.step input).keys.channels = s.keys.channels ∧ input ≠ .clear) ∨
      (s.step input).keys.channels = none ∨
      ∃ list, s.Stores input list ∧
        (s.step input).keys.channels = some (list, s.keys.now + 300000) := by
  cases input with
  | arrive refresh => exact .inl ⟨rfl, by simp⟩
  | tick ms => exact .inl ⟨rfl, by simp⟩
  | clear => exact .inr (.inl rfl)
  | fetched i server fuel =>
      refine .inl ⟨?_, by simp⟩
      simp only [step]
      split <;> rfl
  | advance i fate =>
      cases hi : s.phases[i]? with
      | none => exact .inl ⟨by simp [step, hi], by simp⟩
      | some phase =>
          have heffect := effect_channels s.keys phase
          cases fate with
          | done =>
              simp only [step, hi]
              rcases heffect with h | ⟨since, list, rfl, h⟩
              · exact .inl ⟨h, by simp⟩
              · exact .inr (.inr ⟨list, ⟨i, since, hi, .inl rfl⟩, h⟩)
          | failed => exact .inl ⟨by simp [step, hi], by simp⟩
          | lost =>
              simp only [step, hi]
              rcases heffect with h | ⟨since, list, rfl, h⟩
              · exact .inl ⟨h, by simp⟩
              · exact .inr (.inr ⟨list, ⟨i, since, hi, .inr (.inl rfl)⟩, h⟩)
  | drop i sent =>
      cases hi : s.phases[i]? with
      | none => exact .inl ⟨by simp [step, hi], by simp⟩
      | some phase =>
          cases sent with
          | false => exact .inl ⟨by simp [step, hi], by simp⟩
          | true =>
              simp only [step, hi, if_true]
              rcases effect_channels s.keys phase with h | ⟨since, list, rfl, h⟩
              · exact .inl ⟨h, by simp⟩
              · exact .inr (.inr ⟨list, ⟨i, since, hi, .inr (.inr rfl)⟩, h⟩)

/-- **What is in the cache** was stored by a step of the run, and nothing has cleared it since. -/
theorem cached_of_run (inputs : List Input) {expiry : Nat}
    (h : (start.run inputs).keys.channels = some (list, expiry)) :
    ∃ before store after, inputs = before ++ store :: after ∧
      (start.run before).Stores store list ∧
      expiry = (start.run before).keys.now + 300000 ∧ .clear ∉ after := by
  induction inputs using List.reverseRecOn generalizing list expiry with
  | nil => cases h
  | append_singleton inputs input ih =>
      have hrun : start.run (inputs ++ [input]) = (start.run inputs).step input :=
        Runs.run_append step start inputs [input]
      rw [hrun] at h
      rcases channels_step (start.run inputs) input with ⟨hkept, hclear⟩ | hnone |
        ⟨stored, hstores, hset⟩
      · rw [hkept] at h
        obtain ⟨before, store, after, rfl, hstores, hexpiry, hafter⟩ := ih h
        refine ⟨before, store, after ++ [input], by simp, hstores, hexpiry, ?_⟩
        simpa [hafter] using Ne.symm hclear
      · rw [hnone] at h
        cases h
      · rw [hset] at h
        cases h
        exact ⟨inputs, input, [], rfl, hstores, rfl, by simp⟩

/-! ### The lists of a run -/

/-- Every list there is came from an enumeration that ended. -/
structure Sound (s : Flights) : Prop where
  cached : ∀ list expiry, s.keys.channels = some (list, expiry) → Whole list
  carried : ∀ phase ∈ s.phases, ∀ list ∈ phase.list?, Whole list

theorem Sound.getChannels (h : s.Sound) (hne : s.keys.getChannels ≠ []) :
    Whole s.keys.getChannels := by
  obtain ⟨⟨now, channels, lock⟩, phases⟩ := s
  cases channels with
  | none => exact absurd rfl hne
  | some entry =>
      simp only [Keys.getChannels] at hne ⊢
      split
      · exact h.cached entry.1 entry.2 rfl
      · simp_all

theorem list?_pollAgain (polls now : Nat) : (Phase.pollAgain polls now).list? = none := by
  rw [Phase.pollAgain]
  split <;> rfl

/-- What a request carries after a step, it carried before or read from the cache. -/
theorem list?_replied (k : Keys) (phase : Phase) {list : List SlackChannel}
    (h : list ∈ (phase.replied k).list?) :
    list ∈ phase.list? ∨ k.getChannels ≠ [] ∧ list = k.getChannels := by
  cases phase with
  | reading =>
      simp only [Phase.replied] at h
      split at h
      · cases h
      · cases h
        exact .inr ⟨‹_›, rfl⟩
  | locking =>
      simp only [Phase.replied] at h
      split at h <;> cases h
  | waiting polls wake =>
      simp only [Phase.replied] at h
      split at h
      · cases h
      · split at h
        · rw [list?_pollAgain] at h
          cases h
        · cases h
          exact .inr ⟨‹_›, rfl⟩
  | unlocking since result => cases result <;> exact .inl h
  | _ => exact .inl h

theorem list?_failed (k : Keys) (phase : Phase) {list : List SlackChannel}
    (h : list ∈ (phase.failed k).list?) : list ∈ phase.list? := by
  cases phase with
  | waiting polls wake =>
      simp only [Phase.failed] at h
      split at h
      · cases h
      · rw [list?_pollAgain] at h
        cases h
  | unlocking since result => cases result <;> exact h
  | reading => cases h
  | locking => cases h
  | _ => exact h

/-- One request takes a step, to a phase that carries nothing new. -/
theorem Sound.carried_set (h : s.Sound) {phase phase' : Phase} (hi : s.phases[i]? = some phase)
    (hsub : ∀ list ∈ phase'.list?, list ∈ phase.list? ∨ Whole list) :
    ∀ other ∈ s.phases.set i phase', ∀ list ∈ other.list?, Whole list := by
  refine Handlers.forall_set (fun list hlist => ?_) ?_
  · rcases hsub list hlist with hold | hwhole
    · exact h.carried phase (List.mem_of_getElem? hi) list hold
    · exact hwhole
  · intro j other _ hj
    exact h.carried other (List.mem_of_getElem? hj)

theorem Sound.carried_step (h : s.Sound) (input : Input) :
    ∀ phase ∈ (s.step input).phases, ∀ list ∈ phase.list?, Whole list := by
  cases input with
  | arrive refresh =>
      refine Handlers.forall_append_one h.carried ?_
      intro list hlist
      cases refresh <;> cases hlist
  | clear => exact h.carried
  | tick ms => exact h.carried
  | fetched i server fuel =>
      simp only [step]
      split
      · rename_i phase result session hi hfetch
        refine h.carried_set hi fun list hlist => ?_
        cases phase with
        | enumerating since =>
            cases result with
            | error e => cases hlist
            | ok fetched =>
                cases hlist
                exact .inr (whole_of_fetchAll hfetch)
        | _ => exact .inl hlist
      · exact h.carried
  | advance i fate =>
      cases hi : s.phases[i]? with
      | none => simpa [step, hi] using h.carried
      | some phase =>
          have hfailed : ∀ list ∈ (phase.failed s.keys).list?, list ∈ phase.list? ∨ Whole list :=
            fun list hlist => .inl (list?_failed s.keys phase hlist)
          simp only [step, hi]
          cases fate with
          | done =>
              refine h.carried_set hi fun list hlist => ?_
              rcases list?_replied s.keys phase hlist with hold | ⟨hne, rfl⟩
              · exact .inl hold
              · exact .inr (h.getChannels hne)
          | failed => exact h.carried_set hi hfailed
          | lost => exact h.carried_set hi hfailed
  | drop i sent =>
      cases hi : s.phases[i]? with
      | none => simpa [step, hi] using h.carried
      | some phase =>
          simp only [step, hi]
          exact h.carried_set hi fun list hlist => by cases hlist

theorem Sound.step (h : s.Sound) (input : Input) : (s.step input).Sound where
  carried := h.carried_step input
  cached list expiry hcached := by
    rcases channels_step s input with ⟨hkept, -⟩ | hnone | ⟨stored, ⟨i, since, hi, -⟩, hset⟩
    · exact h.cached list expiry (hkept ▸ hcached)
    · rw [hnone] at hcached
      cases hcached
    · rw [hset] at hcached
      cases hcached
      exact h.carried _ (List.mem_of_getElem? hi) _ rfl

theorem sound_run (inputs : List Input) : (start.run inputs).Sound :=
  Runs.run_invariant Sound (fun _ input h => h.step input)
    (s := start) ⟨by simp [start], by simp [start]⟩ inputs

/-! ### The answers -/

/-- A request that reads the cache finds what was stored less than five minutes before. -/
theorem live_of_getChannels {k : Keys} (h : k.getChannels ≠ []) :
    ∃ expiry, k.channels = some (k.getChannels, expiry) ∧ k.now < expiry := by
  obtain ⟨now, channels, lock⟩ := k
  cases channels with
  | none => exact absurd rfl h
  | some entry =>
      simp only [Keys.getChannels] at h ⊢
      by_cases hlive : now < entry.2
      · exact ⟨entry.2, by simp [hlive]⟩
      · simp [hlive] at h

theorem pollAgain_ne (polls now : Nat) (list : List SlackChannel) :
    Phase.pollAgain polls now ≠ .answered (.ok list) := by
  rw [Phase.pollAgain]
  split <;> simp

theorem answered_of_replied {k : Keys} {phase : Phase}
    (h : phase.replied k = .answered (.ok list)) :
    phase = .answered (.ok list) ∨ (∃ since, phase = .unlocking since (.ok list)) ∨
      k.getChannels ≠ [] ∧ list = k.getChannels := by
  cases phase with
  | reading =>
      simp only [Phase.replied] at h
      split at h
      · cases h
      · cases h
        exact .inr (.inr ⟨‹_›, rfl⟩)
  | locking =>
      simp only [Phase.replied] at h
      split at h <;> cases h
  | waiting polls wake =>
      simp only [Phase.replied] at h
      split at h
      · cases h
      · split at h
        · exact absurd h (pollAgain_ne _ _ _)
        · cases h
          exact .inr (.inr ⟨‹_›, rfl⟩)
  | unlocking since result =>
      cases h
      exact .inr (.inl ⟨since, rfl⟩)
  | answered result => exact .inl h
  | enumerating since => cases h
  | storing since list => cases h
  | dropped => cases h

theorem answered_of_failed {k : Keys} {phase : Phase}
    (h : phase.failed k = .answered (.ok list)) :
    phase = .answered (.ok list) ∨ ∃ since, phase = .unlocking since (.ok list) := by
  cases phase with
  | waiting polls wake =>
      simp only [Phase.failed] at h
      split at h
      · cases h
      · exact absurd h (pollAgain_ne _ _ _)
  | unlocking since result =>
      cases h
      exact .inr ⟨since, rfl⟩
  | answered result => exact .inl h
  | reading => cases h
  | locking => cases h
  | enumerating since => cases h
  | storing since list => cases h
  | dropped => cases h

theorem answered_of_fetched {result : Listing} {phase : Phase}
    (h : phase.fetched result = .answered (.ok list)) : phase = .answered (.ok list) := by
  cases phase with
  | enumerating since => cases result <;> cases h
  | _ => exact h

/-- The answer to a request is its own list, or the cached one. -/
theorem answered_step (hbefore : s.phases[i]? ≠ some (.answered (.ok list)))
    (h : (s.step input).phases[i]? = some (.answered (.ok list))) :
    (∃ since, s.phases[i]? = some (.unlocking since (.ok list))) ∨
      s.keys.getChannels ≠ [] ∧ list = s.keys.getChannels := by
  cases input with
  | arrive refresh =>
      rcases Handlers.getElem?_append_one h with hold | hnew
      · exact absurd hold hbefore
      · cases refresh <;> cases hnew
  | clear => exact absurd h hbefore
  | tick ms => exact absurd h hbefore
  | fetched j server fuel =>
      simp only [step] at h
      split at h
      · rename_i phase result session hj hfetch
        rcases Handlers.getElem?_set_cases h with ⟨rfl, hset⟩ | ⟨-, hold⟩
        · rw [answered_of_fetched hset.symm] at hj
          exact absurd hj hbefore
        · exact absurd hold hbefore
      · exact absurd h hbefore
  | drop j sent =>
      cases hj : s.phases[j]? with
      | none => exact absurd (by simpa [step, hj] using h) hbefore
      | some phase =>
          simp only [step, hj] at h
          rcases Handlers.getElem?_set_cases h with ⟨rfl, hset⟩ | ⟨-, hold⟩
          · cases hset
          · exact absurd hold hbefore
  | advance j fate =>
      cases hj : s.phases[j]? with
      | none => exact absurd (by simpa [step, hj] using h) hbefore
      | some phase =>
          have hstep : ∃ phase', (s.step (.advance j fate)).phases = s.phases.set j phase' ∧
              (phase' = phase.replied s.keys ∨ phase' = phase.failed s.keys) := by
            simp only [step, hj]
            cases fate with
            | done => exact ⟨_, rfl, .inl rfl⟩
            | failed => exact ⟨_, rfl, .inr rfl⟩
            | lost => exact ⟨_, rfl, .inr rfl⟩
          obtain ⟨phase', hphases, hphase'⟩ := hstep
          rw [hphases] at h
          rcases Handlers.getElem?_set_cases h with ⟨rfl, hset⟩ | ⟨-, hold⟩
          · rcases hphase' with rfl | rfl
            · rcases answered_of_replied hset.symm with rfl | ⟨since, rfl⟩ | hcached
              · exact absurd hj hbefore
              · exact .inl ⟨since, hj⟩
              · exact .inr hcached
            · rcases answered_of_failed hset.symm with rfl | ⟨since, rfl⟩
              · exact absurd hj hbefore
              · exact .inl ⟨since, hj⟩
          · exact absurd hold hbefore

/-- **What is served.** A request that is answered with a list is answered with all channels of
the linked pages of one enumeration: its own, or one that was stored less than five minutes before
and after the last time the integration was reconnected, revoked or deleted. -/
theorem served (inputs : List Input) (input : Input) (i : Nat) (list : List SlackChannel)
    (hbefore : (start.run inputs).phases[i]? ≠ some (.answered (.ok list)))
    (hafter : (start.run (inputs ++ [input])).phases[i]? = some (.answered (.ok list))) :
    Whole list ∧ ((∃ since, (start.run inputs).phases[i]? = some (.unlocking since (.ok list))) ∨
      ∃ before store after, inputs = before ++ store :: after ∧
        (start.run before).Stores store list ∧ .clear ∉ after ∧
        (start.run inputs).keys.now < (start.run before).keys.now + 300000) := by
  have hwhole := (sound_run (inputs ++ [input])).carried _ (List.mem_of_getElem? hafter) list rfl
  refine ⟨hwhole, ?_⟩
  have hrun : start.run (inputs ++ [input]) = (start.run inputs).step input :=
    Runs.run_append step start inputs [input]
  rw [hrun] at hafter
  rcases answered_step hbefore hafter with hown | ⟨hne, rfl⟩
  · exact .inl hown
  · obtain ⟨expiry, hcached, hlive⟩ := live_of_getChannels hne
    obtain ⟨before, store, after, hinputs, hstores, rfl, hclear⟩ := cached_of_run inputs hcached
    exact .inr ⟨before, store, after, hinputs, hstores, hclear, hlive⟩

/-- The page of a workspace with one channel. -/
def onePage : Json := .obj [("ok", .bool true),
  ("channels", .arr [.obj [("id", .str "C1"), ("name", .str "ops")]])]

def oneChannel : Server := fun _ _ => .response 200 none (.ok onePage)

/-- One request enumerates, the next one finds the list in the cache. -/
def twoRequests : List Input :=
  [.arrive true, .advance 0 .done, .fetched 0 oneChannel 1, .advance 0 .done, .arrive false]

theorem fetch_oneChannel :
    ∃ s, fetchAllSlackChannels oneChannel 1 = some (.ok [⟨"C1", "ops"⟩], s) := by
  have hread : (oneChannel [] "").read = .page onePage := by
    simp [oneChannel, onePage, Answer.read, readBody, Json.get, Json.asBool]
  have hlast : nextCursor onePage = "" := by simp [nextCursor, onePage, Json.get]
  have hchannels : channelsOf onePage = [⟨"C1", "ops"⟩] := by
    simp [channelsOf, onePage, Json.get, Json.asArray, Json.asStr]
  have hpage := fetchPage_page (s := .start) hread 0
  refine ⟨Session.start.asked "" (oneChannel [] ""), ?_⟩
  rw [fetchAllSlackChannels, fetchPages, hpage]
  simp only [hlast, hchannels, if_true]
  rfl

theorem served_twoRequests : Whole [⟨"C1", "ops"⟩] := by
  obtain ⟨session, hfetch⟩ := fetch_oneChannel
  refine (served twoRequests (.advance 1 .done) 1 [⟨"C1", "ops"⟩] ?_ ?_).1
  · simp [twoRequests, run, start, step, hfetch, Phase.fetched, Phase.replied, Keys.locked]
  · simp [twoRequests, run, start, step, hfetch, Phase.fetched, Phase.replied, Phase.effect,
      Keys.locked, Keys.tryLock, Keys.setChannels, Keys.getChannels]

end Flights

/-! ### The page of a request -/

structure SlackChannelsResponse where
  data : List SlackChannel
  total : Nat
  truncated : Bool

/-- Whether a channel's name contains the trimmed query, in lower case. -/
def matchesQuery (toLowercase : String → String) (q : String) (c : SlackChannel) : Bool :=
  let needle := toLowercase (String.ofList (trim q.toList))
  needle.isEmpty || decide (needle.toList <:+: (toLowercase c.name).toList)

/-- The channels that match, by name. -/
def matching (toLowercase : String → String) (all : List SlackChannel) (q : String) :
    List SlackChannel :=
  (all.filter (matchesQuery toLowercase q)).insertionSort fun a b =>
    toLowercase a.name ≤ toLowercase b.name

/-- `filter_channels`; `to_lowercase` is the one of `str`. -/
def filterChannels (toLowercase : String → String) (all : List SlackChannel) (q : String)
    (limit : Nat) : SlackChannelsResponse :=
  let found := matching toLowercase all q
  ⟨found.take limit, found.length, decide (found.length > limit)⟩

/-- The query of `slack_channels`: no `q` matches everything, and a page has up to a hundred
channels, fifty if the client does not say. -/
def slackChannelsPage (toLowercase : String → String) (all : List SlackChannel) (q : Option String)
    (limit : Option Nat) : SlackChannelsResponse :=
  filterChannels toLowercase all (q.getD "") (max 1 (min (limit.getD 50) 100))

theorem matching_perm (toLowercase : String → String) (all : List SlackChannel) (q : String) :
    (matching toLowercase all q).Perm (all.filter (matchesQuery toLowercase q)) :=
  List.perm_insertionSort _ _

theorem matching_sorted (toLowercase : String → String) (all : List SlackChannel) (q : String) :
    (matching toLowercase all q).Pairwise fun a b => toLowercase a.name ≤ toLowercase b.name := by
  have htotal : Std.Total fun a b : SlackChannel => toLowercase a.name ≤ toLowercase b.name :=
    ⟨fun a b => le_total _ _⟩
  have htrans : IsTrans SlackChannel fun a b => toLowercase a.name ≤ toLowercase b.name :=
    ⟨fun _ _ _ => le_trans⟩
  exact List.pairwise_insertionSort _ _

/-- A page and what it leaves out are the channels that match, in the order of their names, and
`truncated` says whether it leaves something out. -/
theorem filterChannels_page (toLowercase : String → String) (all : List SlackChannel) (q : String)
    (limit : Nat) :
    ∃ rest, ((filterChannels toLowercase all q limit).data ++ rest).Perm
        (all.filter (matchesQuery toLowercase q)) ∧
      ((filterChannels toLowercase all q limit).data ++ rest).Pairwise (fun a b =>
        toLowercase a.name ≤ toLowercase b.name) ∧
      (filterChannels toLowercase all q limit).total =
        (all.filter (matchesQuery toLowercase q)).length ∧
      ((filterChannels toLowercase all q limit).truncated = true ↔ rest ≠ []) := by
  have hperm := matching_perm toLowercase all q
  refine ⟨(matching toLowercase all q).drop limit, ?_, ?_, hperm.length_eq, ?_⟩
  · simpa only [filterChannels, List.take_append_drop] using hperm
  · simpa only [filterChannels, List.take_append_drop] using matching_sorted toLowercase all q
  · simp [filterChannels]

end Feloxi.Slack
