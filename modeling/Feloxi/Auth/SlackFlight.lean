import Feloxi.Auth.SlackChannels
import Feloxi.Lib.Handlers
import Mathlib.Data.List.Basic

/-!
# Feloxi.Auth.SlackFlight

The requests for the channels of one integration, any number of them at a time
(`slack_channels` and `load_channels_single_flight` in `crates/api/src/routes/oauth_slack.rs`, the
commands in `crates/db/src/redis/cache.rs`). One of them takes the lock and enumerates; the others
wait for the cache. The lock expires, its release asks nobody who took it, and a lock command that
fails counts as taken: the bound on the enumerations at a time has a term for each.
-/

namespace Feloxi.Slack

open Handlers (Fate)

/-- What an enumeration, and a request, comes to. -/
abbrev Listing := Except AppError (List SlackChannel)

/-! ### The keys -/

/-- The two keys of an integration in Redis, each with the millisecond at which it expires. -/
structure Keys where
  now : Nat
  channels : Option (List SlackChannel × Nat)
  lock : Option Nat

namespace Keys

/-- `get_json`, where a failure and an absent key are an empty list. -/
def getChannels (k : Keys) : List SlackChannel :=
  match k.channels with
  | some (list, expiry) => if k.now < expiry then list else []
  | none => []

/-- `set_json`, for five minutes. -/
def setChannels (k : Keys) (list : List SlackChannel) : Keys :=
  { k with channels := some (list, k.now + 300000) }

/-- `clear_slack_channels`. -/
def clearChannels (k : Keys) : Keys := { k with channels := none }

def locked (k : Keys) : Bool :=
  match k.lock with
  | some expiry => k.now < expiry
  | none => false

/-- `try_lock_slack_channels`, for thirty seconds. -/
def tryLock (k : Keys) : Keys :=
  if k.locked then k else { k with lock := some (k.now + 30000) }

/-- `unlock_slack_channels`: whoever took it. -/
def unlock (k : Keys) : Keys := { k with lock := none }

end Keys

/-! ### One request -/

/-- What a request does next. -/
inductive Phase where
  /-- The cache, before the lock. -/
  | reading
  | locking
  /-- Asleep until `wake`; `polls` looks at the cache are left. -/
  | waiting (polls wake : Nat)
  /-- `fetch_all_slack_channels`, by the one that took the lock at `since`. -/
  | enumerating (since : Nat)
  | storing (since : Nat) (list : List SlackChannel)
  | unlocking (since : Nat) (result : Listing)
  | answered (result : Listing)
  /-- Its client went away. -/
  | dropped

namespace Phase

/-- After a look that found nothing. -/
def pollAgain (polls now : Nat) : Phase :=
  if polls ≤ 1 then .answered (.error .rateLimited) else .waiting (polls - 1) (now + 500)

/-- What the command of the phase does to the keys. -/
def effect (k : Keys) : Phase → Keys
  | .locking => k.tryLock
  | .storing _ list => k.setChannels list
  | .unlocking _ _ => k.unlock
  | _ => k

/-- The command replied. -/
def replied (k : Keys) : Phase → Phase
  | .reading => if k.getChannels = [] then .locking else .answered (.ok k.getChannels)
  | .locking => if k.locked then .waiting 6 (k.now + 500) else .enumerating k.now
  | .waiting polls wake =>
    if k.now < wake then .waiting polls wake
    else if k.getChannels = [] then pollAgain polls k.now
    else .answered (.ok k.getChannels)
  | .storing since list => .unlocking since (.ok list)
  | .unlocking _ result => .answered result
  | phase => phase

/-- The command failed: the cache is empty, and the lock counts as taken. -/
def failed (k : Keys) : Phase → Phase
  | .reading => .locking
  | .locking => .enumerating k.now
  | .waiting polls wake => if k.now < wake then .waiting polls wake else pollAgain polls k.now
  | .storing since list => .unlocking since (.ok list)
  | .unlocking _ result => .answered result
  | phase => phase

/-- The enumeration ended. -/
def fetched (result : Listing) : Phase → Phase
  | .enumerating since =>
    match result with
    | .ok list => .storing since list
    | .error e => .unlocking since (.error e)
  | phase => phase

/-- When the request took the lock, or took it for taken, until it has let it go. -/
def since : Phase → Option Nat
  | .enumerating since => some since
  | .storing since _ => some since
  | .unlocking since _ => some since
  | _ => none

@[simp] theorem since_enumerating (t : Nat) : (enumerating t).since = some t := rfl

@[simp] theorem since_pollAgain (polls now : Nat) : (pollAgain polls now).since = none := by
  rw [pollAgain]
  split <;> rfl

def enumerates : Phase → Bool
  | .enumerating _ => true
  | _ => false

end Phase

/-! ### All requests -/

structure Flights where
  keys : Keys
  phases : List Phase

inductive Input where
  /-- A request, with or without `refresh`. -/
  | arrive (refresh : Bool)
  /-- The next command of a request. -/
  | advance (i : Nat) (fate : Fate)
  /-- The enumeration of a request ends, if Slack answers as this server does. -/
  | fetched (i : Nat) (server : Server) (fuel : Nat)
  /-- The client of a request goes away; a command that is under way may still take effect. -/
  | drop (i : Nat) (sent : Bool)
  /-- The integration is reconnected, revoked or deleted. -/
  | clear
  | tick (ms : Nat)

namespace Flights

def start : Flights := ⟨⟨0, none, none⟩, []⟩

/-- `load_channels_single_flight` and the read before it, one command at a time. -/
def step (s : Flights) : Input → Flights
  | .arrive refresh => { s with phases := s.phases ++ [if refresh then .locking else .reading] }
  | .advance i fate =>
    match s.phases[i]? with
    | none => s
    | some phase =>
      match fate with
      | .done => ⟨phase.effect s.keys, s.phases.set i (phase.replied s.keys)⟩
      | .failed => { s with phases := s.phases.set i (phase.failed s.keys) }
      | .lost => ⟨phase.effect s.keys, s.phases.set i (phase.failed s.keys)⟩
  | .fetched i server fuel =>
    match s.phases[i]?, fetchAllSlackChannels server fuel with
    | some phase, some (result, _) => { s with phases := s.phases.set i (phase.fetched result) }
    | _, _ => s
  | .drop i sent =>
    match s.phases[i]? with
    | none => s
    | some phase => ⟨if sent then phase.effect s.keys else s.keys, s.phases.set i .dropped⟩
  | .clear => { s with keys := s.keys.clearChannels }
  | .tick ms => { s with keys := { s.keys with now := s.keys.now + ms } }

def run (s : Flights) (inputs : List Input) : Flights := Runs.run step s inputs

/-- The requests between the lock and its release. -/
def inside (s : Flights) : Nat := s.phases.countP fun phase => phase.since.isSome

/-- The enumerations of Slack that are under way. -/
def enumerations (s : Flights) : Nat := s.phases.countP Phase.enumerates

/-- The requests that are still inside when the thirty seconds of their lock end, in the next
`ms` milliseconds. -/
def overstays (s : Flights) (ms : Nat) : Nat :=
  s.phases.countP fun phase =>
    phase.since.any fun since =>
      decide (s.keys.now < since + 30000 ∧ since + 30000 ≤ s.keys.now + ms)

/-- What a step adds to the bound: a lock command that failed, and each request that overstays. -/
def slips (s : Flights) : Input → Nat
  | .advance i fate =>
    match s.phases[i]? with
    | some .locking => if fate = .done then 0 else 1
    | _ => 0
  | .tick ms => s.overstays ms
  | _ => 0

/-- The slips of a whole run. -/
def slipped : Flights → List Input → Nat
  | _, [] => 0
  | s, input :: rest => s.slips input + slipped (s.step input) rest

/-! ### The owner of the lock -/

/-- The lock is there, and is the one that request `i` took. -/
def Holds (s : Flights) (i : Nat) : Prop :=
  ∃ phase since, s.phases[i]? = some phase ∧ phase.since = some since ∧
    s.keys.lock = some (since + 30000) ∧ s.keys.now < since + 30000

/-- At most `d` requests are inside besides the one that holds the lock. -/
def Covered (s : Flights) (d : Nat) : Prop :=
  s.inside ≤ d ∨ s.inside ≤ d + 1 ∧ ∃ i, s.Holds i

variable {s : Flights} {d i : Nat} {phase phase' : Phase} {k : Keys}

theorem Holds.locked (h : s.Holds i) : s.keys.locked = true := by
  obtain ⟨_, _, -, -, hlock, hlive⟩ := h
  simp [Keys.locked, hlock, hlive]

theorem Covered.of_not_locked (h : s.Covered d) (hlocked : s.keys.locked = false) :
    s.inside ≤ d := by
  rcases h with h | ⟨-, j, hj⟩
  · exact h
  · have hheld := hj.locked
    simp [hlocked] at hheld

theorem enumerations_le_inside (s : Flights) : s.enumerations ≤ s.inside := by
  refine List.countP_mono_left fun phase _ h => ?_
  cases phase with
  | enumerating since => rfl
  | _ => cases h

/-! ### One request takes a step -/

theorem inside_set (hi : s.phases[i]? = some phase) (k : Keys) (phase' : Phase) :
    inside ⟨k, s.phases.set i phase'⟩ =
      s.inside - (if phase.since.isSome then 1 else 0) + if phase'.since.isSome then 1 else 0 := by
  obtain ⟨hlt, rfl⟩ := List.getElem?_eq_some_iff.1 hi
  exact List.countP_set hlt

theorem inside_pos (hi : s.phases[i]? = some phase) (hphase : phase.since.isSome) :
    0 < s.inside :=
  List.countP_pos_iff.2 ⟨phase, List.mem_of_getElem? hi, hphase⟩

/-- A request leaves, whatever becomes of the lock: one less is inside. -/
theorem Covered.leave (h : s.Covered d) (hi : s.phases[i]? = some phase)
    (hphase : phase.since.isSome) (hphase' : phase'.since = none) :
    Covered ⟨k, s.phases.set i phase'⟩ d := by
  have hpos := inside_pos hi hphase
  have hinside := inside_set hi k phase'
  simp only [hphase, hphase', if_true, Option.isSome_none] at hinside
  left
  rcases h with h | ⟨h, -⟩
  · simp at hinside
    omega
  · simp at hinside
    omega

/-- The owner keeps the lock while it stays inside and the lock is not touched. -/
theorem Holds.set {j : Nat} (h : s.Holds j) (hi : s.phases[i]? = some phase)
    (hstay : phase.since.isSome → phase'.since = phase.since) (hnow : k.now = s.keys.now)
    (hlock : k.lock = s.keys.lock) : Holds ⟨k, s.phases.set i phase'⟩ j := by
  obtain ⟨other, since, hj, hother, hlive⟩ := h
  rw [← hlock, ← hnow] at hlive
  by_cases hij : i = j
  · subst hij
    obtain rfl := Option.some.inj (hi.symm.trans hj)
    have hlt := (List.getElem?_eq_some_iff.1 hi).1
    have hsince := (hstay (by simp [hother])).trans hother
    exact ⟨phase', since, by simp [hlt], hsince, hlive⟩
  · exact ⟨other, since, (List.getElem?_set_ne hij).trans hj, hother, hlive⟩

/-- A request goes on where it is; only an expired lock changes. -/
theorem Covered.keep (h : s.Covered d) (hi : s.phases[i]? = some phase)
    (hsince : phase'.since = phase.since) (hnow : k.now = s.keys.now)
    (hlock : k.lock = s.keys.lock ∨ s.keys.locked = false) :
    Covered ⟨k, s.phases.set i phase'⟩ d := by
  have hinside : inside ⟨k, s.phases.set i phase'⟩ = s.inside := by
    rw [inside_set hi, hsince]
    split
    · have := inside_pos hi ‹_›
      omega
    · rfl
  rcases hlock with hlock | hlocked
  · rcases h with h | ⟨h, j, hj⟩
    · exact .inl (hinside.trans_le h)
    · exact .inr ⟨hinside.trans_le h, j, hj.set hi (fun _ => hsince) hnow hlock⟩
  · exact .inl (hinside.trans_le (h.of_not_locked hlocked))

/-- A request takes the lock. -/
theorem Covered.enter (h : s.Covered d) (hi : s.phases[i]? = some phase)
    (hlocked : s.keys.locked = false) (hphase : phase.since = none) :
    Covered ⟨s.keys.tryLock, s.phases.set i (.enumerating s.keys.now)⟩ d := by
  have hinside := inside_set hi s.keys.tryLock (.enumerating s.keys.now)
  have hle := h.of_not_locked hlocked
  have hlt := (List.getElem?_eq_some_iff.1 hi).1
  refine .inr ⟨?_, i, .enumerating s.keys.now, s.keys.now, by simp [hlt], rfl, ?_⟩
  · rw [hinside, hphase]
    exact Nat.succ_le_succ hle
  · simp [Keys.tryLock, hlocked]

/-- A request takes the lock for taken. -/
theorem Covered.stray (h : s.Covered d) (hi : s.phases[i]? = some phase)
    (hphase : phase.since = none) (hnow : k.now = s.keys.now)
    (hlock : k.lock = s.keys.lock ∨ s.keys.locked = false) (since : Nat) :
    Covered ⟨k, s.phases.set i (.enumerating since)⟩ (d + 1) := by
  have hinside : inside ⟨k, s.phases.set i (.enumerating since)⟩ = s.inside + 1 := by
    simp [inside_set hi, hphase]
  rcases hlock with hlock | hlocked
  · rcases h with h | ⟨h, j, hj⟩
    · exact .inl (by omega)
    · exact .inr ⟨by omega, j, hj.set hi (by simp [hphase]) hnow hlock⟩
  · have := h.of_not_locked hlocked
    exact .inl (by omega)

/-! ### All steps -/

theorem Covered.mono {e : Nat} (h : s.Covered d) (hle : d ≤ e) : s.Covered e := by
  rcases h with h | ⟨h, howner⟩
  · exact .inl (h.trans hle)
  · exact .inr ⟨h.trans (Nat.succ_le_succ hle), howner⟩

/-- The lock of a request that has overstayed is gone, or somebody else's. -/
theorem Covered.tick (h : s.Covered d) (ms : Nat) :
    (s.step (.tick ms)).Covered (d + s.overstays ms) := by
  rcases h with h | ⟨h, i, phase, since, hi, hphase, hlock, hlive⟩
  · exact .inl (h.trans (Nat.le_add_right _ _))
  · by_cases hover : since + 30000 ≤ s.keys.now + ms
    · have hpos : 0 < s.overstays ms := by
        refine List.countP_pos_iff.2 ⟨phase, List.mem_of_getElem? hi, ?_⟩
        simp [hphase, hlive, hover]
      left
      have hinside : (s.step (.tick ms)).inside = s.inside := rfl
      omega
    · have hinside : (s.step (.tick ms)).inside = s.inside := rfl
      exact .inr ⟨by omega, i, phase, since, hi, hphase, hlock, Nat.lt_of_not_le hover⟩

theorem tryLock_lock (k : Keys) : k.tryLock.lock = k.lock ∨ k.locked = false := by
  rw [Keys.tryLock]
  split
  · exact .inl rfl
  · exact .inr (by simpa using ‹¬ k.locked = true›)

@[simp] theorem tryLock_now (k : Keys) : k.tryLock.now = k.now := by
  rw [Keys.tryLock]
  split <;> rfl

@[simp] theorem effect_now (k : Keys) (phase : Phase) : (phase.effect k).now = k.now := by
  cases phase with
  | locking => exact tryLock_now k
  | _ => rfl

theorem effect_lock (k : Keys) {phase : Phase} (hleave : ∀ since result, phase ≠ .unlocking since result) :
    (phase.effect k).lock = k.lock ∨ k.locked = false := by
  cases phase with
  | locking => exact tryLock_lock k
  | unlocking since result => exact absurd rfl (hleave since result)
  | _ => exact .inl rfl

/-- A reply brings a request in or out only at the lock. -/
theorem replied_since {phase : Phase} (hlock : phase ≠ .locking)
    (hleave : ∀ since result, phase ≠ .unlocking since result) (k : Keys) :
    (phase.replied k).since = phase.since := by
  cases phase with
  | locking => exact absurd rfl hlock
  | unlocking since result => exact absurd rfl (hleave since result)
  | reading => simp only [Phase.replied]; split <;> rfl
  | waiting polls wake =>
      simp only [Phase.replied]
      split
      · rfl
      · split
        · exact Phase.since_pollAgain polls k.now
        · rfl
  | _ => rfl

theorem failed_since {phase : Phase} (hlock : phase ≠ .locking)
    (hleave : ∀ since result, phase ≠ .unlocking since result) (k : Keys) :
    (phase.failed k).since = phase.since := by
  cases phase with
  | locking => exact absurd rfl hlock
  | unlocking since result => exact absurd rfl (hleave since result)
  | waiting polls wake =>
      simp only [Phase.failed]
      split
      · rfl
      · exact Phase.since_pollAgain polls k.now
  | _ => rfl

theorem fetched_since (result : Listing) (phase : Phase) :
    (phase.fetched result).since = phase.since := by
  cases phase with
  | enumerating since => cases result <;> rfl
  | _ => rfl

theorem Covered.advance (h : s.Covered d) (i : Nat) (fate : Fate) :
    (s.step (.advance i fate)).Covered (d + s.slips (.advance i fate)) := by
  cases hi : s.phases[i]? with
  | none => simpa [step, slips, hi] using h
  | some phase =>
      simp only [step, slips, hi]
      by_cases hlocking : phase = .locking
      · subst hlocking
        cases fate with
        | done =>
            simp only [Phase.effect, Phase.replied]
            by_cases hlocked : s.keys.locked
            · rw [if_pos hlocked]
              exact h.keep hi rfl (tryLock_now _) (tryLock_lock _)
            · rw [if_neg hlocked]
              exact h.enter hi (by simpa using hlocked) rfl
        | failed => exact h.stray hi rfl rfl (.inl rfl) _
        | lost => exact h.stray hi rfl (tryLock_now _) (tryLock_lock _) _
      · by_cases hleave : ∃ since result, phase = .unlocking since result
        · obtain ⟨since, result, rfl⟩ := hleave
          cases fate with
          | done => exact h.leave hi rfl rfl
          | failed => exact h.leave hi rfl rfl
          | lost => exact h.leave hi rfl rfl
        · have hkept : ∀ since result, phase ≠ .unlocking since result :=
            fun since result heq => hleave ⟨since, result, heq⟩
          refine Covered.mono ?_ (Nat.le_add_right d _)
          cases fate with
          | done =>
              exact h.keep hi (replied_since hlocking hkept _) (effect_now _ _) (effect_lock _ hkept)
          | failed => exact h.keep hi (failed_since hlocking hkept _) rfl (.inl rfl)
          | lost =>
              exact h.keep hi (failed_since hlocking hkept _) (effect_now _ _) (effect_lock _ hkept)

theorem Covered.drop (h : s.Covered d) (i : Nat) (sent : Bool) :
    (s.step (.drop i sent)).Covered d := by
  cases hi : s.phases[i]? with
  | none => simpa [step, hi] using h
  | some phase =>
      simp only [step, hi]
      by_cases hphase : phase.since.isSome
      · exact h.leave hi hphase rfl
      · have hout : phase.since = none := by simpa using hphase
        cases sent with
        | false => exact h.keep hi hout.symm rfl (.inl rfl)
        | true =>
            refine h.keep hi hout.symm (effect_now _ _) (effect_lock _ ?_)
            rintro since result rfl
            cases hout

/-- **One step** adds its slips to the bound. -/
theorem Covered.step (h : s.Covered d) (input : Input) :
    (s.step input).Covered (d + s.slips input) := by
  cases input with
  | arrive refresh =>
      have hinside : (s.step (.arrive refresh)).inside = s.inside := by
        cases refresh <;> simp [Flights.step, inside, Phase.since]
      rcases h with h | ⟨h, j, phase, since, hj, hlive⟩
      · exact .inl (hinside.trans_le h)
      · refine .inr ⟨hinside.trans_le h, j, phase, since, ?_, hlive⟩
        have hlt := (List.getElem?_eq_some_iff.1 hj).1
        simpa [Flights.step, List.getElem?_append_left hlt] using hj
  | advance i fate => exact h.advance i fate
  | fetched i server fuel =>
      simp only [Flights.step]
      split
      · exact h.keep ‹_› (fetched_since _ _) rfl (.inl rfl)
      · exact h
  | drop i sent => exact h.drop i sent
  | clear => exact h
  | tick ms => exact h.tick ms

/-- **A whole run** adds all of its slips. -/
theorem Covered.run (h : s.Covered d) (inputs : List Input) :
    (s.run inputs).Covered (d + s.slipped inputs) := by
  induction inputs generalizing s d with
  | nil => exact h
  | cons input rest ih =>
      rw [slipped, ← Nat.add_assoc]
      exact ih (h.step input)

theorem inside_le_slipped (inputs : List Input) :
    (start.run inputs).inside ≤ 1 + start.slipped inputs := by
  have hstart : start.Covered 0 := .inl (Nat.le_refl 0)
  rcases hstart.run inputs with h | ⟨h, -⟩
  · omega
  · omega

/-- **Single flight.** In every run, the enumerations of Slack at a time are at most one more than
the lock commands that failed and the requests that outlasted their lock, however many requests
there are, whoever goes away, and although the release of an outlasted lock frees the next one's. -/
theorem enumerations_le (inputs : List Input) :
    (start.run inputs).enumerations ≤ 1 + start.slipped inputs :=
  (enumerations_le_inside _).trans (inside_le_slipped inputs)

/-- The bound is met: the second request takes the lock that the first one has outlasted. -/
example : (start.run [.arrive true, .advance 0 .done, .tick 30000, .arrive true,
    .advance 1 .done]).enumerations = 2 := by decide

end Flights

end Feloxi.Slack
