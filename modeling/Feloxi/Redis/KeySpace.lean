import Feloxi.Lib.Templates
import Feloxi.Redis.Keys

/-!
# Feloxi.Redis.KeySpace

No two calls of key functions give the same key, whatever the names in them are
(`key_injective`): every key function is a form, and two forms differ at a place that no name
reaches.
-/

namespace Feloxi.Redis

open Templates

/-! ### Forms -/

/-- The forms of keys: fixed texts around identifiers and names. -/
inductive Form where
  | tenant (before after : String)
  | named (before middle after : String)
  | pair (before middle after : String)
  | name (before : String)
  | fixed (text : String)

namespace Form

def Args : Form → Type
  | .tenant _ _ => Uuid
  | .named _ _ _ => Uuid × String
  | .pair _ _ _ => Uuid × Uuid
  | .name _ => String
  | .fixed _ => Unit

def render : (form : Form) → form.Args → String
  | .tenant before after => fun id : Uuid => before ++ id.display ++ after
  | .named before middle after => fun args : Uuid × String =>
    before ++ args.1.display ++ middle ++ args.2 ++ after
  | .pair before middle after => fun args : Uuid × Uuid =>
    before ++ args.1.display ++ middle ++ args.2.display ++ after
  | .name before => fun name : String => before ++ name
  | .fixed text => fun _ => text

end Form

/-- A place of a key that a name does not reach. -/
inductive Place where
  | char (c : Char)
  /-- A hexadecimal digit of an identifier. -/
  | digit

def isDigit (c : Char) : Bool := "0123456789abcdef".toList.contains c

namespace Place

def Fits : Place → Char → Prop
  | .char c, d => c = d
  | .digit, d => isDigit d = true

def meets : Place → Place → Bool
  | .char c, .char d => c == d
  | .char c, .digit => isDigit c
  | .digit, .char d => isDigit d
  | .digit, .digit => true

theorem meets_of_fits (a b : Place) (c : Char) (ha : a.Fits c) (hb : b.Fits c) :
    a.meets b = true := by
  cases a <;> cases b <;> simp_all [Fits, meets]

end Place

def textPlaces (s : String) : List Place := s.toList.map .char

def idPlaces : List Place := Uuid.layout.map fun place => if place.isSome then .digit else .char '-'

theorem fits_text (s : String) : List.Forall₂ Place.Fits (textPlaces s) s.toList := by
  rw [textPlaces, List.forall₂_map_left_iff]
  exact List.forall₂_same.2 fun c _ => rfl

theorem fits_display (u : Uuid) : List.Forall₂ Place.Fits idPlaces u.display.toList := by
  have hdigit : ∀ n : BitVec 4, isDigit (Uuid.hexDigit n) = true := by
    intro n
    have hall : ∀ i : Fin 16, isDigit (Uuid.hexDigit ⟨i⟩) = true := by decide
    exact hall n.toFin
  rw [idPlaces, Uuid.display, String.toList_ofList, List.forall₂_map_left_iff,
    List.forall₂_map_right_iff]
  refine List.forall₂_same.2 fun place _ => ?_
  cases place with
  | none => rfl
  | some i => exact hdigit _

def Form.template : Form → Template Place
  | .tenant before after => .closed (textPlaces before ++ idPlaces ++ textPlaces after)
  | .named before middle after =>
    .around (textPlaces before ++ idPlaces ++ textPlaces middle) (textPlaces after)
  | .pair before middle after =>
    .closed (textPlaces before ++ idPlaces ++ textPlaces middle ++ idPlaces ++ textPlaces after)
  | .name before => .around (textPlaces before) []
  | .fixed text => .closed (textPlaces text)

namespace Form

theorem fits_render (form : Form) (args : form.Args) :
    form.template.Fits Place.Fits (form.render args).toList := by
  cases form with
  | tenant before after =>
      simp only [render, String.toList_append]
      exact List.rel_append (List.rel_append (fits_text before) (fits_display args)) (fits_text after)
  | named before middle after =>
      refine ⟨_, args.2.toList, _, ?_, List.rel_append (List.rel_append (fits_text before)
        (fits_display args.1)) (fits_text middle), fits_text after⟩
      simp only [render, String.toList_append]
  | pair before middle after =>
      simp only [render, String.toList_append]
      have hlead := List.rel_append (fits_text before) (fits_display args.1)
      exact List.rel_append (List.rel_append (List.rel_append hlead (fits_text middle))
        (fits_display args.2)) (fits_text after)
  | name before =>
      refine ⟨_, String.toList args, [], ?_, fits_text before, .nil⟩
      rw [List.append_nil]
      exact String.toList_append
  | fixed text => exact fits_text text

theorem render_injective (form : Form) : Function.Injective form.render := by
  intro args args' h
  have htext := congrArg String.toList h
  cases form with
  | tenant before after =>
      simp only [render, String.toList_append, List.append_assoc,
        List.append_cancel_left_eq] at htext
      exact (Uuid.display_append_inj htext).1
  | named before middle after =>
      simp only [render, String.toList_append, List.append_assoc,
        List.append_cancel_left_eq] at htext
      obtain ⟨hid, hrest⟩ := Uuid.display_append_inj htext
      simp only [List.append_cancel_left_eq, List.append_cancel_right_eq] at hrest
      exact Prod.ext hid (String.toList_injective hrest)
  | pair before middle after =>
      simp only [render, String.toList_append, List.append_assoc,
        List.append_cancel_left_eq] at htext
      obtain ⟨hid, hrest⟩ := Uuid.display_append_inj htext
      exact Prod.ext hid (Uuid.display_append_inj (List.append_cancel_left hrest)).1
  | name before =>
      have hname : ∀ s : String, ((name before).render s).toList = before.toList ++ s.toList :=
        fun s => String.toList_append
      have hsame := (hname args).symm.trans (htext.trans (hname args'))
      exact String.toList_injective (List.append_cancel_left hsame)
  | fixed text => rfl

end Form

/-! ### The key functions -/

/-- The key functions of the module, and the one of the Slack lock. -/
inductive Fn where
  | workerState | workerHeartbeat | workerHbSampled | workersOnline | workersLastSeen
  | taskState | taskNameCache | tasksRecent | queueDepth | queuesActive
  | beatSchedule | beatLastRun | rateLimitApi | rateLimitEvents | pubsubEvents | pubsubAlerts
  | agentConnected | alertCooldown | alertState | session | refreshToken | pipelineCounter
  | retryQueue | alertDeliveryRetry | oauthNonce | slackChannels | slackChannelsLockKey
  deriving DecidableEq

namespace Fn

def all : List Fn :=
  [workerState, workerHeartbeat, workerHbSampled, workersOnline, workersLastSeen,
    taskState, taskNameCache, tasksRecent, queueDepth, queuesActive,
    beatSchedule, beatLastRun, rateLimitApi, rateLimitEvents, pubsubEvents, pubsubAlerts,
    agentConnected, alertCooldown, alertState, session, refreshToken, pipelineCounter,
    retryQueue, alertDeliveryRetry, oauthNonce, slackChannels, slackChannelsLockKey]

theorem mem_all (f : Fn) : f ∈ all := by cases f <;> decide

def form : Fn → Form
  | workerState => .named "fp:" ":worker:" ":state"
  | workerHeartbeat => .named "fp:" ":worker:" ":heartbeat"
  | workerHbSampled => .named "fp:" ":worker:" ":hb_sampled"
  | workersOnline => .tenant "fp:" ":workers:online"
  | workersLastSeen => .tenant "fp:" ":workers:last_seen"
  | taskState => .named "fp:" ":task:" ":state"
  | taskNameCache => .named "fp:" ":task:" ":name"
  | tasksRecent => .tenant "fp:" ":tasks:recent"
  | queueDepth => .named "fp:" ":queue:" ":depth"
  | queuesActive => .tenant "fp:" ":queues:active"
  | beatSchedule => .tenant "fp:" ":beat:schedule"
  | beatLastRun => .named "fp:" ":beat:last_run:" ""
  | rateLimitApi => .tenant "fp:ratelimit:" ":api"
  | rateLimitEvents => .tenant "fp:ratelimit:" ":events"
  | pubsubEvents => .tenant "fp:pubsub:" ":events"
  | pubsubAlerts => .tenant "fp:pubsub:" ":alerts"
  | agentConnected => .pair "fp:" ":agent:" ":connected"
  | alertCooldown => .pair "fp:" ":alert:" ":cooldown"
  | alertState => .pair "fp:" ":alert:" ":state"
  | session => .name "fp:session:"
  | refreshToken => .named "fp:refresh:" ":" ""
  | pipelineCounter => .name "fp:pipeline:"
  | retryQueue => .name "fp:retry:"
  | alertDeliveryRetry => .fixed "fp:alerts:delivery_retry"
  | oauthNonce => .name "fp:oauth:nonce:"
  | slackChannels => .tenant "fp:slack:channels:" ""
  | slackChannelsLockKey => .tenant "fp:slack:channels:" ":lock"

def Args (f : Fn) : Type := f.form.Args

/-- A call of the function. -/
def run : (f : Fn) → f.Args → String
  | workerState => fun (tenant, worker) => Redis.workerState tenant worker
  | workerHeartbeat => fun (tenant, worker) => Redis.workerHeartbeat tenant worker
  | workerHbSampled => fun (tenant, worker) => Redis.workerHbSampled tenant worker
  | workersOnline => Redis.workersOnline
  | workersLastSeen => Redis.workersLastSeen
  | taskState => fun (tenant, task) => Redis.taskState tenant task
  | taskNameCache => fun (tenant, task) => Redis.taskNameCache tenant task
  | tasksRecent => Redis.tasksRecent
  | queueDepth => fun (tenant, queue) => Redis.queueDepth tenant queue
  | queuesActive => Redis.queuesActive
  | beatSchedule => Redis.beatSchedule
  | beatLastRun => fun (tenant, schedule) => Redis.beatLastRun tenant schedule
  | rateLimitApi => Redis.rateLimitApi
  | rateLimitEvents => Redis.rateLimitEvents
  | pubsubEvents => Redis.pubsubEvents
  | pubsubAlerts => Redis.pubsubAlerts
  | agentConnected => fun (tenant, agent) => Redis.agentConnected tenant agent
  | alertCooldown => fun (tenant, rule) => Redis.alertCooldown tenant rule
  | alertState => fun (tenant, rule) => Redis.alertState tenant rule
  | session => Redis.session
  | refreshToken => fun (user, hash) => Redis.refreshToken user hash
  | pipelineCounter => Redis.pipelineCounter
  | retryQueue => Redis.retryQueue
  | alertDeliveryRetry => fun () => Redis.alertDeliveryRetry
  | oauthNonce => Redis.oauthNonce
  | slackChannels => Redis.slackChannels
  | slackChannelsLockKey => Redis.slackChannelsLockKey

theorem run_eq_render (f : Fn) (args : f.Args) : f.run args = f.form.render args := by
  cases f with
  | beatLastRun => exact String.append_empty.symm
  | refreshToken => exact String.append_empty.symm
  | slackChannels => exact String.append_empty.symm
  | _ => rfl

/-- Two forms differ at a place that no name reaches. -/
theorem apart_of_ne {f g : Fn} (h : f ≠ g) :
    Template.apart Place.meets f.form.template g.form.template = true := by
  have hall : (all.all fun f => all.all fun g =>
      f == g || Template.apart Place.meets f.form.template g.form.template) = true := by
    decide +kernel
  have hpair := List.all_eq_true.1 (List.all_eq_true.1 hall f (mem_all f)) g (mem_all g)
  simpa [h] using hpair

theorem run_injective (f : Fn) : Function.Injective f.run := by
  intro args args' h
  rw [run_eq_render, run_eq_render] at h
  exact f.form.render_injective h

/-- Two functions give different keys. -/
theorem run_ne {f g : Fn} (h : f ≠ g) (args : f.Args) (args' : g.Args) :
    f.run args ≠ g.run args' := by
  intro heq
  rw [run_eq_render, run_eq_render] at heq
  have hfits := f.form.fits_render args
  rw [heq] at hfits
  exact Template.not_fits_of_apart Place.meets_of_fits (apart_of_ne h) hfits
    (g.form.fits_render args')

end Fn

/-- A call of a key function. -/
abbrev Call := (f : Fn) × f.Args

def Call.key (call : Call) : String := call.1.run call.2

/-- Two calls that give the same key are the same call. -/
theorem call_key_injective : Function.Injective Call.key := by
  intro call call' h
  obtain ⟨f, args⟩ := call
  obtain ⟨g, args'⟩ := call'
  by_cases hfg : f = g
  · subst hfg
    obtain rfl : args = args' := f.run_injective h
    rfl
  · exact absurd h (Fn.run_ne hfg args args')

end Feloxi.Redis
