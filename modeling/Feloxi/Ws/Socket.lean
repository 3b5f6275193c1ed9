import Feloxi.Ws.Store

/-!
# Feloxi.Ws.Socket

The connection of the live view in the browser (`apps/web/src/stores/ws-store.ts`): a socket, a
timer that reopens it, the pings and the frame that waits, with the layout that connects when a user
is there and disconnects when not. The browser keeps what the page forgets: sockets that are still
closing, timeouts and intervals that nobody cleared.
-/

namespace Feloxi.Ws

open Runs

/-- `WebSocket.readyState`. -/
inductive ReadyState where
  | connecting
  | opened
  | closing
  | closed
  deriving Repr, DecidableEq

structure Socket where
  readyState : ReadyState
  /-- `onclose`, `onerror` and `onmessage` are there; `onopen` is never taken away. -/
  handled : Bool
  deriving Repr, DecidableEq

inductive ConnectionState where
  | disconnected
  | connecting
  | connected
  deriving Repr, DecidableEq

structure Browser where
  signedIn : Bool
  page : Page
  connectionState : ConnectionState
  ws : Option Nat
  reconnectTimer : Option Nat
  pingInterval : Option Nat
  /-- All sockets that were made. -/
  sockets : List Socket
  /-- The timeouts and intervals that are alive. -/
  timeouts : List Nat
  intervals : List Nat
  nextId : Nat
  /-- The sockets that a `Ping` went to, the last one first. -/
  pings : List Nat
  deriving Repr, DecidableEq

/-- The browser before anyone signed in. -/
def signedOut : Browser :=
  { signedIn := false, page := openPage, connectionState := .disconnected, ws := none,
    reconnectTimer := none, pingInterval := none, sockets := [], timeouts := [], intervals := [],
    nextId := 1, pings := [] }

/-- `close`: what is closed stays so. -/
def Socket.close (s : Socket) : Socket :=
  match s.readyState with
  | .connecting | .opened => { s with readyState := .closing }
  | .closing | .closed => s

/-- The end of `cleanup`, for the current socket. -/
def Socket.drop (s : Socket) : Socket := { s.close with handled := false }

namespace Browser

/-- The current socket. -/
def current (b : Browser) : Option Socket := b.ws.bind fun i => b.sockets[i]?

/-- Frames that wait are cancelled with what they would write. -/
def cancelFrame (page : Page) : Page :=
  if page.rafHandle then { page with rafHandle := false, pendingUpdates := [] } else page

def cleanup (b : Browser) : Browser :=
  { b with
    intervals := b.pingInterval.elim b.intervals b.intervals.erase
    pingInterval := none
    page := cancelFrame b.page
    sockets := b.ws.elim b.sockets fun i => b.sockets.modify i Socket.drop
    ws := none }

def connect (b : Browser) : Browser :=
  -- `readyState <= WebSocket.OPEN`
  if b.current.any fun s => s.readyState = .connecting || s.readyState = .opened then b
  else
    { b with
      connectionState := .connecting
      ws := some b.sockets.length
      sockets := b.sockets ++ [{ readyState := .connecting, handled := true }] }

def disconnect (b : Browser) : Browser :=
  { ({ b with
      timeouts := b.reconnectTimer.elim b.timeouts b.timeouts.erase
      reconnectTimer := none } : Browser).cleanup with
    connectionState := .disconnected }

def scheduleReconnect (b : Browser) : Browser :=
  match b.reconnectTimer with
  | some _ => b
  | none =>
    { b with
      reconnectTimer := some b.nextId, timeouts := b.nextId :: b.timeouts, nextId := b.nextId + 1 }

def onopen (b : Browser) : Browser :=
  { b with
    connectionState := .connected
    pingInterval := some b.nextId, intervals := b.nextId :: b.intervals, nextId := b.nextId + 1 }

def onclose (b : Browser) : Browser :=
  ({ b.cleanup with connectionState := .disconnected } : Browser).scheduleReconnect

/-- It closes the current socket, whichever failed. -/
def onerror (b : Browser) : Browser :=
  { b with sockets := b.ws.elim b.sockets fun i => b.sockets.modify i Socket.close }

def setReadyState (i : Nat) (readyState : ReadyState) (b : Browser) : Browser :=
  { b with sockets := b.sockets.modify i fun s => { s with readyState } }

end Browser

inductive BrowserEvent where
  /-- The effect of the layout, and its cleanup. -/
  | signIn
  | signOut
  | opened (i : Nat)
  /-- A message; `none` if it is not an event. -/
  | received (i : Nat) (payload : Option Payload)
  /-- The other side begins to close. -/
  | closing (i : Nat)
  /-- The socket is gone; if it failed there is an error first. -/
  | closed (i : Nat) (failed : Bool)
  | timeout (id : Nat)
  | interval (id : Nat)
  | frame
  deriving Repr, DecidableEq

namespace Browser

/-- What an event does. The browser tells the page only what can happen to the socket as it is. -/
def step (b : Browser) : BrowserEvent → Browser
  | .signIn => if b.signedIn then b else { b with signedIn := true }.connect
  | .signOut => if b.signedIn then { b with signedIn := false }.disconnect else b
  | .opened i =>
    match b.sockets[i]? with
    | some ⟨.connecting, _⟩ => (b.setReadyState i .opened).onopen
    | _ => b
  | .received i payload =>
    match b.sockets[i]?, payload with
    | some ⟨.opened, true⟩, some payload => { b with page := handleEvent b.page payload }
    | _, _ => b
  | .closing i =>
    match b.sockets[i]? with
    | some ⟨.connecting, _⟩ | some ⟨.opened, _⟩ => b.setReadyState i .closing
    | _ => b
  | .closed i failed =>
    match b.sockets[i]? with
    | none | some ⟨.closed, _⟩ => b
    | some s =>
      let b := b.setReadyState i .closed
      -- `error` and `close` are fired in one task
      if s.handled then (if failed then b.onerror else b).onclose else b
  | .timeout id =>
    if id ∈ b.timeouts then
      { b with timeouts := b.timeouts.erase id, reconnectTimer := none }.connect
    else b
  | .interval id =>
    if id ∈ b.intervals then
      match b.ws, b.current with
      | some i, some ⟨.opened, _⟩ => { b with pings := i :: b.pings }
      | _, _ => b
    else b
  | .frame => { b with page := pageStep b.page .frame }

end Browser

/-! ### What an event keeps -/

/-- Nothing comes of the socket any more. -/
def Socket.Gone (s : Socket) : Prop :=
  s.handled = false ∧ (s.readyState = .closing ∨ s.readyState = .closed)

/-- What the page shows of its socket. -/
def Socket.Shows (s : Socket) (shown : ConnectionState) : Prop :=
  match s.readyState with
  | .connecting => shown = .connecting
  | .opened => shown = .connected
  | .closing => shown ≠ .disconnected
  | .closed => False

namespace Browser

/-- Nothing is left over from earlier sockets. -/
structure Kept (b : Browser) : Prop where
  others : ∀ i s, b.sockets[i]? = some s → b.ws ≠ some i → s.Gone
  timeouts : b.timeouts = b.reconnectTimer.toList
  intervals : b.intervals = b.pingInterval.toList
  pending : b.page.rafHandle = false → b.page.pendingUpdates = []

/-- Who is signed in has a socket or waits for one, never both. -/
structure Wired (b : Browser) : Prop extends Kept b where
  socket : ∀ i, b.ws = some i →
    ∃ s, b.sockets[i]? = some s ∧ s.handled = true ∧ s.Shows b.connectionState
  noSocket : b.ws = none → b.connectionState = .disconnected ∧ b.page.rafHandle = false
  pinging : b.pingInterval.isSome = true ↔ b.connectionState = .connected
  waiting : b.signedIn = true → (b.ws = none ↔ b.reconnectTimer.isSome = true)
  out : b.signedIn = false → b.ws = none ∧ b.reconnectTimer = none

end Browser

theorem getElem?_modify_cases {f : Socket → Socket} {sockets : List Socket} {i j : Nat} {s : Socket}
    (h : (sockets.modify i f)[j]? = some s) :
    (i = j ∧ ∃ old, sockets[j]? = some old ∧ s = f old) ∨ (i ≠ j ∧ sockets[j]? = some s) := by
  rw [List.getElem?_modify] at h
  by_cases hij : i = j
  · left
    obtain ⟨old, hold, rfl⟩ : ∃ old, sockets[j]? = some old ∧ f old = s := by simpa [hij] using h
    exact ⟨hij, old, hold, rfl⟩
  · exact .inr ⟨hij, by simpa [hij] using h⟩

theorem getElem?_modify_self {f : Socket → Socket} {sockets : List Socket} {i : Nat} {s : Socket}
    (h : sockets[i]? = some s) : (sockets.modify i f)[i]? = some (f s) := by
  simp [h]

theorem Socket.gone_drop (s : Socket) : s.drop.Gone := by
  obtain ⟨readyState, handled⟩ := s
  cases readyState <;> simp [drop, close, Gone]

namespace Browser

variable {b : Browser}

theorem pending_handleEvent {page : Page} (payload : Payload)
    (h : page.rafHandle = false → page.pendingUpdates = [])
    (hraf : (handleEvent page payload).rafHandle = false) :
    (handleEvent page payload).pendingUpdates = [] := by
  unfold handleEvent at hraf ⊢
  cases hupdate : updateOf page.store payload with
  | none =>
      rw [hupdate] at hraf
      exact h hraf
  | some update => simp [hupdate, scheduleUpdate] at hraf

theorem pending_frame {page : Page} (h : page.rafHandle = false → page.pendingUpdates = [])
    (_ : (pageStep page .frame).rafHandle = false) :
    (pageStep page .frame).pendingUpdates = [] := by
  unfold pageStep
  dsimp only
  split
  · rfl
  · exact h (by simpa using ‹¬page.rafHandle = true›)

theorem painted_cancelFrame {page : Page} (h : page.rafHandle = false → page.pendingUpdates = []) :
    (cancelFrame page).Painted := by
  unfold cancelFrame
  split
  · exact ⟨rfl, rfl⟩
  · have hraf : page.rafHandle = false := by simpa using ‹¬page.rafHandle = true›
    exact ⟨h hraf, hraf⟩

/-- `cleanup` with what is shown after it. -/
theorem Kept.cleanup (h : b.Kept) : Kept { b.cleanup with connectionState := .disconnected } where
  others := by
    intro i s hs _
    cases hws : b.ws with
    | none =>
        simp only [Browser.cleanup, hws, Option.elim_none] at hs
        exact h.others i s hs (by simp [hws])
    | some j =>
        simp only [Browser.cleanup, hws, Option.elim_some] at hs
        -- the current socket is dropped; the earlier ones were before
        rcases getElem?_modify_cases hs with ⟨-, old, -, rfl⟩ | ⟨hne, hs⟩
        · exact old.gone_drop
        · exact h.others i s hs (by simpa [hws] using hne)
  timeouts := h.timeouts
  intervals := by
    have hintervals := h.intervals
    cases hping : b.pingInterval <;> simp_all [Browser.cleanup]
  pending _ := (painted_cancelFrame h.pending).1

theorem Kept.wired_disconnect (h : b.Kept) (hout : b.signedIn = false) : b.disconnect.Wired where
  toKept := by
    refine Kept.cleanup ⟨h.others, ?_, h.intervals, h.pending⟩
    have htimeouts := h.timeouts
    cases htimer : b.reconnectTimer <;> simp_all
  socket := nofun
  noSocket _ := ⟨rfl, (painted_cancelFrame h.pending).2⟩
  pinging := by simp [disconnect, Browser.cleanup]
  waiting hin := absurd (hin.symm.trans hout) Bool.true_eq_false.mp
  out _ := ⟨rfl, rfl⟩

theorem Kept.wired_onclose (h : b.Kept) (hin : b.signedIn = true)
    (htimer : b.reconnectTimer = none) : b.onclose.Wired := by
  have hkept := h.cleanup
  have htimeouts : b.timeouts = [] := by simpa [htimer] using h.timeouts
  unfold onclose scheduleReconnect
  simp only [Browser.cleanup, htimer]
  exact
    { others := hkept.others
      timeouts := by simp [htimeouts]
      intervals := hkept.intervals
      pending := hkept.pending
      socket := nofun
      noSocket := fun _ => ⟨rfl, (painted_cancelFrame h.pending).2⟩
      pinging := by simp
      waiting := fun _ => by simp
      out := fun hout => absurd (hin.symm.trans hout) Bool.true_eq_false.mp }

theorem Kept.wired_connect (h : b.Kept) (hin : b.signedIn = true) (hws : b.ws = none)
    (htimer : b.reconnectTimer = none) (hping : b.pingInterval = none) : b.connect.Wired := by
  have hcurrent : b.current = none := by simp [current, hws]
  unfold connect
  rw [hcurrent, Option.any_none, if_neg Bool.false_ne_true]
  exact
    { others := by
        intro i s hs hi
        rcases Nat.lt_trichotomy i b.sockets.length with hlt | rfl | hgt
        · refine h.others i s ?_ (by simp [hws])
          rwa [List.getElem?_append_left hlt] at hs
        · exact absurd rfl hi
        · have hnone : (b.sockets ++ [⟨.connecting, true⟩])[i]? = none := by
            rw [List.getElem?_eq_none_iff, List.length_append, List.length_singleton]
            omega
          cases hnone.symm.trans hs
      timeouts := h.timeouts
      intervals := h.intervals
      pending := h.pending
      socket := by
        rintro i ⟨⟩
        exact ⟨⟨.connecting, true⟩, by simp, rfl, rfl⟩
      noSocket := nofun
      pinging := by simp [hping]
      waiting := fun _ => by simp [htimer]
      out := fun hout => absurd (hin.symm.trans hout) Bool.true_eq_false.mp }

/-- A socket that something may still come of is the current one. -/
theorem Wired.ws_eq (h : b.Wired) {i : Nat} {s : Socket} (hs : b.sockets[i]? = some s)
    (hgone : ¬ s.Gone) : b.ws = some i := by
  by_contra hws
  exact hgone (h.others i s hs hws)

/-- The current socket. -/
theorem Wired.current_spec (h : b.Wired) {i : Nat} {s : Socket} (hs : b.sockets[i]? = some s)
    (hws : b.ws = some i) :
    s.handled = true ∧ s.Shows b.connectionState ∧ b.signedIn = true ∧ b.reconnectTimer = none := by
  obtain ⟨s', hs', hhandled, hshows⟩ := h.socket i hws
  obtain rfl : s' = s := by simpa [hs] using hs'.symm
  have hin : b.signedIn = true := by
    by_contra hout
    have hnone := (h.out (by simpa using hout)).1
    cases hnone.symm.trans hws
  refine ⟨hhandled, hshows, hin, ?_⟩
  by_contra htimer
  have hnone := (h.waiting hin).2 (Option.isSome_iff_ne_none.2 htimer)
  cases hnone.symm.trans hws

theorem Wired.shown (h : b.Wired) {i : Nat} (hws : b.ws = some i) :
    b.connectionState ≠ .disconnected := by
  obtain ⟨⟨readyState, handled⟩, -, -, hshows⟩ := h.socket i hws
  intro hstate
  cases readyState <;> simp [Socket.Shows, hstate] at hshows

/-- Only the current socket is touched. -/
theorem Kept.onerror (h : b.Kept) : b.onerror.Kept where
  others := by
    intro i s hs hi
    cases hws : b.ws with
    | none =>
        simp only [Browser.onerror, hws, Option.elim_none] at hs
        exact h.others i s hs (by simp [hws])
    | some j =>
        simp only [Browser.onerror, hws, Option.elim_some] at hs
        rcases getElem?_modify_cases hs with ⟨rfl, -⟩ | ⟨-, hs⟩
        · exact absurd hws hi
        · exact h.others i s hs hi
  timeouts := h.timeouts
  intervals := h.intervals
  pending := h.pending

/-- The socket moves on, or is gone anyway. -/
theorem Wired.kept_setReadyState (h : b.Wired) (i : Nat) (readyState : ReadyState)
    (hmove : b.ws = some i ∨ readyState = .closed) : (b.setReadyState i readyState).Kept where
  others := by
    intro j s hs hj
    rcases getElem?_modify_cases hs with ⟨rfl, old, hold, rfl⟩ | ⟨-, hs⟩
    · rcases hmove with hws | rfl
      · exact absurd hws hj
      · exact ⟨(h.others i old hold hj).1, .inr rfl⟩
    · exact h.others j s hs hj
  timeouts := h.timeouts
  intervals := h.intervals
  pending := h.pending

theorem Wired.pingInterval_eq_none (h : b.Wired) (hshown : b.connectionState ≠ .connected) :
    b.pingInterval = none := by
  by_contra hsome
  exact hshown (h.pinging.1 (Option.isSome_iff_ne_none.2 hsome))

/-- Without a socket there is no ping. -/
theorem Wired.pingInterval_of_ws (h : b.Wired) (hws : b.ws = none) : b.pingInterval = none :=
  h.pingInterval_eq_none (by simp [(h.noSocket hws).1])

theorem Wired.opened (h : b.Wired) {i : Nat} {handled : Bool}
    (hs : b.sockets[i]? = some ⟨.connecting, handled⟩) :
    (b.setReadyState i .opened).onopen.Wired := by
  have hws := h.ws_eq hs (by simp [Socket.Gone])
  obtain ⟨hhandled, hshows, -, -⟩ := h.current_spec hs hws
  have hshown : b.connectionState = .connecting := hshows
  have hping := h.pingInterval_eq_none (by simp [hshown])
  have hintervals : b.intervals = [] := by simpa [hping] using h.intervals
  have hkept := h.kept_setReadyState i .opened (.inl hws)
  exact
    { others := hkept.others
      timeouts := hkept.timeouts
      intervals := by simp [onopen, setReadyState, hintervals]
      pending := hkept.pending
      socket := by
        intro j hj
        obtain rfl : i = j := Option.some.inj (hws.symm.trans hj)
        exact ⟨_, getElem?_modify_self hs, hhandled, rfl⟩
      noSocket := fun hnone => by cases hnone.symm.trans hws
      pinging := by simp [onopen]
      waiting := h.waiting
      out := h.out }

theorem Wired.closing (h : b.Wired) {i : Nat} {s : Socket} (hs : b.sockets[i]? = some s)
    (hgone : ¬ s.Gone) : (b.setReadyState i .closing).Wired := by
  have hws := h.ws_eq hs hgone
  obtain ⟨hhandled, -, -, -⟩ := h.current_spec hs hws
  exact
    { toKept := h.kept_setReadyState i .closing (.inl hws)
      socket := by
        intro j hj
        obtain rfl : i = j := Option.some.inj (hws.symm.trans hj)
        exact ⟨_, getElem?_modify_self hs, hhandled, h.shown hws⟩
      noSocket := h.noSocket
      pinging := h.pinging
      waiting := h.waiting
      out := h.out }

/-- An earlier socket is gone for good. -/
theorem Wired.closed_other (h : b.Wired) {i : Nat} (hws : b.ws ≠ some i) :
    (b.setReadyState i .closed).Wired where
  toKept := h.kept_setReadyState i .closed (.inr rfl)
  socket := by
    intro j hj
    obtain ⟨s, hs, hspec⟩ := h.socket j hj
    have hne : i ≠ j := fun heq => hws (heq ▸ hj)
    exact ⟨s, by simpa [setReadyState, List.getElem?_modify, hne] using hs, hspec⟩
  noSocket := h.noSocket
  pinging := h.pinging
  waiting := h.waiting
  out := h.out

theorem Wired.closed_current (h : b.Wired) {i : Nat} {s : Socket} (hs : b.sockets[i]? = some s)
    (hws : b.ws = some i) (failed : Bool) :
    (if failed then (b.setReadyState i .closed).onerror
      else b.setReadyState i .closed).onclose.Wired := by
  obtain ⟨-, -, hin, htimer⟩ := h.current_spec hs hws
  -- what `onerror` closes is closed already
  have hkept := h.kept_setReadyState i .closed (.inl hws)
  cases failed with
  | false => exact hkept.wired_onclose hin htimer
  | true => exact hkept.onerror.wired_onclose hin htimer

/-- The timeout is the one that the page waits for. -/
theorem Wired.timeout (h : b.Wired) {id : Nat} (hid : id ∈ b.timeouts) :
    Browser.Wired
      { b with timeouts := b.timeouts.erase id, reconnectTimer := none : Browser }.connect := by
  have htimer : b.reconnectTimer = some id := by simpa [h.timeouts, eq_comm] using hid
  have hin : b.signedIn = true := by
    by_contra hout
    cases (h.out (by simpa using hout)).2.symm.trans htimer
  have hws : b.ws = none := (h.waiting hin).2 (by simp [htimer])
  refine Kept.wired_connect ⟨h.others, ?_, h.intervals, h.pending⟩ hin hws rfl
    (h.pingInterval_of_ws hws)
  simp [h.timeouts, htimer]

/-- **One event.** -/
theorem Wired.step (h : b.Wired) (e : BrowserEvent) : (b.step e).Wired := by
  cases e with
  | signIn =>
      rw [Browser.step]
      split
      · exact h
      · obtain ⟨hws, htimer⟩ := h.out (by simpa using ‹¬b.signedIn = true›)
        exact Kept.wired_connect ⟨h.others, h.timeouts, h.intervals, h.pending⟩ rfl hws htimer
          (h.pingInterval_of_ws hws)
  | signOut =>
      rw [Browser.step]
      split
      · exact Kept.wired_disconnect ⟨h.others, h.timeouts, h.intervals, h.pending⟩ rfl
      · exact h
  | opened i =>
      unfold Browser.step
      dsimp only
      split
      · exact h.opened ‹_›
      · exact h
  | received i payload =>
      unfold Browser.step
      dsimp only
      split
      · rename_i payload hs
        have hws := h.ws_eq hs (by simp [Socket.Gone])
        exact
          { others := h.others
            timeouts := h.timeouts
            intervals := h.intervals
            pending := pending_handleEvent payload h.pending
            socket := h.socket
            noSocket := fun hnone => by cases hnone.symm.trans hws
            pinging := h.pinging
            waiting := h.waiting
            out := h.out }
      · exact h
  | closing i =>
      unfold Browser.step
      dsimp only
      split
      · exact h.closing ‹_› (by simp [Socket.Gone])
      · exact h.closing ‹_› (by simp [Socket.Gone])
      · exact h
  | closed i failed =>
      unfold Browser.step
      dsimp only
      split
      · exact h
      · exact h
      · rename_i s hopen hs
        by_cases hws : b.ws = some i
        · rw [if_pos (h.current_spec hs hws).1]
          exact h.closed_current hs hws failed
        · rw [if_neg (by simp [(h.others i s hs hws).1])]
          exact h.closed_other hws
  | timeout id =>
      rw [Browser.step]
      split
      · exact h.timeout ‹_›
      · exact h
  | interval id =>
      rw [Browser.step]
      split
      · split
        · exact ⟨⟨h.others, h.timeouts, h.intervals, h.pending⟩, h.socket, h.noSocket, h.pinging,
            h.waiting, h.out⟩
        · exact h
      · exact h
  | frame =>
      refine ⟨⟨h.others, h.timeouts, h.intervals, ?_⟩, h.socket, fun hws => ?_, h.pinging,
        h.waiting, h.out⟩
      · exact pending_frame h.pending
      · have hraf := (h.noSocket hws).2
        simpa [Browser.step, pageStep, hraf] using (h.noSocket hws).1

/-- Without a user, nothing but the sockets that are still closing changes. -/
theorem Wired.step_out (h : b.Wired) (hout : b.signedIn = false) {e : BrowserEvent}
    (he : e ≠ .signIn) :
    (b.step e).signedIn = false ∧ (b.step e).page = b.page ∧ (b.step e).pings = b.pings := by
  obtain ⟨hws, htimer⟩ := h.out hout
  obtain ⟨hshown, hraf⟩ := h.noSocket hws
  have hgone : ∀ i (s : Socket), b.sockets[i]? = some s → s.Gone := fun i s hs =>
    h.others i s hs (by simp [hws])
  cases e with
  | signIn => exact absurd rfl he
  | signOut => simp [Browser.step, hout]
  | opened i =>
      unfold Browser.step
      dsimp only
      split
      · rename_i handled hs
        simpa [Socket.Gone] using hgone i _ hs
      · exact ⟨hout, rfl, rfl⟩
  | received i payload =>
      unfold Browser.step
      dsimp only
      split
      · rename_i hs
        simpa [Socket.Gone] using hgone i _ hs
      · exact ⟨hout, rfl, rfl⟩
  | closing i =>
      unfold Browser.step
      dsimp only
      split <;> exact ⟨hout, rfl, rfl⟩
  | closed i failed =>
      unfold Browser.step
      dsimp only
      split
      · exact ⟨hout, rfl, rfl⟩
      · exact ⟨hout, rfl, rfl⟩
      · rename_i s _ hs
        rw [if_neg (by simp [(hgone i s hs).1])]
        exact ⟨hout, rfl, rfl⟩
  | timeout id => simp [Browser.step, h.timeouts, htimer, hout]
  | interval id =>
      simp [Browser.step, h.intervals, h.pingInterval_of_ws hws, hout]
  | frame => simp [Browser.step, pageStep, hraf, hout]

end Browser

/-! ### Runs -/

def browserAfter (events : List BrowserEvent) : Browser := run Browser.step signedOut events

theorem wired_signedOut : signedOut.Wired where
  others := by simp [signedOut]
  timeouts := rfl
  intervals := rfl
  pending _ := rfl
  socket := nofun
  noSocket _ := ⟨rfl, rfl⟩
  pinging := by simp [signedOut]
  waiting := nofun
  out _ := ⟨rfl, rfl⟩

theorem wired_browserAfter (events : List BrowserEvent) : (browserAfter events).Wired :=
  run_invariant Browser.Wired (fun _ e h => h.step e) wired_signedOut events

/-- The page listens to a socket, and shows how it is. -/
def Browser.Attends (b : Browser) : Prop :=
  b.timeouts = [] ∧ ∃ i s, b.ws = some i ∧ b.sockets[i]? = some s ∧ s.handled = true ∧
    s.Shows b.connectionState

/-- It will try again. -/
def Browser.Waits (b : Browser) : Prop :=
  b.ws = none ∧ b.connectionState = .disconnected ∧ ∃ id, b.timeouts = [id]

/-- Nothing is left that could do something. -/
def Browser.Silent (b : Browser) : Prop :=
  b.ws = none ∧ b.connectionState = .disconnected ∧ b.timeouts = [] ∧ b.intervals = [] ∧
    b.page.Painted

theorem Browser.Wired.attends_or_waits {b : Browser} (h : b.Wired) (hin : b.signedIn = true) :
    b.Attends ∨ b.Waits := by
  cases hws : b.ws with
  | none =>
      obtain ⟨id, hid⟩ := Option.isSome_iff_exists.1 ((h.waiting hin).1 hws)
      exact .inr ⟨hws, (h.noSocket hws).1, id, by simp [h.timeouts, hid]⟩
  | some i =>
      obtain ⟨s, hs, hhandled, hshows⟩ := h.socket i hws
      have htimer := (h.current_spec hs hws).2.2.2
      exact .inl ⟨by simp [h.timeouts, htimer], i, s, hws, hs, hhandled, hshows⟩

theorem Browser.Wired.silent {b : Browser} (h : b.Wired) (hout : b.signedIn = false) :
    b.Silent := by
  obtain ⟨hws, htimer⟩ := h.out hout
  obtain ⟨hshown, hraf⟩ := h.noSocket hws
  exact ⟨hws, hshown, by simp [h.timeouts, htimer],
    by simp [h.intervals, h.pingInterval_of_ws hws], h.pending hraf, hraf⟩

/-- As long as no user comes, the page and the pings stay as they are. -/
theorem Browser.Wired.run_out {b : Browser} (h : b.Wired) (hout : b.signedIn = false)
    (rest : List BrowserEvent) (hrest : .signIn ∉ rest) :
    (run Browser.step b rest).Silent ∧ (run Browser.step b rest).page = b.page ∧
      (run Browser.step b rest).pings = b.pings := by
  induction rest generalizing b with
  | nil => exact ⟨h.silent hout, rfl, rfl⟩
  | cons e rest ih =>
      obtain ⟨he, hrest⟩ := not_or.1 (hrest ∘ List.mem_cons.2)
      obtain ⟨hout', hpage, hpings⟩ := h.step_out hout (Ne.symm he)
      obtain ⟨hsilent, hpage', hpings'⟩ := ih (h.step e) hout' hrest
      exact ⟨hsilent, hpage'.trans hpage, hpings'.trans hpings⟩

/-- **The connection over any run.** With a user the page has its socket or a timeout to open one,
never both and never two; without one nothing is left, and nothing happens until the next comes. -/
theorem connection_of_run (events : List BrowserEvent) :
    ((browserAfter events).signedIn = true →
        (browserAfter events).Attends ∨ (browserAfter events).Waits) ∧
      ((browserAfter events).signedIn = false → ∀ rest, .signIn ∉ rest →
        (browserAfter (events ++ rest)).Silent ∧
          (browserAfter (events ++ rest)).page = (browserAfter events).page ∧
          (browserAfter (events ++ rest)).pings = (browserAfter events).pings) ∧
      (∀ i (s : Socket), (browserAfter events).sockets[i]? = some s → ¬ s.Gone →
        (browserAfter events).ws = some i) ∧
      ((browserAfter events).intervals.length =
        if (browserAfter events).connectionState = .connected then 1 else 0) := by
  have hwired := wired_browserAfter events
  refine ⟨hwired.attends_or_waits, fun hout rest hrest => ?_, fun _ _ => hwired.ws_eq, ?_⟩
  · simp only [browserAfter, run_append]
    exact hwired.run_out hout rest hrest
  · rw [hwired.intervals]
    split
    · obtain ⟨id, hid⟩ := Option.isSome_iff_exists.1 (hwired.pinging.2 ‹_›)
      simp [hid]
    · simp [hwired.pingInterval_eq_none ‹_›]

/-- The server goes away, and the page comes back. -/
example :
    (browserAfter [.signIn, .opened 0, .closed 0 true]).timeouts = [2] ∧
      (browserAfter [.signIn, .opened 0, .closed 0 true, .timeout 2]).ws = some 1 := by
  decide

end Feloxi.Ws
