/-
Subscriptions in proxy mode (`connections/proxy.ts`, `proxy/relayProxyServer.ts`).

The `ProxyRuntime` stands in for the connections worker: envelopes come on its
cache port and go to the proxy server over one web socket.  A subscription is
ended by a text posted to the worker, or by a `CLOSE` that the parser worker
posts on its port, to which the runtime does not listen.
-/
import Nipworker.Lib.Run
import Nipworker.Proxy.ProxySession

namespace Nipworker

open List

/-! ### The parties -/

structure ProxyEnvelope where
  relays : List String
  frames : List ProxyFrame
  deriving DecidableEq, Repr

def ProxyEnvelope.message (e : ProxyEnvelope) : ClientMessage := .envelope e.relays e.frames

def ProxyEnvelope.requests (s : String) (e : ProxyEnvelope) : Bool := e.message.requests s

/-- One web socket to the proxy server: its state at the client, what is on the
way, the session at the server, and whether the server has seen it end. -/
structure ProxyLink where
  ws : ReadyState
  toServer : List ClientMessage
  session : ProxySession
  ended : Bool

def ProxyLink.fresh : ProxyLink :=
  { ws := .connecting, toServer := [], session := .new, ended := false }

/-- `ws.send`; nothing arrives once the server has seen the socket end. -/
def ProxyLink.send (link : ProxyLink) (messages : List ClientMessage) : ProxyLink :=
  if link.ended then link else { link with toServer := link.toServer ++ messages }

def ProxyLink.receive (isUrl : String → Bool) (link : ProxyLink) : ProxyLink :=
  match link.toServer with
  | [] => link
  | message :: rest =>
    { link with toServer := rest, session := link.session.receive isUrl message }

/-- The server sees the web socket end; what was on the way is lost. -/
def ProxyLink.finish (link : ProxyLink) : ProxyLink :=
  { link with toServer := [], session := link.session.closeSession, ended := true }

def ProxyLink.onSession (f : ProxySession → ProxySession) (link : ProxyLink) : ProxyLink :=
  { link with session := f link.session }

/-- What the application asked for: a subscription, or its end. -/
inductive SubIssue
  | req (subId : String)
  | unsubscribe (subId : String)
  deriving DecidableEq, Repr

/-- The parties: what is posted to the runtime on its cache port and as texts,
its own pending frames, its current web socket and all others, and what was
asked for so far, newest first. -/
structure ProxySystem where
  cachePort : List ProxyEnvelope
  commands : List String
  pendingFrames : List ProxyEnvelope
  current : ℕ
  links : ℕ → ProxyLink
  issued : List SubIssue

namespace ProxySystem

def start : ProxySystem :=
  { cachePort := [], commands := [], pendingFrames := [], current := 0
    links := fun _ => .fresh, issued := [] }

def link (st : ProxySystem) : ProxyLink := st.links st.current

/-- Something happens to one of the web sockets there are. -/
def onLink (st : ProxySystem) (i : ℕ) (f : ProxyLink → ProxyLink) : ProxySystem :=
  if i ≤ st.current then { st with links := Function.update st.links i (f (st.links i)) } else st

def sendBinary (st : ProxySystem) (e : ProxyEnvelope) : ProxySystem :=
  if st.link.ws = .opened then st.onLink st.current fun link => link.send [e.message]
  else { st with pendingFrames := st.pendingFrames ++ [e] }

def close (st : ProxySystem) (subId : String) : ProxySystem :=
  if subId ≠ "" ∧ st.link.ws = .opened then
    st.onLink st.current fun link => link.send [.closeSub subId]
  else st

/-- The end of `handleCryptoResponse`: the event a relay asked for is sent, if the
web socket is open. -/
def authResponse (st : ProxySystem) (relay event : String) : ProxySystem :=
  if st.link.ws = .opened then
    st.onLink st.current fun link => link.send [.authResponse relay event]
  else st

def openSocket (st : ProxySystem) : ProxySystem := { st with current := st.current + 1 }

/-- `ws.onopen`: the pending frames are sent. -/
def onopen (st : ProxySystem) : ProxySystem :=
  if st.link.ws = .connecting then
    { st.onLink st.current fun link => ({ link with ws := .opened } : ProxyLink).send
        (st.pendingFrames.map ProxyEnvelope.message) with
      pendingFrames := [] }
  else st

def forceReconnect (st : ProxySystem) : ProxySystem :=
  (st.onLink st.current fun link => { link with ws := .closing }).openSocket

/-- The timer of `scheduleReconnect`. -/
def reconnect (st : ProxySystem) : ProxySystem :=
  if st.link.ws ≠ .opened ∧ st.link.ws ≠ .connecting then st.openSocket else st

end ProxySystem

inductive ProxyAction
  /-- The cache worker posts an envelope. -/
  | post (e : ProxyEnvelope)
  /-- The id of a subscription is posted to the worker. -/
  | unsubscribe (subId : String)
  /-- The parser worker posts a `CLOSE` on its port. -/
  | parserClose (subId : String)
  /-- The crypto worker answers the challenge of a relay. -/
  | authResponse (relay event : String)
  | takeEnvelope
  | takeCommand
  | opened
  | wsClosed (i : ℕ)
  | wake
  | timer
  | serverReceive (i : ℕ)
  | sessionEnded (i : ℕ)
  | relayOpened (i : ℕ) (url : String)
  | relayClosing (i : ℕ) (url : String)
  | relayClosed (i : ℕ) (url : String)

namespace ProxySystem

def requested (e : ProxyEnvelope) : List SubIssue :=
  e.frames.filterMap fun
    | .req subId _ => some (.req subId)
    | _ => none

/-- One step.  Nothing listens to the port of the parser worker. -/
def step (isUrl : String → Bool) (st : ProxySystem) : ProxyAction → ProxySystem
  | .post e =>
    { st with cachePort := st.cachePort ++ [e], issued := requested e ++ st.issued }
  | .unsubscribe subId =>
    { st with commands := st.commands ++ [subId], issued := .unsubscribe subId :: st.issued }
  | .parserClose subId => { st with issued := .unsubscribe subId :: st.issued }
  | .authResponse relay event => st.authResponse relay event
  | .takeEnvelope =>
    match st.cachePort with
    | [] => st
    | e :: rest => ({ st with cachePort := rest } : ProxySystem).sendBinary e
  | .takeCommand =>
    match st.commands with
    | [] => st
    | subId :: rest => ({ st with commands := rest } : ProxySystem).close subId
  | .opened => st.onopen
  | .wsClosed i => st.onLink i fun link => { link with ws := .closed }
  | .wake => st.forceReconnect
  | .timer => st.reconnect
  | .serverReceive i => st.onLink i (ProxyLink.receive isUrl)
  | .sessionEnded i => st.onLink i ProxyLink.finish
  | .relayOpened i url => st.onLink i (ProxyLink.onSession fun session => session.relayOpened url)
  | .relayClosing i url => st.onLink i (ProxyLink.onSession fun session => session.relayClosing url)
  | .relayClosed i url => st.onLink i (ProxyLink.onSession fun session => session.relayClosed url)

end ProxySystem

/-! ### What is asked of the runs -/

/-- The last thing asked for of a subscription is the subscription. -/
def live (s : String) : List SubIssue → Bool
  | [] => false
  | .req subId :: rest => if subId = s then true else live s rest
  | .unsubscribe subId :: rest => if subId = s then false else live s rest

/-- The subscription was closed after its last REQ. -/
def Unsubscribed (s : String) (st : ProxySystem) : Prop :=
  live s st.issued = false ∧ .req s ∈ st.issued

/-- Nothing is on its way: no message, no pending frame at the client or at the
server, and no end of a web socket. -/
def Quiescent (st : ProxySystem) : Prop :=
  st.cachePort = [] ∧ st.commands = [] ∧ st.pendingFrames = [] ∧
    ∀ i ≤ st.current, (st.links i).toServer = [] ∧
      (∀ frames ∈ (st.links i).session.pendingFrames.values, frames = []) ∧
      ((st.links i).ws = .closing ∨ (st.links i).ws = .closed → (st.links i).ended = true)

/-- An unsubscribe is not lost at the step.  The parser worker does not end a
subscription that is live.  The last text that ends one finds the web socket open
and no envelope for it on the cache port; and when the server comes to it, no
`REQ` for the subscription waits for a socket to open. -/
def Heeded (s : String) (st : ProxySystem) : ProxyAction → Prop
  | .parserClose subId => subId = s → live s st.issued = false
  | .takeCommand => ∀ rest, st.commands = s :: rest → live s st.issued = false → s ∉ rest →
      s ≠ "" ∧ st.link.ws = .opened ∧ ∀ e ∈ st.cachePort, e.requests s = false
  | .serverReceive i => ∀ rest, i = st.current → st.link.toServer = .closeSub s :: rest →
      live s st.issued = false → s ∉ st.commands → .closeSub s ∉ rest →
      ∀ url frames, st.link.session.pendingFrames.lookup url = some frames →
        ∀ frame ∈ frames, frame.requests s = false
  | _ => True

/-- No relay socket goes down while the subscription is open on it. -/
def Survives (s : String) (st : ProxySystem) : ProxyAction → Prop
  | .relayClosing i url => (st.links i).session.OpenClosed s url
  | .relayClosed i url => (st.links i).session.OpenClosed s url
  | .sessionEnded i => ∀ url, (st.links i).session.OpenClosed s url
  | _ => True

/-! ### One web socket -/

def ProxySession.Bare (session : ProxySession) : Prop :=
  session.relaySockets = ∅ ∧ session.pendingFrames = ∅

variable {session : ProxySession} {s : String} {st : ProxySystem}

theorem ProxySession.Bare.relayOpened (h : session.Bare) (url : String) :
    (session.relayOpened url).Bare := by
  simp only [ProxySession.relayOpened, h.1]
  exact h

theorem ProxySession.Bare.relayDown (h : session.Bare) (url : String)
    (state : ReadyState) : (session.relayDown url state).Bare := by
  simp only [ProxySession.relayDown, h.1]
  exact h

theorem ProxySession.Bare.quiet (h : session.Bare) (s : String) : session.Quiet s :=
  ⟨fun url frames hlook => absurd hlook (by simp [h.2]),
    fun url socket hlook => absurd hlook (by simp [h.1])⟩

/-- Before a web socket opens, and after the server has seen it end, there is
nothing on the way and nothing in the session. -/
structure LinkOk (link : ProxyLink) : Prop where
  idle : link.ws = .connecting → link.toServer = [] ∧ link.session.Bare
  done : link.ended = true → link.toServer = [] ∧ link.session.Bare
  tidy : link.session.Tidy

namespace LinkOk

variable {link : ProxyLink}

theorem fresh : LinkOk .fresh :=
  ⟨fun _ => ⟨rfl, rfl, rfl⟩, fun _ => ⟨rfl, rfl, rfl⟩, .new⟩

theorem send (h : LinkOk link) (hws : link.ws ≠ .connecting) (messages : List ClientMessage) :
    LinkOk (link.send messages) := by
  rw [ProxyLink.send]
  by_cases hended : link.ended = true
  · rw [if_pos hended]
    exact h
  · rw [if_neg hended]
    exact ⟨fun hc => absurd hc hws, fun he => absurd he hended, h.tidy⟩

theorem receive (h : LinkOk link) (isUrl : String → Bool) : LinkOk (link.receive isUrl) := by
  rw [ProxyLink.receive]
  split
  next => exact h
  next message rest hcons =>
    -- something is on the way, so the socket is neither new nor done
    have hne : link.toServer ≠ [] := by
      rw [hcons]
      simp
    exact ⟨fun hc => absurd (h.idle hc).1 hne, fun he => absurd (h.done he).1 hne,
      h.tidy.receive isUrl message⟩

theorem finish (h : LinkOk link) : LinkOk link.finish :=
  ⟨fun _ => ⟨rfl, rfl, rfl⟩, fun _ => ⟨rfl, rfl, rfl⟩, h.tidy.closeSession⟩

theorem down (h : LinkOk link) {state : ReadyState} (hstate : state ≠ .connecting) :
    LinkOk { link with ws := state } :=
  ⟨fun hc => absurd hc hstate, h.done, h.tidy⟩

theorem relayOpened (h : LinkOk link) (url : String) :
    LinkOk (link.onSession fun session => session.relayOpened url) :=
  ⟨fun hc => ⟨(h.idle hc).1, (h.idle hc).2.relayOpened url⟩,
    fun he => ⟨(h.done he).1, (h.done he).2.relayOpened url⟩, h.tidy.relayOpened url⟩

theorem relayDown (h : LinkOk link) (url : String) {state : ReadyState}
    (hstate : state ≠ .connecting) :
    LinkOk (link.onSession fun session => session.relayDown url state) :=
  ⟨fun hc => ⟨(h.idle hc).1, (h.idle hc).2.relayDown url state⟩,
    fun he => ⟨(h.done he).1, (h.done he).2.relayDown url state⟩, h.tidy.relayDown url hstate⟩

end LinkOk

/-- The web socket owes no `CLOSE` that is not on its way: behind the command to
close the subscription nothing asks for it, or nothing on the way does and
neither does the session. -/
def LinkSettled (s : String) (link : ProxyLink) : Prop :=
  (∃ before after, link.toServer = before ++ .closeSub s :: after ∧
    ∀ m ∈ after, m.requests s = false) ∨
  ((∀ m ∈ link.toServer, m.requests s = false) ∧ link.session.Quiet s)

namespace LinkSettled

variable {link : ProxyLink} {s : String}

theorem fresh (s : String) : LinkSettled s .fresh :=
  Or.inr ⟨fun m hm => absurd hm (by simp [ProxyLink.fresh]), .new s⟩

theorem send (h : LinkSettled s link) {messages : List ClientMessage}
    (hm : ∀ m ∈ messages, m.requests s = false) : LinkSettled s (link.send messages) := by
  rw [ProxyLink.send]
  by_cases hended : link.ended = true
  · rw [if_pos hended]
    exact h
  rw [if_neg hended]
  obtain ⟨before, after, hto, hafter⟩ | ⟨hto, hquiet⟩ := h
  · refine Or.inl ⟨before, after ++ messages, ?_, fun m hmem => ?_⟩
    · show link.toServer ++ messages = _
      rw [hto, append_assoc, cons_append]
    · exact (List.mem_append.mp hmem).elim (hafter m) (hm m)
  · refine Or.inr ⟨fun m hmem => ?_, hquiet⟩
    exact (List.mem_append.mp hmem).elim (hto m) (hm m)

theorem send_closeSub (h : LinkOk link) (s : String) : LinkSettled s (link.send [.closeSub s]) := by
  rw [ProxyLink.send]
  by_cases hended : link.ended = true
  · -- the server is gone, and its session with it
    rw [if_pos hended]
    obtain ⟨hto, hbare⟩ := h.done hended
    exact Or.inr ⟨fun m hm => absurd hm (by simp [hto]), hbare.quiet s⟩
  · rw [if_neg hended]
    exact Or.inl ⟨link.toServer, [], rfl, fun m hm => absurd hm (by simp)⟩

theorem receive (h : LinkSettled s link) (isUrl : String → Bool)
    (hheed : ∀ rest, link.toServer = .closeSub s :: rest → .closeSub s ∉ rest →
      ∀ url frames, link.session.pendingFrames.lookup url = some frames →
        ∀ frame ∈ frames, frame.requests s = false) :
    LinkSettled s (link.receive isUrl) := by
  rw [ProxyLink.receive]
  split
  next => exact h
  next message rest hcons =>
    obtain ⟨before, after, hto, hafter⟩ | ⟨hto, hquiet⟩ := h
    · cases before with
      | nil =>
        obtain ⟨rfl, rfl⟩ := List.cons.inj (hcons.symm.trans hto)
        by_cases hmore : ClientMessage.closeSub s ∈ rest
        · -- it is asked once more behind this one
          obtain ⟨front, back, rfl⟩ := append_of_mem hmore
          exact Or.inl ⟨front, back, rfl, fun m hm => hafter m (by simp [hm])⟩
        · exact Or.inr ⟨hafter, ProxySession.Quiet.closeSub (hheed rest hcons hmore)⟩
      | cons first before =>
        obtain ⟨-, hrest⟩ := List.cons.inj (hcons.symm.trans hto)
        exact Or.inl ⟨before, after, hrest, hafter⟩
    · have hall : ∀ m ∈ message :: rest, m.requests s = false := hcons ▸ hto
      exact Or.inr ⟨fun m hm => hall m (mem_cons_of_mem message hm),
        hquiet.receive isUrl (hall message mem_cons_self)⟩

theorem finish (s : String) (link : ProxyLink) : LinkSettled s link.finish :=
  Or.inr ⟨fun m hm => absurd hm (by simp [ProxyLink.finish]), .closeSession s link.session⟩

theorem onSession (h : LinkSettled s link) {f : ProxySession → ProxySession}
    (hf : link.session.Quiet s → (f link.session).Quiet s) : LinkSettled s (link.onSession f) :=
  h.imp_right fun hright => ⟨hright.1, hf hright.2⟩

end LinkSettled

/-! ### All web sockets -/

/-- All web sockets are in order: there are none behind the current one, those
before it are down, and no frame is pending while it is open. -/
structure Linked (st : ProxySystem) : Prop where
  ok : ∀ i, LinkOk (st.links i)
  future : ∀ i, st.current < i → st.links i = .fresh
  past : ∀ i < st.current, (st.links i).ws = .closing ∨ (st.links i).ws = .closed
  waiting : st.link.ws = .opened → st.pendingFrames = []

namespace ProxySystem

variable {st : ProxySystem} {i : ℕ} {f : ProxyLink → ProxyLink}

@[simp] theorem onLink_current (st : ProxySystem) (i : ℕ) (f : ProxyLink → ProxyLink) :
    (st.onLink i f).current = st.current := by
  rw [onLink]
  split <;> rfl

@[simp] theorem onLink_cachePort (st : ProxySystem) (i : ℕ) (f : ProxyLink → ProxyLink) :
    (st.onLink i f).cachePort = st.cachePort := by
  rw [onLink]
  split <;> rfl

@[simp] theorem onLink_commands (st : ProxySystem) (i : ℕ) (f : ProxyLink → ProxyLink) :
    (st.onLink i f).commands = st.commands := by
  rw [onLink]
  split <;> rfl

@[simp] theorem onLink_pendingFrames (st : ProxySystem) (i : ℕ) (f : ProxyLink → ProxyLink) :
    (st.onLink i f).pendingFrames = st.pendingFrames := by
  rw [onLink]
  split <;> rfl

@[simp] theorem onLink_issued (st : ProxySystem) (i : ℕ) (f : ProxyLink → ProxyLink) :
    (st.onLink i f).issued = st.issued := by
  rw [onLink]
  split <;> rfl

theorem onLink_links (st : ProxySystem) (i : ℕ) (f : ProxyLink → ProxyLink) (j : ℕ) :
    (st.onLink i f).links j = if j = i ∧ i ≤ st.current then f (st.links i) else st.links j := by
  rw [onLink]
  by_cases hi : i ≤ st.current
  · rw [if_pos hi]
    by_cases hj : j = i
    · rw [if_pos ⟨hj, hi⟩, hj]
      exact Function.update_self i _ _
    · rw [if_neg fun hboth => hj hboth.1]
      exact Function.update_of_ne hj _ _
  · rw [if_neg hi, if_neg fun hboth => hi hboth.2]

theorem onLink_link_self (st : ProxySystem) (f : ProxyLink → ProxyLink) :
    (st.onLink st.current f).link = f st.link := by
  rw [link, onLink_links, onLink_current, if_pos ⟨rfl, le_refl _⟩]
  rfl

theorem onLink_link (st : ProxySystem) (i : ℕ) (f : ProxyLink → ProxyLink) :
    (st.onLink i f).link = if i = st.current then f st.link else st.link := by
  by_cases hi : i = st.current
  · rw [if_pos hi, hi]
    exact onLink_link_self st f
  · rw [if_neg hi, link, onLink_links, onLink_current, if_neg fun hboth => hi hboth.1.symm]
    rfl

end ProxySystem

namespace Linked

variable {st : ProxySystem}

theorem start : Linked .start :=
  ⟨fun _ => .fresh, fun _ _ => rfl, fun i hi => absurd hi (Nat.not_lt_zero i), fun _ => rfl⟩

theorem onLink (h : Linked st) (i : ℕ) {f : ProxyLink → ProxyLink}
    (hok : LinkOk (f (st.links i)))
    (hws : (f (st.links i)).ws = (st.links i).ws ∨ (f (st.links i)).ws = .closing ∨
      (f (st.links i)).ws = .closed) : Linked (st.onLink i f) := by
  refine ⟨fun j => ?_, fun j hj => ?_, fun j hj => ?_, fun hopen => ?_⟩
  · rw [ProxySystem.onLink_links]
    by_cases hj : j = i ∧ i ≤ st.current
    · rw [if_pos hj]
      exact hok
    · rw [if_neg hj]
      exact h.ok j
  · rw [ProxySystem.onLink_current] at hj
    rw [ProxySystem.onLink_links, if_neg (by omega)]
    exact h.future j hj
  · rw [ProxySystem.onLink_current] at hj
    rw [ProxySystem.onLink_links]
    by_cases hji : j = i ∧ i ≤ st.current
    · rw [if_pos hji]
      obtain hsame | hdown := hws
      · rw [hsame, ← hji.1]
        exact h.past j hj
      · exact hdown
    · rw [if_neg hji]
      exact h.past j hj
  · rw [ProxySystem.onLink_pendingFrames]
    rw [ProxySystem.onLink_link] at hopen
    by_cases hi : i = st.current
    · subst hi
      rw [if_pos rfl] at hopen
      obtain hsame | hclosing | hclosed := hws
      · exact h.waiting (hsame.symm.trans hopen)
      · exact absurd (hclosing.symm.trans hopen) (by simp)
      · exact absurd (hclosed.symm.trans hopen) (by simp)
    · rw [if_neg hi] at hopen
      exact h.waiting hopen

theorem withPorts (h : Linked st) (cachePort : List ProxyEnvelope) (commands : List String)
    (issued : List SubIssue) :
    Linked { st with cachePort := cachePort, commands := commands, issued := issued } :=
  ⟨h.ok, h.future, h.past, h.waiting⟩

theorem openSocket (h : Linked st)
    (hdown : st.link.ws = .closing ∨ st.link.ws = .closed) : Linked st.openSocket := by
  refine ⟨h.ok, fun i hi => h.future i (Nat.lt_of_succ_lt hi), fun i hi => ?_, fun hopen => ?_⟩
  · obtain hlt | rfl := Nat.lt_or_eq_of_le (Nat.le_of_lt_succ hi)
    · exact h.past i hlt
    · exact hdown
  · -- the new socket is still connecting
    have hfresh := h.future (st.current + 1) (Nat.lt_succ_self _)
    rw [ProxySystem.link, ProxySystem.openSocket, hfresh] at hopen
    exact absurd hopen (by simp [ProxyLink.fresh])

theorem send (h : Linked st) (hopen : st.link.ws = .opened) (messages : List ClientMessage) :
    Linked (st.onLink st.current fun link => link.send messages) := by
  have hconn : st.link.ws ≠ .connecting := by
    rw [hopen]
    simp
  refine h.onLink st.current ((h.ok st.current).send hconn _) (Or.inl ?_)
  rw [ProxyLink.send]
  split <;> rfl

theorem sendBinary (h : Linked st) (e : ProxyEnvelope) : Linked (st.sendBinary e) := by
  rw [ProxySystem.sendBinary]
  by_cases hopen : st.link.ws = .opened
  · rw [if_pos hopen]
    exact h.send hopen _
  · rw [if_neg hopen]
    exact ⟨h.ok, h.future, h.past, fun hc => absurd hc hopen⟩

theorem close (h : Linked st) (subId : String) : Linked (st.close subId) := by
  rw [ProxySystem.close]
  by_cases hopen : subId ≠ "" ∧ st.link.ws = .opened
  · rw [if_pos hopen]
    exact h.send hopen.2 _
  · rw [if_neg hopen]
    exact h

theorem authResponse (h : Linked st) (relay event : String) :
    Linked (st.authResponse relay event) := by
  rw [ProxySystem.authResponse]
  by_cases hopen : st.link.ws = .opened
  · rw [if_pos hopen]
    exact h.send hopen _
  · rw [if_neg hopen]
    exact h

theorem onopen (h : Linked st) : Linked st.onopen := by
  rw [ProxySystem.onopen]
  by_cases hconn : st.link.ws = .connecting
  · rw [if_pos hconn]
    refine ⟨fun j => ?_, fun j hj => ?_, fun j hj => ?_, fun _ => rfl⟩
    · show LinkOk ((st.onLink st.current _).links j)
      rw [ProxySystem.onLink_links]
      by_cases hj : j = st.current ∧ st.current ≤ st.current
      · rw [if_pos hj]
        exact ((h.ok st.current).down (by simp)).send (by simp) _
      · rw [if_neg hj]
        exact h.ok j
    · rw [ProxySystem.onLink_current] at hj
      show (st.onLink st.current _).links j = _
      rw [ProxySystem.onLink_links, if_neg (by omega)]
      exact h.future j hj
    · rw [ProxySystem.onLink_current] at hj
      show ((st.onLink st.current _).links j).ws = _ ∨ ((st.onLink st.current _).links j).ws = _
      rw [ProxySystem.onLink_links, if_neg (by omega)]
      exact h.past j hj
  · rw [if_neg hconn]
    exact h

theorem step (h : Linked st) (isUrl : String → Bool) (a : ProxyAction) :
    Linked (st.step isUrl a) := by
  cases a with
  | post e => exact h.withPorts _ _ _
  | unsubscribe subId => exact h.withPorts _ _ _
  | parserClose subId => exact h.withPorts _ _ _
  | authResponse relay event => exact h.authResponse relay event
  | takeEnvelope =>
    rw [ProxySystem.step]
    split
    next => exact h
    next e rest _ => exact (h.withPorts rest st.commands st.issued).sendBinary e
  | takeCommand =>
    rw [ProxySystem.step]
    split
    next => exact h
    next subId rest _ => exact (h.withPorts st.cachePort rest st.issued).close subId
  | opened => exact h.onopen
  | wsClosed i =>
    rw [ProxySystem.step]
    refine h.onLink i ?_ (Or.inr (Or.inr rfl))
    exact (h.ok i).down (by simp)
  | wake =>
    have hclosing : Linked (st.onLink st.current fun link => { link with ws := .closing }) := by
      refine h.onLink st.current ?_ (Or.inr (Or.inl rfl))
      exact (h.ok st.current).down (by simp)
    refine hclosing.openSocket ?_
    rw [ProxySystem.onLink_link_self]
    exact Or.inl rfl
  | timer =>
    rw [ProxySystem.step, ProxySystem.reconnect]
    split
    next hdown =>
      refine h.openSocket ?_
      cases hws : st.link.ws with
      | connecting => exact absurd hws hdown.2
      | opened => exact absurd hws hdown.1
      | closing => exact Or.inl rfl
      | closed => exact Or.inr rfl
    next => exact h
  | serverReceive i =>
    refine h.onLink i ((h.ok i).receive isUrl) (Or.inl ?_)
    rw [ProxyLink.receive]
    split <;> rfl
  | sessionEnded i => exact h.onLink i (h.ok i).finish (Or.inl rfl)
  | relayOpened i url => exact h.onLink i ((h.ok i).relayOpened url) (Or.inl rfl)
  | relayClosing i url => exact h.onLink i ((h.ok i).relayDown url (by simp)) (Or.inl rfl)
  | relayClosed i url => exact h.onLink i ((h.ok i).relayDown url (by simp)) (Or.inl rfl)

end Linked

/-! ### Subscriptions that have ended -/

/-- A subscription that is not live owes no `CLOSE` that is not on its way: a
text that ends it is posted; or nothing at the client asks for it, and the
current web socket is settled. -/
def AllSettled (s : String) (st : ProxySystem) : Prop :=
  s ∈ st.commands ∨
    ((∀ e ∈ st.cachePort, e.requests s = false) ∧
      (∀ e ∈ st.pendingFrames, e.requests s = false) ∧ LinkSettled s st.link)

namespace AllSettled

variable {st : ProxySystem} {s : String}

theorem onLink (h : AllSettled s st) (i : ℕ) {f : ProxyLink → ProxyLink}
    (hf : i = st.current → s ∉ st.commands → LinkSettled s st.link → LinkSettled s (f st.link)) :
    AllSettled s (st.onLink i f) := by
  by_cases hcmd : s ∈ st.commands
  · exact Or.inl (by rw [ProxySystem.onLink_commands]; exact hcmd)
  obtain ⟨hcache, hpending, hlink⟩ := h.resolve_left hcmd
  refine Or.inr ⟨by rw [ProxySystem.onLink_cachePort]; exact hcache,
    by rw [ProxySystem.onLink_pendingFrames]; exact hpending, ?_⟩
  rw [ProxySystem.onLink_link]
  by_cases hi : i = st.current
  · rw [if_pos hi]
    exact hf hi hcmd hlink
  · rw [if_neg hi]
    exact hlink

theorem openSocket (h : AllSettled s st) (hlinked : Linked st) : AllSettled s st.openSocket := by
  obtain hcmd | ⟨hcache, hpending, -⟩ := h
  · exact Or.inl hcmd
  · refine Or.inr ⟨hcache, hpending, ?_⟩
    have hfresh := hlinked.future (st.current + 1) (Nat.lt_succ_self _)
    rw [ProxySystem.link, ProxySystem.openSocket, hfresh]
    exact .fresh s

theorem onopen (h : AllSettled s st) : AllSettled s st.onopen := by
  rw [ProxySystem.onopen]
  by_cases hconn : st.link.ws = .connecting
  swap
  · rw [if_neg hconn]
    exact h
  rw [if_pos hconn]
  by_cases hcmd : s ∈ st.commands
  · exact Or.inl (by rw [ProxySystem.onLink_commands]; exact hcmd)
  obtain ⟨hcache, hpending, hlink⟩ := h.resolve_left hcmd
  refine Or.inr ⟨by rw [ProxySystem.onLink_cachePort]; exact hcache,
    fun e he => absurd he (by simp), ?_⟩
  show LinkSettled s (st.onLink st.current _).link
  rw [ProxySystem.onLink_link_self]
  -- the frames that were pending do not ask for the subscription
  have hopened : LinkSettled s { st.link with ws := .opened } := hlink
  refine hopened.send fun m hm => ?_
  obtain ⟨e, he, rfl⟩ := List.mem_map.mp hm
  exact hpending e he

theorem takeEnvelope (h : AllSettled s st) (isUrl : String → Bool) :
    AllSettled s (st.step isUrl .takeEnvelope) := by
  rw [ProxySystem.step]
  split
  next => exact h
  next e rest hcons =>
    rw [ProxySystem.sendBinary]
    by_cases hcmd : s ∈ st.commands
    · split
      next => exact Or.inl (by rw [ProxySystem.onLink_commands]; exact hcmd)
      next => exact Or.inl hcmd
    obtain ⟨hcache, hpending, hlink⟩ := h.resolve_left hcmd
    rw [hcons] at hcache
    have he := hcache e mem_cons_self
    have hrest : ∀ x ∈ rest, x.requests s = false :=
      fun x hx => hcache x (mem_cons_of_mem e hx)
    split
    next =>
      have hst : AllSettled s { st with cachePort := rest } := Or.inr ⟨hrest, hpending, hlink⟩
      refine hst.onLink st.current fun _ _ hsettled => hsettled.send fun m hm => ?_
      rw [List.mem_singleton.mp hm]
      exact he
    next =>
      refine Or.inr ⟨hrest, fun x hx => ?_, hlink⟩
      rw [mem_append, mem_singleton] at hx
      obtain hx | rfl := hx
      · exact hpending x hx
      · exact he

theorem takeCommand (h : AllSettled s st) (hlinked : Linked st) (isUrl : String → Bool)
    (hheed : ∀ rest, st.commands = s :: rest → s ∉ rest →
      s ≠ "" ∧ st.link.ws = .opened ∧ ∀ e ∈ st.cachePort, e.requests s = false) :
    AllSettled s (st.step isUrl .takeCommand) := by
  rw [ProxySystem.step]
  split
  next => exact h
  next subId rest hcons =>
    by_cases hrest : s ∈ rest
    · -- another one follows
      rw [ProxySystem.close]
      split
      next => exact Or.inl (by rw [ProxySystem.onLink_commands]; exact hrest)
      next => exact Or.inl hrest
    by_cases hsub : subId = s
    · subst hsub
      obtain ⟨hne, hopen, hcache⟩ := hheed rest hcons hrest
      rw [ProxySystem.close, if_pos ⟨hne, hopen⟩]
      refine Or.inr ⟨by rw [ProxySystem.onLink_cachePort]; exact hcache, fun e he => ?_, ?_⟩
      · rw [ProxySystem.onLink_pendingFrames] at he
        exact absurd he (by simp [hlinked.waiting hopen])
      · show LinkSettled subId (ProxySystem.onLink _ st.current _).link
        rw [ProxySystem.onLink_link, if_pos rfl]
        exact .send_closeSub (hlinked.ok st.current) subId
    · -- a text for another subscription
      have hcmd : s ∉ st.commands := by
        rw [hcons, mem_cons]
        rintro (heq | hmem)
        · exact hsub heq.symm
        · exact hrest hmem
      have hst : AllSettled s { st with commands := rest } := Or.inr (h.resolve_left hcmd)
      rw [ProxySystem.close]
      split
      next =>
        refine hst.onLink st.current fun _ _ hsettled => hsettled.send fun m hm => ?_
        rw [List.mem_singleton.mp hm]
        rfl
      next => exact hst

end AllSettled

theorem live_requested (s : String) (e : ProxyEnvelope) (issued : List SubIssue) :
    live s (ProxySystem.requested e ++ issued) =
      if e.requests s then true else live s issued := by
  obtain ⟨relays, frames⟩ := e
  simp only [ProxySystem.requested, ProxyEnvelope.requests, ProxyEnvelope.message,
    ClientMessage.requests]
  induction frames with
  | nil => simp
  | cons frame rest ih =>
    cases frame with
    | req subId filters =>
      by_cases hsub : subId = s
      · simp [live, ProxyFrame.requests, hsub]
      · simpa [live, ProxyFrame.requests, hsub] using ih
    | close subId => simpa [ProxyFrame.requests] using ih
    | auth event => simpa [ProxyFrame.requests] using ih
    | other text => simpa [ProxyFrame.requests] using ih

def issuedBy : ProxyAction → List SubIssue
  | .post e => ProxySystem.requested e
  | .unsubscribe subId => [.unsubscribe subId]
  | .parserClose subId => [.unsubscribe subId]
  | _ => []

theorem step_issued (isUrl : String → Bool) (st : ProxySystem) (a : ProxyAction) :
    (st.step isUrl a).issued = issuedBy a ++ st.issued := by
  cases a with
  | post e => rfl
  | unsubscribe subId => rfl
  | parserClose subId => rfl
  | authResponse relay event =>
    rw [ProxySystem.step, ProxySystem.authResponse]
    split
    next => exact ProxySystem.onLink_issued _ _ _
    next => rfl
  | takeEnvelope =>
    rw [ProxySystem.step]
    split
    next => rfl
    next =>
      rw [ProxySystem.sendBinary]
      split
      next => exact ProxySystem.onLink_issued _ _ _
      next => rfl
  | takeCommand =>
    rw [ProxySystem.step]
    split
    next => rfl
    next =>
      rw [ProxySystem.close]
      split
      next => exact ProxySystem.onLink_issued _ _ _
      next => rfl
  | opened =>
    rw [ProxySystem.step, ProxySystem.onopen]
    split
    next => exact ProxySystem.onLink_issued _ _ _
    next => rfl
  | timer =>
    rw [ProxySystem.step, ProxySystem.reconnect]
    split <;> rfl
  | wake => exact ProxySystem.onLink_issued _ _ _
  | wsClosed i => exact ProxySystem.onLink_issued _ _ _
  | serverReceive i => exact ProxySystem.onLink_issued _ _ _
  | sessionEnded i => exact ProxySystem.onLink_issued _ _ _
  | relayOpened i url => exact ProxySystem.onLink_issued _ _ _
  | relayClosing i url => exact ProxySystem.onLink_issued _ _ _
  | relayClosed i url => exact ProxySystem.onLink_issued _ _ _

/-- The invariant of the runs in which every unsubscribe is heeded. -/
structure Heeding (s : String) (st : ProxySystem) : Prop where
  linked : Linked st
  settled : live s st.issued = false → AllSettled s st

theorem Heeding.start (s : String) : Heeding s .start :=
  ⟨.start, fun _ => Or.inr ⟨fun e he => absurd he (by simp [ProxySystem.start]),
    fun e he => absurd he (by simp [ProxySystem.start]), .fresh s⟩⟩

theorem Heeding.step (h : Heeding s st) (isUrl : String → Bool)
    (a : ProxyAction) (hheed : Heeded s st a) : Heeding s (st.step isUrl a) := by
  refine ⟨h.linked.step isUrl a, fun hlive => ?_⟩
  rw [step_issued] at hlive
  cases a with
  | post e =>
    rw [issuedBy, live_requested] at hlive
    by_cases he : e.requests s = true
    · rw [if_pos he] at hlive
      exact absurd hlive (by simp)
    rw [if_neg he] at hlive
    obtain hcmd | ⟨hcache, hpending, hlink⟩ := h.settled hlive
    · exact Or.inl hcmd
    · refine Or.inr ⟨fun x hx => ?_, hpending, hlink⟩
      rw [ProxySystem.step, mem_append, mem_singleton] at hx
      obtain hx | rfl := hx
      · exact hcache x hx
      · simpa using he
  | unsubscribe subId =>
    by_cases hsub : subId = s
    · exact Or.inl (by rw [ProxySystem.step, hsub]; simp)
    · rw [issuedBy, singleton_append, live, if_neg hsub] at hlive
      obtain hcmd | hrest := h.settled hlive
      · exact Or.inl (mem_append_left _ hcmd)
      · exact Or.inr hrest
  | parserClose subId =>
    by_cases hsub : subId = s
    · exact h.settled (hheed hsub)
    · rw [issuedBy, singleton_append, live, if_neg hsub] at hlive
      exact h.settled hlive
  | authResponse relay event =>
    rw [ProxySystem.step, ProxySystem.authResponse]
    split
    next =>
      refine (h.settled hlive).onLink st.current fun _ _ hsettled => hsettled.send fun m hm => ?_
      rw [List.mem_singleton.mp hm]
      rfl
    next => exact h.settled hlive
  | takeEnvelope => exact (h.settled hlive).takeEnvelope isUrl
  | takeCommand =>
    exact (h.settled hlive).takeCommand h.linked isUrl fun rest hcons => hheed rest hcons hlive
  | opened => exact (h.settled hlive).onopen
  | wsClosed i => exact (h.settled hlive).onLink i fun _ _ hsettled => hsettled
  | wake =>
    have hclosing := (h.settled hlive).onLink st.current
      (f := fun link => { link with ws := .closing }) fun _ _ hsettled => hsettled
    refine hclosing.openSocket ?_
    refine h.linked.onLink st.current ?_ (Or.inr (Or.inl rfl))
    exact (h.linked.ok st.current).down (by simp)
  | timer =>
    rw [ProxySystem.step, ProxySystem.reconnect]
    split
    next => exact (h.settled hlive).openSocket h.linked
    next => exact h.settled hlive
  | serverReceive i =>
    refine (h.settled hlive).onLink i fun hi hcmd hsettled => ?_
    exact hsettled.receive isUrl fun rest hto => hheed rest hi hto hlive hcmd
  | sessionEnded i => exact (h.settled hlive).onLink i fun _ _ _ => .finish s st.link
  | relayOpened i url =>
    refine (h.settled hlive).onLink i fun _ _ hsettled => hsettled.onSession fun hquiet => ?_
    exact hquiet.relayOpened (h.linked.ok st.current).tidy url
  | relayClosing i url =>
    refine (h.settled hlive).onLink i fun _ _ hsettled => hsettled.onSession fun hquiet => ?_
    exact hquiet.relayDown url (by simp)
  | relayClosed i url =>
    refine (h.settled hlive).onLink i fun _ _ hsettled => hsettled.onSession fun hquiet => ?_
    exact hquiet.relayDown url (by simp)

/-! ### Sockets that went down -/

/-- On every relay socket that is not open, the subscription was closed. -/
def AllBuried (s : String) (st : ProxySystem) : Prop := ∀ i, (st.links i).session.Buried s

theorem AllBuried.onLink (h : AllBuried s st) (i : ℕ)
    {f : ProxyLink → ProxyLink} (hf : (f (st.links i)).session.Buried s) :
    AllBuried s (st.onLink i f) := by
  intro j
  rw [ProxySystem.onLink_links]
  by_cases hj : j = i ∧ i ≤ st.current
  · rw [if_pos hj]
    exact hf
  · rw [if_neg hj]
    exact h j

theorem send_session (link : ProxyLink) (messages : List ClientMessage) :
    (link.send messages).session = link.session := by
  rw [ProxyLink.send]
  split <;> rfl

theorem AllBuried.send (h : AllBuried s st) (messages : List ClientMessage) :
    AllBuried s (st.onLink st.current fun link => link.send messages) := by
  refine h.onLink st.current ?_
  rw [send_session]
  exact h st.current

theorem AllBuried.step (h : AllBuried s st) (isUrl : String → Bool)
    (a : ProxyAction) (hsurvives : Survives s st a) : AllBuried s (st.step isUrl a) := by
  cases a with
  | post e => exact h
  | unsubscribe subId => exact h
  | parserClose subId => exact h
  | authResponse relay event =>
    rw [ProxySystem.step, ProxySystem.authResponse]
    split
    next => exact h.send _
    next => exact h
  | takeEnvelope =>
    rw [ProxySystem.step]
    split
    next => exact h
    next e rest _ =>
      have hst : AllBuried s { st with cachePort := rest } := h
      rw [ProxySystem.sendBinary]
      split
      next => exact hst.send _
      next => exact hst
  | takeCommand =>
    rw [ProxySystem.step]
    split
    next => exact h
    next subId rest _ =>
      have hst : AllBuried s { st with commands := rest } := h
      rw [ProxySystem.close]
      split
      next => exact hst.send _
      next => exact hst
  | opened =>
    rw [ProxySystem.step, ProxySystem.onopen]
    split
    next =>
      refine h.onLink st.current ?_
      rw [send_session]
      exact h st.current
    next => exact h
  | wsClosed i => exact h.onLink i (h i)
  | wake =>
    refine h.onLink st.current ?_
    exact h st.current
  | timer =>
    rw [ProxySystem.step, ProxySystem.reconnect]
    split
    next => exact h
    next => exact h
  | serverReceive i =>
    refine h.onLink i ?_
    rw [ProxyLink.receive]
    split
    next => exact h i
    next message rest _ => exact (h i).receive isUrl message
  | sessionEnded i => exact h.onLink i ((h i).closeSession hsurvives)
  | relayOpened i url => exact h.onLink i ((h i).relayOpened url)
  | relayClosing i url => exact h.onLink i ((h i).relayDown hsurvives)
  | relayClosed i url => exact h.onLink i ((h i).relayDown hsurvives)

/-! ### Runs -/

theorem Heeding.closed (h : Heeding s st) (hq : Quiescent st)
    (hlive : live s st.issued = false) (i : ℕ) (socket : RelaySocket)
    (hmem : socket ∈ (st.links i).session.sockets) (hopen : socket.state = .opened) :
    ClosedLater s socket.sent := by
  obtain ⟨-, hcommands, -, hlinks⟩ := hq
  have hok := h.linked.ok i
  -- the socket is in the table of its session
  obtain ⟨url, hlook⟩ : ∃ url, (st.links i).session.relaySockets.lookup url = some socket := by
    rw [ProxySession.sockets, mem_append] at hmem
    obtain hvalue | hret := hmem
    · exact Map.mem_values.mp hvalue
    · exact absurd hopen (hok.tidy.retired socket hret)
  have hbare : ¬ (st.links i).session.Bare := fun hbare => by
    rw [hbare.1] at hlook
    exact absurd hlook (by simp)
  -- so it belongs to the web socket that is open
  obtain hlt | rfl | hgt := Nat.lt_trichotomy i st.current
  · have hended := (hlinks i hlt.le).2.2 (h.linked.past i hlt)
    exact absurd (hok.done hended).2 hbare
  · obtain hcmd | ⟨-, -, hlink⟩ := h.settled hlive
    · exact absurd hcmd (by simp [hcommands])
    obtain ⟨before, after, hto, -⟩ | ⟨-, hquiet⟩ := hlink
    · exact absurd ((hlinks st.current le_rfl).1.symm.trans hto) (by simp)
    · exact hquiet.sent url socket hlook hopen
  · rw [h.linked.future i hgt] at hbare
    exact absurd ⟨rfl, rfl⟩ hbare

/-- **Subscriptions in proxy mode.**  In every run at whose steps no unsubscribe
of a subscription is lost: once it is unsubscribed and nothing is on its way, the
subscription is closed on every relay socket that is open; and on every relay
socket there ever was, if none went down with the subscription open. -/
theorem unsubscribed_is_closed (isUrl : String → Bool) (s : String) (acts : List ProxyAction)
    (hheeded : Run.Along (ProxySystem.step isUrl) (Heeded s) .start acts)
    (hq : Quiescent (Run.exec (ProxySystem.step isUrl) .start acts))
    (hun : Unsubscribed s (Run.exec (ProxySystem.step isUrl) .start acts)) :
    (∀ i, ∀ socket ∈ ((Run.exec (ProxySystem.step isUrl) .start acts).links i).session.sockets,
      socket.state = .opened → ClosedLater s socket.sent) ∧
    (Run.Along (ProxySystem.step isUrl) (Survives s) .start acts →
      ∀ i, ∀ socket ∈ ((Run.exec (ProxySystem.step isUrl) .start acts).links i).session.sockets,
        ClosedLater s socket.sent) := by
  have hkeep : ∀ st a, Heeding s st → Heeded s st a → Heeding s (ProxySystem.step isUrl st a) :=
    fun st a h hheed => h.step isUrl a hheed
  have hheeding := Run.Along.exec hkeep (.start s) hheeded
  have hopen := hheeding.closed hq hun.1
  refine ⟨hopen, fun hsurvives i socket hmem => ?_⟩
  have hstays : ∀ st a, AllBuried s st → Survives s st a → AllBuried s (ProxySystem.step isUrl st a) :=
    fun st a h hsurv => h.step isUrl a hsurv
  have hburied := Run.Along.exec hstays (fun _ => ProxySession.Buried.new s) hsurvives
  by_cases hstate : socket.state = .opened
  · exact hopen i socket hmem hstate
  · rw [ProxySession.sockets, mem_append] at hmem
    obtain hvalue | hret := hmem
    · obtain ⟨url, hlook⟩ := Map.mem_values.mp hvalue
      exact (hburied i).sent url socket hlook hstate
    · exact (hburied i).retired socket hret

/-- A subscription is asked for, at a relay to which the server connects. -/
def oneRequest : List ProxyAction :=
  [.opened, .post ⟨["wss://r"], [.req "s" "\x7b\x7d"]⟩, .takeEnvelope, .serverReceive 0]

/-- The subscription is ended when the relay socket is open. -/
def openThenUnsubscribe : List ProxyAction :=
  oneRequest ++ [.relayOpened 0 "wss://r", .unsubscribe "s", .takeCommand, .serverReceive 0]

def unsubscribeThenOpen : List ProxyAction :=
  oneRequest ++ [.unsubscribe "s", .takeCommand, .serverReceive 0, .relayOpened 0 "wss://r"]

def parserUnsubscribes : List ProxyAction :=
  oneRequest ++ [.relayOpened 0 "wss://r", .parserClose "s"]

theorem quiescent_of_one
    (h : st.current = 0 ∧ st.cachePort = [] ∧ st.commands = [] ∧ st.pendingFrames = [])
    (hlink : (st.links 0).toServer = [] ∧
      (∀ frames ∈ (st.links 0).session.pendingFrames.values, frames = []) ∧
      (st.links 0).ws = .opened) : Quiescent st := by
  refine ⟨h.2.1, h.2.2.1, h.2.2.2, fun i hi => ?_⟩
  obtain rfl : i = 0 := Nat.le_zero.mp (h.1 ▸ hi)
  exact ⟨hlink.1, hlink.2.1, fun hdown => by simp [hlink.2.2] at hdown⟩

/-- A subscription that is ended in time is closed. -/
theorem unsubscribed_is_closed_open :
    (((Run.exec (ProxySystem.step fun _ => true) .start openThenUnsubscribe).links
      0).session.sockets).Forall fun socket => ClosedLater "s" socket.sent := by
  have hheeded : Run.Along (ProxySystem.step fun _ => true) (Heeded "s") .start
      openThenUnsubscribe := by
    refine ⟨trivial, trivial, trivial, ?_, trivial, trivial, ?_, ?_, trivial⟩
    · intro rest _ hto
      have hhead := congrArg List.head? hto
      rw [List.head?_cons] at hhead
      exact absurd hhead (by decide)
    · intro rest _ _ _
      exact ⟨by decide, by decide, by decide⟩
    · intro rest _ _ _ _ _ url frames hlook frame hframe
      have hnone : ∀ waiting ∈ ((Run.exec (ProxySystem.step fun _ => true) .start
          (oneRequest ++ [.relayOpened 0 "wss://r", .unsubscribe "s",
            .takeCommand])).link.session).pendingFrames.values, waiting = [] := by
        decide
      rw [hnone frames (Map.mem_values.mpr ⟨url, hlook⟩)] at hframe
      exact absurd hframe (by simp)
  have hsurvives : Run.Along (ProxySystem.step fun _ => true) (Survives "s") .start
      openThenUnsubscribe :=
    ⟨trivial, trivial, trivial, trivial, trivial, trivial, trivial, trivial, trivial⟩
  have hclosed := unsubscribed_is_closed (fun _ => true) "s" openThenUnsubscribe hheeded
    (quiescent_of_one (by decide) (by decide)) ⟨by decide, by decide⟩
  exact List.forall_iff_forall_mem.mpr (hclosed.2 hsurvives 0)

/-- **Lost unsubscribes.**  When the relay socket is still connecting, the `REQ`
waits for it and the `CLOSE` does not; and when the parser worker ends the
subscription, nobody listens.  In both runs everything has arrived, and the
relay keeps streaming. -/
theorem unsubscribe_is_lost :
    (Quiescent (Run.exec (ProxySystem.step fun _ => true) .start unsubscribeThenOpen) ∧
      Unsubscribed "s" (Run.exec (ProxySystem.step fun _ => true) .start unsubscribeThenOpen) ∧
      ¬ ∀ i, ∀ socket ∈ ((Run.exec (ProxySystem.step fun _ => true) .start
        unsubscribeThenOpen).links i).session.sockets, ClosedLater "s" socket.sent) ∧
    (Quiescent (Run.exec (ProxySystem.step fun _ => true) .start parserUnsubscribes) ∧
      Unsubscribed "s" (Run.exec (ProxySystem.step fun _ => true) .start parserUnsubscribes) ∧
      ¬ ∀ i, ∀ socket ∈ ((Run.exec (ProxySystem.step fun _ => true) .start
        parserUnsubscribes).links i).session.sockets, ClosedLater "s" socket.sent) := by
  refine ⟨⟨quiescent_of_one (by decide) (by decide),
    ⟨by decide, by decide⟩, fun h => ?_⟩,
    ⟨quiescent_of_one (by decide) (by decide),
    ⟨by decide, by decide⟩, fun h => ?_⟩⟩
  · have hsocket := h 0 ⟨.opened, [.req "s" "\x7b\x7d"]⟩ (by decide)
    exact absurd (hsocket.1 rfl) (by simp)
  · have hsocket := h 0 ⟨.opened, [.req "s" "\x7b\x7d"]⟩ (by decide)
    exact absurd (hsocket.1 rfl) (by simp)

end Nipworker
