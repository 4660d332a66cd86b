/-
The sessions of the proxy server (`proxy/relayProxyServer.ts`).

For every client the server keeps one socket for each relay, and the frames that
wait for a socket to open.  What goes back to the client, and the tables that
are only read for that, are left out.

* `ProxySession.relayOpened` and the other events of the relay sockets;
-/
import Nipworker.Lib.Map

namespace Nipworker

open List

/-! ### Frames and sockets -/

/-- The states of a socket. -/
inductive ReadyState
  | connecting
  | opened
  | closing
  | closed
  deriving DecidableEq, Repr

/-- The frames of a client. -/
inductive ProxyFrame
  | req (subId filters : String)
  | close (subId : String)
  | auth (event : String)
  | other (text : String)
  deriving DecidableEq, Repr

def ProxyFrame.requests (s : String) : ProxyFrame → Bool
  | .req subId _ => subId = s
  | _ => false

/-- A socket to a relay, with the frames that were sent on it. -/
structure RelaySocket where
  state : ReadyState
  sent : List ProxyFrame
  deriving DecidableEq, Repr

/-- `relaySocket.send`. -/
def RelaySocket.send (socket : RelaySocket) (frame : ProxyFrame) : RelaySocket :=
  { socket with sent := socket.sent ++ [frame] }

/-- What a client sends: an envelope, the command to close a subscription, or the
signed event that a relay asked for. -/
inductive ClientMessage
  | envelope (relays : List String) (frames : List ProxyFrame)
  | closeSub (subId : String)
  | authResponse (relay event : String)
  deriving DecidableEq, Repr

def ClientMessage.requests (s : String) : ClientMessage → Bool
  | .envelope _ frames => frames.any (ProxyFrame.requests s)
  | _ => false

/-! ### Sessions -/

/-- `Session`: the sockets by relay and the frames that wait; the sockets that
are no longer in the table are kept to speak about them. -/
structure ProxySession where
  relaySockets : Map String RelaySocket
  pendingFrames : Map String (List ProxyFrame)
  retired : List RelaySocket

namespace ProxySession

def new : ProxySession := { relaySockets := ∅, pendingFrames := ∅, retired := [] }

/-- `ensureRelaySocket`; `none` when `new URL` throws. -/
def ensureRelaySocket (isUrl : String → Bool) (session : ProxySession) (relayUrl : String) :
    Option ProxySession :=
  if (session.relaySockets.lookup relayUrl).any fun socket => socket.state ≠ .closed then
    some session
  else if isUrl relayUrl then
    some
      { relaySockets := AList.insert relayUrl ⟨.connecting, []⟩ session.relaySockets
        pendingFrames := AList.insert relayUrl [] session.pendingFrames
        retired := (session.relaySockets.lookup relayUrl).toList ++ session.retired }
  else none

def sendFrameToRelay (session : ProxySession) (relayUrl : String) (frame : ProxyFrame) :
    ProxySession :=
  match session.relaySockets.lookup relayUrl with
  | none => session
  | some socket =>
    match socket.state with
    | .opened =>
      { session with
        relaySockets := AList.insert relayUrl (socket.send frame) session.relaySockets }
    | .connecting =>
      { session with
        pendingFrames := AList.insert relayUrl
          ((session.pendingFrames.lookup relayUrl).getD [] ++ [frame]) session.pendingFrames }
    | _ => session

/-- All frames for each of the relays in turn, up to one whose URL is none. -/
def handleEnvelope (isUrl : String → Bool) (session : ProxySession) (frames : List ProxyFrame) :
    List String → ProxySession
  | [] => session
  | relayUrl :: relays =>
    match session.ensureRelaySocket isUrl relayUrl with
    | none => session
    | some session =>
      handleEnvelope isUrl
        (frames.foldl (fun session frame => session.sendFrameToRelay relayUrl frame) session)
        frames relays

/-- `handleClientCommand` for `close_sub`: a `CLOSE` on every open socket. -/
def closeSub (session : ProxySession) (subId : String) : ProxySession :=
  { session with
    relaySockets := session.relaySockets.mapValues fun socket =>
      if socket.state = .opened then socket.send (.close subId) else socket }

def receive (isUrl : String → Bool) (session : ProxySession) : ClientMessage → ProxySession
  | .envelope relays frames => session.handleEnvelope isUrl frames relays
  | .closeSub subId => session.closeSub subId
  | .authResponse relay event => session.sendFrameToRelay relay (.auth event)

/-- The `open` event of a relay socket: the frames that wait are sent. -/
def relayOpened (session : ProxySession) (relayUrl : String) : ProxySession :=
  match session.relaySockets.lookup relayUrl with
  | some ⟨.connecting, sent⟩ =>
    match session.pendingFrames.lookup relayUrl with
    | some pending =>
      { session with
        relaySockets := AList.insert relayUrl ⟨.opened, sent ++ pending⟩ session.relaySockets
        pendingFrames := AList.insert relayUrl [] session.pendingFrames }
    | none =>
      { session with relaySockets := AList.insert relayUrl ⟨.opened, sent⟩ session.relaySockets }
  | _ => session

/-- A relay socket that goes down drops the frames that wait for it. -/
def relayDown (session : ProxySession) (relayUrl : String) (state : ReadyState) : ProxySession :=
  match session.relaySockets.lookup relayUrl with
  | some socket =>
    if socket.state = .closed then session
    else
      { session with
        relaySockets := AList.insert relayUrl { socket with state := state } session.relaySockets
        pendingFrames := AList.erase relayUrl session.pendingFrames }
  | none => session

/-- The socket begins to close, after its `error` event or by the relay. -/
def relayClosing (session : ProxySession) (relayUrl : String) : ProxySession :=
  session.relayDown relayUrl .closing

/-- The `close` event of a relay socket. -/
def relayClosed (session : ProxySession) (relayUrl : String) : ProxySession :=
  session.relayDown relayUrl .closed

def closeSession (session : ProxySession) : ProxySession :=
  { relaySockets := ∅, pendingFrames := ∅
    retired := (session.relaySockets.values.map fun socket => { socket with state := .closed }) ++
      session.retired }

def sockets (session : ProxySession) : List RelaySocket :=
  session.relaySockets.values ++ session.retired

end ProxySession

/-! ### Closed subscriptions -/

/-- Every `REQ` for the subscription is followed by a `CLOSE` for it. -/
def ClosedLater (s : String) : List ProxyFrame → Prop
  | [] => True
  | frame :: rest => (frame.requests s = true → .close s ∈ rest) ∧ ClosedLater s rest

theorem closedLater_append_close (s : String) (sent : List ProxyFrame) :
    ClosedLater s (sent ++ [.close s]) := by
  induction sent with
  | nil => exact ⟨fun h => absurd h (by simp [ProxyFrame.requests]), trivial⟩
  | cons frame rest ih =>
    exact ⟨fun _ => mem_append_right rest mem_cons_self, ih⟩

theorem ClosedLater.append {s : String} {sent more : List ProxyFrame} (h : ClosedLater s sent)
    (hmore : ∀ frame ∈ more, frame.requests s = false) : ClosedLater s (sent ++ more) := by
  induction sent with
  | nil =>
    induction more with
    | nil => trivial
    | cons frame rest ih =>
      refine ⟨fun hreq => ?_, ih fun f hf => hmore f (mem_cons_of_mem frame hf)⟩
      rw [hmore frame mem_cons_self] at hreq
      exact absurd hreq (by simp)
  | cons frame rest ih =>
    exact ⟨fun hreq => mem_append_left more (h.1 hreq), ih h.2⟩

/-! ### What the steps of a session keep -/

namespace ProxySession

/-- Nothing was sent on a socket before it opened, and a socket that left the
table is not open. -/
structure Tidy (session : ProxySession) : Prop where
  fresh : ∀ url sent, session.relaySockets.lookup url = some ⟨.connecting, sent⟩ → sent = []
  retired : ∀ socket ∈ session.retired, socket.state ≠ .opened

/-- The session owes no `CLOSE` for the subscription: no `REQ` for it waits, and
those that were sent on an open socket are closed. -/
structure Quiet (s : String) (session : ProxySession) : Prop where
  pending : ∀ url frames, session.pendingFrames.lookup url = some frames →
    ∀ frame ∈ frames, frame.requests s = false
  sent : ∀ url socket, session.relaySockets.lookup url = some socket → socket.state = .opened →
    ClosedLater s socket.sent

/-- On the sockets that are not open, the subscription was closed. -/
structure Buried (s : String) (session : ProxySession) : Prop where
  sent : ∀ url socket, session.relaySockets.lookup url = some socket → socket.state ≠ .opened →
    ClosedLater s socket.sent
  retired : ∀ socket ∈ session.retired, ClosedLater s socket.sent

/-- The open sockets on which the subscription is closed. -/
def OpenClosed (s : String) (session : ProxySession) (url : String) : Prop :=
  ∀ socket, session.relaySockets.lookup url = some socket → socket.state = .opened →
    ClosedLater s socket.sent

variable {session session' : ProxySession} {isUrl : String → Bool} {s url : String}

theorem handleEnvelope_keeps {P : ProxySession → Prop} {frames : List ProxyFrame}
    (hensure : ∀ session url session', P session →
      session.ensureRelaySocket isUrl url = some session' → P session')
    (hsend : ∀ session url, ∀ frame ∈ frames, P session → P (session.sendFrameToRelay url frame))
    (relays : List String) : ∀ {session}, P session → P (session.handleEnvelope isUrl frames relays) := by
  have hfold : ∀ url (sending : List ProxyFrame), sending ⊆ frames → ∀ session, P session →
      P (sending.foldl (fun session frame => session.sendFrameToRelay url frame) session) := by
    intro url sending
    induction sending with
    | nil => exact fun _ _ hP => hP
    | cons frame rest ih =>
      intro hsub session hP
      rw [cons_subset] at hsub
      exact ih hsub.2 _ (hsend session url frame hsub.1 hP)
  induction relays with
  | nil => exact fun hP => hP
  | cons url relays ih =>
    intro session hP
    rw [handleEnvelope]
    split
    next => exact hP
    next session' hsome =>
      exact ih (hfold url frames (fun _ hf => hf) session' (hensure session url session' hP hsome))

theorem ensureRelaySocket_cases (h : session.ensureRelaySocket isUrl url = some session') :
    session' = session ∨
      (session'.relaySockets = AList.insert url ⟨.connecting, []⟩ session.relaySockets ∧
        session'.pendingFrames = AList.insert url [] session.pendingFrames ∧
        ∀ socket ∈ session'.retired, socket ∈ session.retired ∨
          (session.relaySockets.lookup url = some socket ∧ socket.state = .closed)) := by
  rw [ensureRelaySocket] at h
  by_cases hthere : ((session.relaySockets.lookup url).any fun socket => socket.state ≠ .closed)
      = true
  · rw [if_pos hthere] at h
    exact Or.inl (Option.some.inj h).symm
  · rw [if_neg hthere] at h
    by_cases hurl : isUrl url = true
    · rw [if_pos hurl] at h
      obtain rfl := Option.some.inj h
      refine Or.inr ⟨rfl, rfl, fun socket hmem => ?_⟩
      rw [mem_append, Option.mem_toList] at hmem
      obtain hold | hret := hmem
      · refine Or.inr ⟨hold, ?_⟩
        rw [hold] at hthere
        simpa using hthere
      · exact Or.inl hret
    · rw [if_neg hurl] at h
      exact absurd h (by simp)

theorem sendFrameToRelay_cases (session : ProxySession) (url : String) (frame : ProxyFrame) :
    session.sendFrameToRelay url frame = session ∨
      (∃ sent, session.relaySockets.lookup url = some ⟨.opened, sent⟩ ∧
        session.sendFrameToRelay url frame = { session with
          relaySockets := AList.insert url ⟨.opened, sent ++ [frame]⟩ session.relaySockets }) ∨
      (session.sendFrameToRelay url frame = { session with
          pendingFrames := AList.insert url
            ((session.pendingFrames.lookup url).getD [] ++ [frame]) session.pendingFrames }) := by
  rw [sendFrameToRelay]
  split
  next => exact Or.inl rfl
  next socket hsocket =>
    obtain ⟨state, sent⟩ := socket
    cases state with
    | opened => exact Or.inr (Or.inl ⟨sent, hsocket, rfl⟩)
    | connecting => exact Or.inr (Or.inr rfl)
    | closing => exact Or.inl rfl
    | closed => exact Or.inl rfl

theorem relayOpened_cases (session : ProxySession) (url : String) :
    session.relayOpened url = session ∨
      ∃ sent, session.relaySockets.lookup url = some ⟨.connecting, sent⟩ ∧
        (session.relayOpened url).relaySockets = AList.insert url
          ⟨.opened, sent ++ (session.pendingFrames.lookup url).getD []⟩ session.relaySockets ∧
        (session.relayOpened url).retired = session.retired ∧
        ∀ k frames, (session.relayOpened url).pendingFrames.lookup k = some frames →
          frames = [] ∨ session.pendingFrames.lookup k = some frames := by
  rw [relayOpened]
  split
  next sent hsocket =>
    refine Or.inr ⟨sent, hsocket, ?_⟩
    split
    next pending hpending =>
      refine ⟨by rw [hpending, Option.getD_some], rfl, fun k frames hk => ?_⟩
      exact (Map.lookup_insert_eq_some.mp hk).imp (fun hlast => hlast.2.symm) And.right
    next hnone =>
      exact ⟨by rw [hnone, Option.getD_none, append_nil], rfl, fun k frames hk => Or.inr hk⟩
  next => exact Or.inl rfl

theorem relayDown_cases (session : ProxySession) (url : String) (state : ReadyState) :
    session.relayDown url state = session ∨
      ∃ socket, session.relaySockets.lookup url = some socket ∧
        session.relayDown url state = { session with
          relaySockets := AList.insert url { socket with state := state } session.relaySockets
          pendingFrames := AList.erase url session.pendingFrames } := by
  rw [relayDown]
  split
  next socket hsocket =>
    by_cases hclosed : socket.state = .closed
    · exact Or.inl (if_pos hclosed)
    · exact Or.inr ⟨socket, hsocket, if_neg hclosed⟩
  next => exact Or.inl rfl

theorem forall_insert {P : RelaySocket → Prop} {socket : RelaySocket} {sockets : Map String RelaySocket}
    (hnew : P socket) (hold : ∀ k other, sockets.lookup k = some other → P other) (k : String)
    (other : RelaySocket) (h : (AList.insert url socket sockets).lookup k = some other) :
    P other := by
  obtain ⟨-, rfl⟩ | ⟨-, h⟩ := Map.lookup_insert_eq_some.mp h
  · exact hnew
  · exact hold k other h

namespace Tidy

theorem new : Tidy new :=
  ⟨fun url sent h => absurd h (by simp [ProxySession.new]), fun socket h => absurd h (by simp [ProxySession.new])⟩

theorem of_sockets (h : ∀ url socket, session.relaySockets.lookup url = some socket →
    socket.state = .connecting → socket.sent = [])
    (hret : ∀ socket ∈ session.retired, socket.state ≠ .opened) : Tidy session :=
  ⟨fun url sent hlook => h url ⟨.connecting, sent⟩ hlook rfl, hret⟩

theorem sockets (h : Tidy session) (url : String) (socket : RelaySocket)
    (hlook : session.relaySockets.lookup url = some socket) (hstate : socket.state = .connecting) :
    socket.sent = [] := by
  obtain ⟨state, sent⟩ := socket
  obtain rfl : state = .connecting := hstate
  exact h.fresh url sent hlook

theorem sendFrameToRelay (h : Tidy session) (url : String) (frame : ProxyFrame) :
    Tidy (session.sendFrameToRelay url frame) := by
  obtain hst | ⟨sent, -, hst⟩ | hst := sendFrameToRelay_cases session url frame
  · rw [hst]
    exact h
  · rw [hst]
    exact of_sockets (forall_insert (fun hc => absurd hc (by simp)) h.sockets) h.retired
  · rw [hst]
    exact ⟨h.fresh, h.retired⟩

theorem receive (h : Tidy session) (isUrl : String → Bool) (m : ClientMessage) :
    Tidy (session.receive isUrl m) := by
  cases m with
  | authResponse relay event => exact h.sendFrameToRelay relay _
  | envelope relays frames =>
    refine handleEnvelope_keeps (fun session url session' h hsome => ?_)
      (fun session url frame _ h => h.sendFrameToRelay url frame) relays h
    · obtain rfl | ⟨hsock, -, hret⟩ := ensureRelaySocket_cases hsome
      · exact h
      · refine of_sockets ?_ fun socket hmem => ?_
        · rw [hsock]
          exact forall_insert (fun _ => rfl) h.sockets
        · obtain hold | ⟨-, hclosed⟩ := hret socket hmem
          · exact h.retired socket hold
          · rw [hclosed]
            simp
  | closeSub subId =>
    refine of_sockets (fun url socket hlook hstate => ?_) h.retired
    simp only [ProxySession.receive, closeSub, Map.lookup_mapValues, Option.map_eq_some_iff] at hlook
    obtain ⟨old, hold, rfl⟩ := hlook
    -- an open socket stays open, so a connecting one was left alone
    by_cases hopen : old.state = .opened
    · rw [if_pos hopen] at hstate
      exact absurd (hopen.symm.trans hstate) (by simp)
    · rw [if_neg hopen] at hstate ⊢
      exact h.sockets url old hold hstate

theorem relayOpened (h : Tidy session) (url : String) : Tidy (session.relayOpened url) := by
  obtain hst | ⟨sent, -, hsock, hret, -⟩ := relayOpened_cases session url
  · rw [hst]
    exact h
  · refine of_sockets ?_ (hret ▸ h.retired)
    rw [hsock]
    exact forall_insert (fun hc => absurd hc (by simp)) h.sockets

theorem relayDown (h : Tidy session) (url : String) {state : ReadyState}
    (hstate : state ≠ .connecting) : Tidy (session.relayDown url state) := by
  obtain hst | ⟨socket, -, hst⟩ := relayDown_cases session url state
  · rw [hst]
    exact h
  · rw [hst]
    exact of_sockets (forall_insert (fun hc => absurd hc hstate) h.sockets) h.retired

theorem closeSession (h : Tidy session) : Tidy session.closeSession := by
  refine ⟨fun url sent hlook => absurd hlook (by simp [ProxySession.closeSession]), ?_⟩
  intro socket hmem
  rw [ProxySession.closeSession, mem_append, mem_map] at hmem
  obtain ⟨old, -, rfl⟩ | hret := hmem
  · simp
  · exact h.retired socket hret

end Tidy

namespace Quiet

theorem new (s : String) : Quiet s new :=
  ⟨fun url frames h => absurd h (by simp [ProxySession.new]),
    fun url socket h => absurd h (by simp [ProxySession.new])⟩

theorem pending_getD (h : Quiet s session) (url : String) :
    ∀ frame ∈ (session.pendingFrames.lookup url).getD [], frame.requests s = false := by
  intro frame hmem
  cases hold : session.pendingFrames.lookup url with
  | none => simp [hold] at hmem
  | some frames => exact h.pending url frames hold frame (by simpa [hold] using hmem)

theorem sendFrameToRelay (h : Quiet s session) (url : String) {frame : ProxyFrame}
    (hframe : frame.requests s = false) : Quiet s (session.sendFrameToRelay url frame) := by
  obtain hst | ⟨sent, hopen, hst⟩ | hst := sendFrameToRelay_cases session url frame
  · rw [hst]
    exact h
  · rw [hst]
    refine ⟨h.pending, forall_insert (fun _ => ?_) h.sent⟩
    refine (h.sent url _ hopen rfl).append fun f hf => ?_
    rw [List.mem_singleton.mp hf]
    exact hframe
  · rw [hst]
    refine ⟨fun k waiting hk => ?_, h.sent⟩
    obtain ⟨-, rfl⟩ | ⟨-, hk⟩ := Map.lookup_insert_eq_some.mp hk
    · intro f hf
      rw [mem_append, mem_singleton] at hf
      obtain hf | rfl := hf
      · exact h.pending_getD url f hf
      · exact hframe
    · exact h.pending k waiting hk

theorem receive (h : Quiet s session) (isUrl : String → Bool) {m : ClientMessage}
    (hm : m.requests s = false) : Quiet s (session.receive isUrl m) := by
  cases m with
  | authResponse relay event => exact h.sendFrameToRelay relay rfl
  | envelope relays frames =>
    have hframes : ∀ frame ∈ frames, frame.requests s = false := by
      simpa [ClientMessage.requests] using hm
    refine handleEnvelope_keeps (fun session url session' h hsome => ?_)
      (fun session url frame hmem h => h.sendFrameToRelay url (hframes frame hmem)) relays h
    obtain rfl | ⟨hsock, hpend, -⟩ := ensureRelaySocket_cases hsome
    · exact h
    · refine ⟨fun k waiting hk => ?_, ?_⟩
      · rw [hpend] at hk
        obtain ⟨-, rfl⟩ | ⟨-, hk⟩ := Map.lookup_insert_eq_some.mp hk
        · simp
        · exact h.pending k waiting hk
      · rw [hsock]
        exact forall_insert (fun hc => absurd hc (by simp)) h.sent
  | closeSub subId =>
    refine ⟨h.pending, fun url socket hlook hstate => ?_⟩
    simp only [ProxySession.receive, closeSub, Map.lookup_mapValues, Option.map_eq_some_iff] at hlook
    obtain ⟨old, hold, rfl⟩ := hlook
    by_cases hopen : old.state = .opened
    · rw [if_pos hopen]
      refine (h.sent url old hold hopen).append fun f hf => ?_
      rw [List.mem_singleton.mp hf]
      rfl
    · rw [if_neg hopen] at hstate
      exact absurd hstate hopen

theorem closeSub (hpending : ∀ url frames, session.pendingFrames.lookup url = some frames →
    ∀ frame ∈ frames, frame.requests s = false) : Quiet s (session.closeSub s) := by
  refine ⟨hpending, fun url socket hlook hstate => ?_⟩
  simp only [ProxySession.closeSub, Map.lookup_mapValues, Option.map_eq_some_iff] at hlook
  obtain ⟨old, hold, rfl⟩ := hlook
  by_cases hopen : old.state = .opened
  · rw [if_pos hopen]
    exact closedLater_append_close s old.sent
  · rw [if_neg hopen] at hstate
    exact absurd hstate hopen

theorem relayOpened (h : Quiet s session) (htidy : Tidy session) (url : String) :
    Quiet s (session.relayOpened url) := by
  obtain hst | ⟨sent, hconn, hsock, -, hpend⟩ := relayOpened_cases session url
  · rw [hst]
    exact h
  refine ⟨fun k frames hk => ?_, ?_⟩
  · obtain rfl | hold := hpend k frames hk
    · simp
    · exact h.pending k frames hold
  · rw [hsock]
    refine forall_insert (fun _ => ?_) h.sent
    -- the first frames on the socket are those that waited
    obtain rfl := htidy.fresh url sent hconn
    exact ClosedLater.append trivial (h.pending_getD url)

theorem relayDown (h : Quiet s session) (url : String) {state : ReadyState}
    (hstate : state ≠ .opened) : Quiet s (session.relayDown url state) := by
  obtain hst | ⟨socket, -, hst⟩ := relayDown_cases session url state
  · rw [hst]
    exact h
  rw [hst]
  refine ⟨fun k frames hk => ?_, forall_insert (fun hc => absurd hc hstate) h.sent⟩
  exact h.pending k frames (Map.lookup_erase_eq_some.mp hk).2

theorem closeSession (s : String) (session : ProxySession) : Quiet s session.closeSession :=
  ⟨fun url frames h => absurd h (by simp [ProxySession.closeSession]),
    fun url socket h => absurd h (by simp [ProxySession.closeSession])⟩

end Quiet

namespace Buried

theorem new (s : String) : Buried s new :=
  ⟨fun url socket h => absurd h (by simp [ProxySession.new]),
    fun socket h => absurd h (by simp [ProxySession.new])⟩

theorem sendFrameToRelay (h : Buried s session) (url : String) (frame : ProxyFrame) :
    Buried s (session.sendFrameToRelay url frame) := by
  obtain hst | ⟨sent, -, hst⟩ | hst := sendFrameToRelay_cases session url frame
  · rw [hst]
    exact h
  · rw [hst]
    exact ⟨forall_insert (fun hc => absurd rfl hc) h.sent, h.retired⟩
  · rw [hst]
    exact ⟨h.sent, h.retired⟩

theorem receive (h : Buried s session) (isUrl : String → Bool) (m : ClientMessage) :
    Buried s (session.receive isUrl m) := by
  cases m with
  | authResponse relay event => exact h.sendFrameToRelay relay _
  | envelope relays frames =>
    refine handleEnvelope_keeps (fun session url session' h hsome => ?_)
      (fun session url frame _ h => h.sendFrameToRelay url frame) relays h
    obtain rfl | ⟨hsock, -, hret⟩ := ensureRelaySocket_cases hsome
    · exact h
    · refine ⟨?_, fun socket hmem => ?_⟩
      · rw [hsock]
        exact forall_insert (fun _ => trivial) h.sent
      · obtain hold | ⟨hlook, hclosed⟩ := hret socket hmem
        · exact h.retired socket hold
        · exact h.sent url socket hlook (by rw [hclosed]; simp)
  | closeSub subId =>
    refine ⟨fun url socket hlook hstate => ?_, h.retired⟩
    simp only [ProxySession.receive, closeSub, Map.lookup_mapValues, Option.map_eq_some_iff] at hlook
    obtain ⟨old, hold, rfl⟩ := hlook
    by_cases hopen : old.state = .opened
    · rw [if_pos hopen] at hstate
      exact absurd hopen hstate
    · rw [if_neg hopen]
      exact h.sent url old hold hopen

theorem relayOpened (h : Buried s session) (url : String) : Buried s (session.relayOpened url) := by
  obtain hst | ⟨sent, -, hsock, hret, -⟩ := relayOpened_cases session url
  · rw [hst]
    exact h
  · refine ⟨?_, hret ▸ h.retired⟩
    rw [hsock]
    exact forall_insert (fun hc => absurd rfl hc) h.sent

theorem relayDown (h : Buried s session) {state : ReadyState} (hclosed : OpenClosed s session url) :
    Buried s (session.relayDown url state) := by
  obtain hst | ⟨socket, hlook, hst⟩ := relayDown_cases session url state
  · rw [hst]
    exact h
  · rw [hst]
    refine ⟨forall_insert (fun _ => ?_) h.sent, h.retired⟩
    by_cases hopen : socket.state = .opened
    · exact hclosed socket hlook hopen
    · exact h.sent url socket hlook hopen

theorem closeSession (h : Buried s session) (hclosed : ∀ url, OpenClosed s session url) :
    Buried s session.closeSession := by
  refine ⟨fun url socket hlook => absurd hlook (by simp [ProxySession.closeSession]), ?_⟩
  intro socket hmem
  rw [ProxySession.closeSession, mem_append, mem_map] at hmem
  obtain ⟨old, hold, rfl⟩ | hret := hmem
  · obtain ⟨url, hlook⟩ := Map.mem_values.mp hold
    by_cases hopen : old.state = .opened
    · exact hclosed url old hlook hopen
    · exact h.sent url old hlook hopen
  · exact h.retired socket hret

end Buried

end ProxySession

end Nipworker
