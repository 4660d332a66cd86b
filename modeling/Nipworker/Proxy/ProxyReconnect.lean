/-
Subscriptions in proxy mode across reconnects (`connections/proxy.ts`,
`proxy/relayProxyServer.ts`).

When the web socket to the proxy or a socket of the proxy to a relay goes down,
the server drops what it knows of the subscriptions, and neither the runtime nor
the server asks for them again.  A socket to the relay is made when the next
envelope for that relay comes; only the frames of this envelope are sent on it.
-/
import Nipworker.Proxy.ProxyRuntime

namespace Nipworker

open List Option

/-! ### What is asked for -/

/-- Some frame is a `REQ` for the subscription. -/
def askedIn (s : String) (frames : List ProxyFrame) : Bool := frames.any (ProxyFrame.requests s)

def ClientMessage.asks (s url : String) : ClientMessage → Bool
  | .envelope relays frames => url ∈ relays ∧ askedIn s frames = true
  | _ => false

def ProxyEnvelope.asks (s url : String) (e : ProxyEnvelope) : Bool := e.message.asks s url

/-- Whether the subscription is wanted after a frame for the relay. -/
def wantedFrame (s : String) (wanted : Bool) : ProxyFrame → Bool
  | .req subId _ => if subId = s then true else wanted
  | .close subId => if subId = s then false else wanted
  | _ => wanted

/-- Whether the subscription is wanted at the relay after an action: its `REQ` was
handed to the runtime for this relay, and it was not closed since. -/
def wantedStep (s url : String) (wanted : Bool) : ProxyAction → Bool
  | .post e => if url ∈ e.relays then e.frames.foldl (wantedFrame s) wanted else wanted
  | .unsubscribe subId => if subId = s then false else wanted
  | .parserClose subId => if subId = s then false else wanted
  | _ => wanted

/-- The parties, and whether the subscription is wanted at the relay. -/
structure ProxyWatch where
  system : ProxySystem
  wanted : Bool

namespace ProxyWatch

def start : ProxyWatch := { system := .start, wanted := false }

def step (isUrl : String → Bool) (s url : String) (w : ProxyWatch) (a : ProxyAction) : ProxyWatch :=
  { system := w.system.step isUrl a, wanted := wantedStep s url w.wanted a }

end ProxyWatch

/-- The web socket is open, and so is the socket to the relay: then the `REQ` was
sent on it. -/
def InUse (s url : String) (w : ProxyWatch) : Prop :=
  Quiescent w.system → w.wanted = true → w.system.link.ws = .opened →
    ∀ socket, w.system.link.session.relaySockets.lookup url = some socket →
      socket.state = .opened → askedIn s socket.sent = true

/-! ### Relays an envelope comes to -/

namespace ProxySession

def hasSocket (session : ProxySession) (url : String) : Bool :=
  (session.relaySockets.lookup url).any fun socket => socket.state ≠ .closed

/-- `ensureRelaySocket` does not throw. -/
def usable (isUrl : String → Bool) (session : ProxySession) (url : String) : Bool :=
  session.hasSocket url || isUrl url

/-- The loop of `handleEnvelope` comes to the relay. -/
def reaches (isUrl : String → Bool) (session : ProxySession) (url : String) : List String → Bool
  | [] => false
  | relay :: relays =>
    session.usable isUrl relay && (relay = url || session.reaches isUrl url relays)

/-- The socket in use got the `REQ`, or it waits for the socket to open. -/
def Held (s url : String) (session : ProxySession) : Prop :=
  ∀ socket, session.relaySockets.lookup url = some socket →
    (socket.state = .connecting →
      ∃ frames, session.pendingFrames.lookup url = some frames ∧ askedIn s frames = true) ∧
    (socket.state = .opened → askedIn s socket.sent = true)

end ProxySession

/-- The `REQ` is on its way to the server. -/
def OnTheWay (s url : String) (st : ProxySystem) (toServer : List ClientMessage) : Prop :=
  (∃ e ∈ st.cachePort, e.asks s url = true) ∨ (∃ e ∈ st.pendingFrames, e.asks s url = true) ∨
    ∃ m ∈ toServer, m.asks s url = true

/-- When the server handles an envelope, no `REQ` is on its way and the
subscription is wanted: an envelope with the `REQ` for the relay comes to this
relay, and one without it makes no new socket to the relay. -/
def Rejoined (isUrl : String → Bool) (s url : String) (w : ProxyWatch) : ProxyAction → Prop
  | .serverReceive i => i = w.system.current → w.wanted = true →
      ∀ relays frames rest, w.system.link.toServer = .envelope relays frames :: rest →
        ¬ OnTheWay s url w.system rest →
        if askedIn s frames then
          url ∈ relays → w.system.link.session.reaches isUrl url relays = true
        else
          w.system.link.session.reaches isUrl url relays = true →
            w.system.link.session.hasSocket url = true
  | _ => True

/-! ### One session -/

theorem askedIn_append {s : String} {xs ys : List ProxyFrame} :
    askedIn s (xs ++ ys) = (askedIn s xs || askedIn s ys) := any_append

namespace ProxySession

variable {session session' : ProxySession} {isUrl : String → Bool} {s url relay : String}

theorem Held.of_none (h : session.relaySockets.lookup url = none) : Held s url session := by
  intro socket hlook
  rw [h] at hlook
  cases hlook

theorem Held.of_same (h : Held s url session)
    (hsocket : session'.relaySockets.lookup url = session.relaySockets.lookup url)
    (hpending : session'.pendingFrames.lookup url = session.pendingFrames.lookup url) :
    Held s url session' := by
  intro socket hlook
  rw [hsocket] at hlook
  rw [hpending]
  exact h socket hlook

theorem sendFrameToRelay_ne (hne : url ≠ relay) (frame : ProxyFrame) :
    (session.sendFrameToRelay relay frame).relaySockets.lookup url = session.relaySockets.lookup url ∧
      (session.sendFrameToRelay relay frame).pendingFrames.lookup url =
        session.pendingFrames.lookup url := by
  unfold sendFrameToRelay
  split
  · exact ⟨rfl, rfl⟩
  · split
    · exact ⟨by rw [Map.lookup_insert_ite, if_neg hne], rfl⟩
    · exact ⟨rfl, by rw [Map.lookup_insert_ite, if_neg hne]⟩
    · exact ⟨rfl, rfl⟩

theorem Held.sendFrameToRelay_self {frame : ProxyFrame}
    (h : frame.requests s = true ∨ Held s url session) :
    Held s url (session.sendFrameToRelay url frame) := by
  have hone : frame.requests s = true → askedIn s [frame] = true := by
    intro hreq
    simp [askedIn, hreq]
  unfold ProxySession.sendFrameToRelay
  cases hlook : session.relaySockets.lookup url with
  | none => exact Held.of_none hlook
  | some socket =>
    obtain ⟨state, sent⟩ := socket
    cases state with
    | opened =>
      intro socket hsocket
      dsimp only at hsocket
      rw [Map.lookup_insert_ite, if_pos rfl] at hsocket
      obtain rfl := some.inj hsocket
      refine ⟨fun hc => by simp [RelaySocket.send] at hc, fun _ => ?_⟩
      show askedIn s (sent ++ [frame]) = true
      rw [askedIn_append, Bool.or_eq_true]
      exact h.elim (fun hreq => Or.inr (hone hreq)) fun hheld => Or.inl ((hheld _ hlook).2 rfl)
    | connecting =>
      intro socket hsocket
      have hsocket : session.relaySockets.lookup url = some socket := hsocket
      rw [hlook] at hsocket
      obtain rfl := some.inj hsocket
      refine ⟨fun _ => ⟨_, by dsimp only; rw [Map.lookup_insert_ite, if_pos rfl], ?_⟩,
        fun hc => by simp at hc⟩
      rw [askedIn_append, Bool.or_eq_true]
      refine h.elim (fun hreq => Or.inr (hone hreq)) fun hheld => Or.inl ?_
      obtain ⟨frames, hpending, hasked⟩ := (hheld _ hlook).1 rfl
      rw [hpending]
      exact hasked
    | closing =>
      intro socket hsocket
      have hsocket : session.relaySockets.lookup url = some socket := hsocket
      rw [hlook] at hsocket
      obtain rfl := some.inj hsocket
      exact ⟨fun hc => by simp at hc, fun hc => by simp at hc⟩
    | closed =>
      intro socket hsocket
      have hsocket : session.relaySockets.lookup url = some socket := hsocket
      rw [hlook] at hsocket
      obtain rfl := some.inj hsocket
      exact ⟨fun hc => by simp at hc, fun hc => by simp at hc⟩

theorem Held.sendFrameToRelay (h : Held s url session) (relay : String) (frame : ProxyFrame) :
    Held s url (session.sendFrameToRelay relay frame) := by
  by_cases hrelay : url = relay
  · subst hrelay
    exact Held.sendFrameToRelay_self (Or.inr h)
  · obtain ⟨hsocket, hpending⟩ := @sendFrameToRelay_ne session url relay hrelay frame
    exact h.of_same hsocket hpending

theorem Held.sendFrames (h : Held s url session) (relay : String) (frames : List ProxyFrame) :
    Held s url (frames.foldl (fun session frame => session.sendFrameToRelay relay frame) session) := by
  induction frames generalizing session with
  | nil => exact h
  | cons frame frames ih => exact ih (h.sendFrameToRelay relay frame)

theorem held_sendFrames {frames : List ProxyFrame} (h : askedIn s frames = true) :
    Held s url (frames.foldl (fun session frame => session.sendFrameToRelay url frame) session) := by
  induction frames generalizing session with
  | nil => cases h
  | cons frame frames ih =>
    rw [foldl_cons]
    by_cases hreq : frame.requests s = true
    · exact (Held.sendFrameToRelay_self (Or.inl hreq)).sendFrames url frames
    · refine ih ?_
      rw [askedIn, any_cons, Bool.or_eq_true] at h
      exact h.resolve_left hreq

/-! Which relays have a socket. -/

theorem hasSocket_sendFrameToRelay (relay : String) (frame : ProxyFrame) (url : String) :
    (session.sendFrameToRelay relay frame).hasSocket url = session.hasSocket url := by
  unfold sendFrameToRelay
  split
  · rfl
  · next socket hlook =>
    split
    · next hopen =>
      by_cases hrelay : url = relay
      · rw [hasSocket, hasSocket, Map.lookup_insert_ite, if_pos hrelay, hrelay, hlook]
        simp [RelaySocket.send]
      · rw [hasSocket, hasSocket, Map.lookup_insert_ite, if_neg hrelay]
    · rfl
    · rfl

theorem hasSocket_sendFrames (relay : String) (frames : List ProxyFrame) (url : String) :
    (frames.foldl (fun session frame => session.sendFrameToRelay relay frame) session).hasSocket url =
      session.hasSocket url := by
  induction frames generalizing session with
  | nil => rfl
  | cons frame frames ih =>
    rw [foldl_cons, ih, hasSocket_sendFrameToRelay]

theorem ensureRelaySocket_ne (h : session.ensureRelaySocket isUrl relay = some session')
    (hne : url ≠ relay) :
    session'.relaySockets.lookup url = session.relaySockets.lookup url ∧
      session'.pendingFrames.lookup url = session.pendingFrames.lookup url := by
  obtain rfl | ⟨hsockets, hpending, -⟩ := ensureRelaySocket_cases h
  · exact ⟨rfl, rfl⟩
  · exact ⟨by rw [hsockets, Map.lookup_insert_ite, if_neg hne],
      by rw [hpending, Map.lookup_insert_ite, if_neg hne]⟩

theorem ensureRelaySocket_isSome :
    (session.ensureRelaySocket isUrl relay).isSome = session.usable isUrl relay := by
  unfold ensureRelaySocket usable hasSocket
  split
  · next hthere => rw [hthere]; rfl
  · next hthere =>
    rw [Bool.not_eq_true] at hthere
    rw [hthere]
    split
    · next hurl => rw [hurl]; rfl
    · next hurl =>
      rw [Bool.not_eq_true] at hurl
      rw [hurl]
      rfl

theorem usable_ensureRelaySocket (h : session.ensureRelaySocket isUrl relay = some session')
    (url : String) : session'.usable isUrl url = session.usable isUrl url := by
  by_cases hrelay : url = relay
  · subst hrelay
    have hbefore : session.usable isUrl url = true := by
      rw [← ensureRelaySocket_isSome, h]
      rfl
    rw [hbefore]
    obtain rfl | ⟨hsockets, -, -⟩ := ensureRelaySocket_cases h
    · exact hbefore
    · rw [usable, hasSocket, hsockets, Map.lookup_insert_ite, if_pos rfl]
      rfl
  · rw [usable, usable, hasSocket, hasSocket, (ensureRelaySocket_ne h hrelay).1]

theorem reaches_congr (h : ∀ k, session'.usable isUrl k = session.usable isUrl k) (url : String)
    (relays : List String) :
    session'.reaches isUrl url relays = session.reaches isUrl url relays := by
  induction relays with
  | nil => rfl
  | cons relay relays ih => rw [reaches, reaches, h, ih]

/-- An envelope with the `REQ` leaves the session holding it, when it comes to the
relay or the session held it before; any envelope does in the latter case, when it
makes no socket to the relay. -/
theorem held_handleEnvelope {frames : List ProxyFrame} (relays : List String)
    (h : (askedIn s frames = true ∧ (session.reaches isUrl url relays = true ∨ Held s url session)) ∨
      (Held s url session ∧
        (session.reaches isUrl url relays = true → session.hasSocket url = true))) :
    Held s url (session.handleEnvelope isUrl frames relays) := by
  induction relays generalizing session with
  | nil =>
    rw [handleEnvelope]
    obtain ⟨-, hreach | hheld⟩ | ⟨hheld, -⟩ := h
    · cases hreach
    · exact hheld
    · exact hheld
  | cons relay relays ih =>
    rw [handleEnvelope]
    cases hensure : session.ensureRelaySocket isUrl relay with
    | none =>
      -- the loop ends here
      have hnot : session.reaches isUrl url (relay :: relays) = false := by
        rw [reaches, ← ensureRelaySocket_isSome, hensure]
        rfl
      rw [hnot] at h
      dsimp only
      obtain ⟨-, hreach | hheld⟩ | ⟨hheld, -⟩ := h
      · cases hreach
      · exact hheld
      · exact hheld
    | some session' =>
      dsimp only
      have husable : session.usable isUrl relay = true := by
        rw [← ensureRelaySocket_isSome, hensure]
        rfl
      have hreaches : session.reaches isUrl url (relay :: relays) =
          (decide (relay = url) || session.reaches isUrl url relays) := by
        rw [reaches, husable, Bool.true_and]
      have hafter : (frames.foldl (fun session frame => session.sendFrameToRelay relay frame)
          session').reaches isUrl url relays = session.reaches isUrl url relays := by
        refine reaches_congr (fun k => ?_) url relays
        rw [usable, hasSocket_sendFrames]
        exact usable_ensureRelaySocket hensure k
      refine ih ?_
      rw [hafter, hasSocket_sendFrames]
      by_cases hrelay : url = relay
      · subst hrelay
        obtain ⟨hasked, -⟩ | ⟨hheld, hnew⟩ := h
        · exact Or.inl ⟨hasked, Or.inr (held_sendFrames hasked)⟩
        · -- the relay has its socket already
          have hthere : session.hasSocket url = true := hnew (by rw [hreaches]; simp)
          have hsame : session' = session := by
            rw [hasSocket] at hthere
            rw [ensureRelaySocket, if_pos hthere] at hensure
            exact (some.inj hensure).symm
          rw [hsame]
          exact Or.inr ⟨hheld.sendFrames url frames, fun _ => hthere⟩
      · obtain ⟨hsocket, hpending⟩ := ensureRelaySocket_ne hensure hrelay
        rw [hreaches, decide_eq_false (Ne.symm hrelay), Bool.false_or] at h
        rw [hasSocket, hsocket]
        have hkeeps : Held s url session → Held s url
            (frames.foldl (fun session frame => session.sendFrameToRelay relay frame) session') :=
          fun hheld => (hheld.of_same hsocket hpending).sendFrames relay frames
        exact h.imp (fun hleft => ⟨hleft.1, hleft.2.imp_right hkeeps⟩)
          fun hright => ⟨hkeeps hright.1, hright.2⟩

theorem Held.closeSub (h : Held s url session) (subId : String) :
    Held s url (session.closeSub subId) := by
  intro socket hlook
  simp only [ProxySession.closeSub, Map.lookup_mapValues, map_eq_some_iff] at hlook
  obtain ⟨old, hold, rfl⟩ := hlook
  obtain ⟨hconn, hopen⟩ := h old hold
  by_cases hstate : old.state = .opened
  · rw [if_pos hstate]
    refine ⟨fun hc => ?_, fun _ => ?_⟩
    · exact absurd (hstate.symm.trans hc) (by simp)
    · show askedIn s (old.sent ++ [.close subId]) = true
      rw [askedIn_append, hopen hstate]
      rfl
  · rw [if_neg hstate]
    exact ⟨hconn, hopen⟩

theorem Held.relayOpened (h : Held s url session) (relay : String) :
    Held s url (session.relayOpened relay) := by
  by_cases hrelay : url = relay
  · subst hrelay
    unfold ProxySession.relayOpened
    split
    · next sent hlook =>
      obtain ⟨frames, hpending, hasked⟩ := (h _ hlook).1 rfl
      rw [hpending]
      intro socket hsocket
      dsimp only at hsocket
      rw [Map.lookup_insert_ite, if_pos rfl] at hsocket
      obtain rfl := some.inj hsocket
      refine ⟨fun hc => by simp at hc, fun _ => ?_⟩
      show askedIn s (sent ++ frames) = true
      rw [askedIn_append, hasked, Bool.or_true]
    · exact h
  · unfold ProxySession.relayOpened
    split
    · split
      · refine h.of_same ?_ ?_
        · dsimp only
          rw [Map.lookup_insert_ite, if_neg hrelay]
        · dsimp only
          rw [Map.lookup_insert_ite, if_neg hrelay]
      · refine h.of_same ?_ rfl
        dsimp only
        rw [Map.lookup_insert_ite, if_neg hrelay]
    · exact h

theorem Held.relayDown (h : Held s url session) (relay : String) {state : ReadyState}
    (hstate : state = .closing ∨ state = .closed) : Held s url (session.relayDown relay state) := by
  obtain hsame | ⟨socket, -, hdown⟩ := relayDown_cases session relay state
  · rw [hsame]
    exact h
  · rw [hdown]
    by_cases hrelay : url = relay
    · subst hrelay
      intro socket' hlook
      dsimp only at hlook
      rw [Map.lookup_insert_ite, if_pos rfl] at hlook
      obtain rfl := some.inj hlook
      -- a socket that is down is not in use
      obtain rfl | rfl := hstate
      · exact ⟨fun hc => by simp at hc, fun hc => by simp at hc⟩
      · exact ⟨fun hc => by simp at hc, fun hc => by simp at hc⟩
    · refine h.of_same ?_ ?_
      · dsimp only
        rw [Map.lookup_insert_ite, if_neg hrelay]
      · dsimp only
        rw [Map.lookup_erase_ite, if_neg hrelay]

theorem Bare.held (h : session.Bare) : Held s url session :=
  Held.of_none (by rw [h.1]; rfl)

end ProxySession

/-! ### The parties -/

/-- The `REQ` is on its way, or the session of the current web socket holds it. -/
def Kept (s url : String) (st : ProxySystem) : Prop :=
  OnTheWay s url st st.link.toServer ∨ st.link.session.Held s url

namespace Kept

variable {s url : String} {isUrl : String → Bool} {st : ProxySystem}

theorem mono {st' : ProxySystem} (h : Kept s url st)
    (hcache : ∀ e ∈ st.cachePort, e ∈ st'.cachePort)
    (hpending : ∀ e ∈ st.pendingFrames, e ∈ st'.pendingFrames)
    (hto : ∀ m ∈ st.link.toServer, m ∈ st'.link.toServer)
    (hsession : st'.link.session = st.link.session) : Kept s url st' := by
  rcases h with (⟨e, he, hasks⟩ | ⟨e, he, hasks⟩ | ⟨m, hm, hasks⟩) | hheld
  · exact Or.inl (Or.inl ⟨e, hcache e he, hasks⟩)
  · exact Or.inl (Or.inr (Or.inl ⟨e, hpending e he, hasks⟩))
  · exact Or.inl (Or.inr (Or.inr ⟨m, hto m hm, hasks⟩))
  · refine Or.inr ?_
    rw [hsession]
    exact hheld

theorem openSocket (hlinked : Linked st) : Kept s url st.openSocket := by
  refine Or.inr (ProxySession.Bare.held ?_)
  rw [ProxySystem.link, ProxySystem.openSocket, hlinked.future _ (Nat.lt_succ_self _)]
  exact ⟨rfl, rfl⟩

theorem send_toServer {link : ProxyLink} {messages : List ClientMessage} (m : ClientMessage)
    (hm : m ∈ link.toServer) : m ∈ (link.send messages).toServer := by
  rw [ProxyLink.send]
  split
  · exact hm
  · exact mem_append_left _ hm

theorem send (h : Kept s url st) (messages : List ClientMessage) :
    Kept s url (st.onLink st.current fun link => link.send messages) := by
  refine h.mono (by simp) (by simp) (fun m hm => ?_) ?_
  · rw [ProxySystem.onLink_link_self]
    exact send_toServer m hm
  · rw [ProxySystem.onLink_link_self]
    exact send_session st.link messages

theorem send_asks {link : ProxyLink} (hok : LinkOk link) {messages : List ClientMessage}
    {m : ClientMessage} (hm : m ∈ messages) :
    m ∈ (link.send messages).toServer ∨ (link.send messages).session.Held s url := by
  rw [ProxyLink.send]
  split
  · next hended => exact Or.inr (hok.done hended).2.held
  · exact Or.inl (mem_append_right _ hm)

theorem takeEnvelope (h : Kept s url st) (hlinked : Linked st) {e : ProxyEnvelope}
    {rest : List ProxyEnvelope} (hport : st.cachePort = e :: rest) :
    Kept s url (({ st with cachePort := rest } : ProxySystem).sendBinary e) := by
  rw [ProxySystem.sendBinary]
  by_cases hopen : st.link.ws = .opened
  · rw [if_pos (show ({ st with cachePort := rest } : ProxySystem).link.ws = .opened from hopen)]
    have hto : ∀ m ∈ st.link.toServer, m ∈ (st.link.send [e.message]).toServer :=
      fun m hm => send_toServer m hm
    have hlink : (({ st with cachePort := rest } : ProxySystem).onLink st.current
        fun link => link.send [e.message]).link = st.link.send [e.message] :=
      ProxySystem.onLink_link_self { st with cachePort := rest } _
    rcases h with (⟨e', he', hasks⟩ | ⟨e', he', hasks⟩ | ⟨m, hm, hasks⟩) | hheld
    · rw [hport] at he'
      rcases List.mem_cons.mp he' with rfl | he'
      · rcases send_asks (s := s) (hlinked.ok st.current) (mem_singleton_self e'.message)
          with hsent | hheld
        · refine Or.inl (Or.inr (Or.inr ⟨e'.message, ?_, hasks⟩))
          rw [hlink]
          exact hsent
        · refine Or.inr ?_
          rw [hlink]
          exact hheld
      · refine Or.inl (Or.inl ⟨e', ?_, hasks⟩)
        rw [ProxySystem.onLink_cachePort]
        exact he'
    · refine Or.inl (Or.inr (Or.inl ⟨e', ?_, hasks⟩))
      rw [ProxySystem.onLink_pendingFrames]
      exact he'
    · refine Or.inl (Or.inr (Or.inr ⟨m, ?_, hasks⟩))
      rw [hlink]
      exact hto m hm
    · refine Or.inr ?_
      rw [hlink, send_session]
      exact hheld
  · rw [if_neg (show ¬ ({ st with cachePort := rest } : ProxySystem).link.ws = .opened from hopen)]
    rcases h with (⟨e', he', hasks⟩ | ⟨e', he', hasks⟩ | ⟨m, hm, hasks⟩) | hheld
    · rw [hport] at he'
      rcases List.mem_cons.mp he' with rfl | he'
      · exact Or.inl (Or.inr (Or.inl ⟨e', mem_append_right _ mem_cons_self, hasks⟩))
      · exact Or.inl (Or.inl ⟨e', he', hasks⟩)
    · exact Or.inl (Or.inr (Or.inl ⟨e', mem_append_left _ he', hasks⟩))
    · exact Or.inl (Or.inr (Or.inr ⟨m, hm, hasks⟩))
    · exact Or.inr hheld

theorem onopen (h : Kept s url st) (hlinked : Linked st) : Kept s url st.onopen := by
  rw [ProxySystem.onopen]
  split
  · next hconn =>
    have hlink : ({ st.onLink st.current fun link => ({ link with ws := .opened } : ProxyLink).send
        (st.pendingFrames.map ProxyEnvelope.message) with pendingFrames := [] } : ProxySystem).link =
        ({ st.link with ws := .opened } : ProxyLink).send
          (st.pendingFrames.map ProxyEnvelope.message) :=
      ProxySystem.onLink_link_self st _
    have hok : LinkOk { st.link with ws := .opened } := (hlinked.ok st.current).down (by simp)
    rcases h with (⟨e, he, hasks⟩ | ⟨e, he, hasks⟩ | ⟨m, hm, hasks⟩) | hheld
    · refine Or.inl (Or.inl ⟨e, ?_, hasks⟩)
      show e ∈ (st.onLink _ _).cachePort
      rw [ProxySystem.onLink_cachePort]
      exact he
    · rcases send_asks (s := s) hok (mem_map_of_mem he) with hsent | hheld
      · refine Or.inl (Or.inr (Or.inr ⟨e.message, ?_, hasks⟩))
        rw [hlink]
        exact hsent
      · refine Or.inr ?_
        rw [hlink]
        exact hheld
    · refine Or.inl (Or.inr (Or.inr ⟨m, ?_, hasks⟩))
      rw [hlink]
      exact send_toServer m hm
    · refine Or.inr ?_
      rw [hlink, send_session]
      exact hheld
  · exact h

theorem onLink {i : ℕ} {f : ProxyLink → ProxyLink} (h : Kept s url st)
    (hf : (∀ m ∈ st.link.toServer, m ∈ (f st.link).toServer) ∧
        (st.link.session.Held s url → (f st.link).session.Held s url) ∨
      (f st.link).session.Held s url) : Kept s url (st.onLink i f) := by
  by_cases hi : i = st.current
  · subst hi
    have hlink := ProxySystem.onLink_link_self st f
    rcases hf with ⟨hto, hsession⟩ | hheld
    · rcases h with (⟨e, he, hasks⟩ | ⟨e, he, hasks⟩ | ⟨m, hm, hasks⟩) | hheld
      · exact Or.inl (Or.inl ⟨e, by rw [ProxySystem.onLink_cachePort]; exact he, hasks⟩)
      · exact Or.inl (Or.inr (Or.inl ⟨e, by rw [ProxySystem.onLink_pendingFrames]; exact he, hasks⟩))
      · exact Or.inl (Or.inr (Or.inr ⟨m, by rw [hlink]; exact hto m hm, hasks⟩))
      · exact Or.inr (by rw [hlink]; exact hsession hheld)
    · exact Or.inr (by rw [hlink]; exact hheld)
  · have hlink : (st.onLink i f).link = st.link := by rw [ProxySystem.onLink_link, if_neg hi]
    exact h.mono (by simp) (by simp) (by rw [hlink]; exact fun _ hm => hm) (by rw [hlink])

theorem receive {wanted : Bool} (h : Kept s url st) (hwanted : wanted = true)
    (hrejoined : Rejoined isUrl s url ⟨st, wanted⟩ (.serverReceive st.current)) :
    Kept s url (st.onLink st.current (ProxyLink.receive isUrl)) := by
  have hlink := ProxySystem.onLink_link_self st (ProxyLink.receive isUrl)
  cases hto : st.link.toServer with
  | nil =>
    refine h.onLink (Or.inl ⟨fun m hm => ?_, fun hheld => ?_⟩)
    · rw [hto] at hm
      cases hm
    · rw [ProxyLink.receive, hto]
      exact hheld
  | cons message rest =>
    have hreceive : ProxyLink.receive isUrl st.link = { st.link with
        toServer := rest, session := st.link.session.receive isUrl message } := by
      rw [ProxyLink.receive, hto]
    by_cases hway : OnTheWay s url st rest
    · -- it comes later
      refine Or.inl ?_
      rw [hlink, hreceive]
      rcases hway with ⟨e, he, hasks⟩ | ⟨e, he, hasks⟩ | hm
      · exact Or.inl ⟨e, by rw [ProxySystem.onLink_cachePort]; exact he, hasks⟩
      · exact Or.inr (Or.inl ⟨e, by rw [ProxySystem.onLink_pendingFrames]; exact he, hasks⟩)
      · exact Or.inr (Or.inr hm)
    · have hnow : message.asks s url = true ∨ st.link.session.Held s url := by
        refine h.imp_left ?_
        rintro (hcache | hpending | ⟨m, hm, hasks⟩)
        · exact absurd (Or.inl hcache) hway
        · exact absurd (Or.inr (Or.inl hpending)) hway
        · rw [hto] at hm
          rcases List.mem_cons.mp hm with rfl | hm
          · exact hasks
          · exact absurd (Or.inr (Or.inr ⟨m, hm, hasks⟩)) hway
      refine Or.inr ?_
      rw [hlink, hreceive]
      show (st.link.session.receive isUrl message).Held s url
      cases message with
      | envelope relays frames =>
        have hcond := hrejoined rfl hwanted relays frames rest hto hway
        refine ProxySession.held_handleEnvelope relays ?_
        by_cases hasked : askedIn s frames = true
        · rw [if_pos hasked] at hcond
          refine Or.inl ⟨hasked, hnow.imp_left fun hasks => hcond ?_⟩
          exact (of_decide_eq_true hasks).1
        · rw [if_neg hasked] at hcond
          refine Or.inr ⟨hnow.resolve_left fun hasks => hasked ?_, hcond⟩
          exact (of_decide_eq_true hasks).2
      | closeSub subId => exact (hnow.resolve_left (by simp [ClientMessage.asks])).closeSub subId
      | authResponse relay event =>
        exact (hnow.resolve_left (by simp [ClientMessage.asks])).sendFrameToRelay relay _

end Kept

theorem wanted_frames {s : String} {frames : List ProxyFrame} {wanted : Bool}
    (h : frames.foldl (wantedFrame s) wanted = true) : askedIn s frames = true ∨ wanted = true := by
  induction frames generalizing wanted with
  | nil => exact Or.inr h
  | cons frame frames ih =>
    rcases ih h with hrest | hfirst
    · refine Or.inl ?_
      rw [askedIn, any_cons, Bool.or_eq_true]
      exact Or.inr hrest
    · cases frame with
      | req subId filters =>
        by_cases hs : subId = s
        · refine Or.inl ?_
          rw [askedIn, any_cons, ProxyFrame.requests, decide_eq_true hs]
          rfl
        · exact Or.inr (by rwa [wantedFrame, if_neg hs] at hfirst)
      | close subId =>
        by_cases hs : subId = s
        · rw [wantedFrame, if_pos hs] at hfirst
          cases hfirst
        · exact Or.inr (by rwa [wantedFrame, if_neg hs] at hfirst)
      | auth event => exact Or.inr hfirst
      | other text => exact Or.inr hfirst

/-- The invariant: a subscription that is wanted is on its way or held. -/
structure Surviving (s url : String) (w : ProxyWatch) : Prop where
  linked : Linked w.system
  kept : w.wanted = true → Kept s url w.system

theorem Surviving.start (s url : String) : Surviving s url .start :=
  ⟨.start, fun h => absurd h (by simp [ProxyWatch.start])⟩

theorem Surviving.step {s url : String} {isUrl : String → Bool} {w : ProxyWatch}
    (h : Surviving s url w) (a : ProxyAction) (hrejoined : Rejoined isUrl s url w a) :
    Surviving s url (w.step isUrl s url a) := by
  obtain ⟨st, wanted⟩ := w
  obtain ⟨hlinked, hkept⟩ := h
  refine ⟨hlinked.step isUrl a, fun hwanted => ?_⟩
  show Kept s url (st.step isUrl a)
  have hwanted : wantedStep s url wanted a = true := hwanted
  cases a with
  | post e =>
    by_cases hrelay : url ∈ e.relays
    · rw [wantedStep, if_pos hrelay] at hwanted
      rcases wanted_frames hwanted with hasked | hbefore
      · refine Or.inl (Or.inl ⟨e, mem_append_right _ mem_cons_self, ?_⟩)
        exact decide_eq_true ⟨hrelay, hasked⟩
      · exact (hkept hbefore).mono (fun e he => mem_append_left _ he) (fun e he => he)
          (fun m hm => hm) rfl
    · rw [wantedStep, if_neg hrelay] at hwanted
      exact (hkept hwanted).mono (fun e he => mem_append_left _ he) (fun e he => he)
        (fun m hm => hm) rfl
  | unsubscribe subId =>
    by_cases hs : subId = s
    · rw [wantedStep, if_pos hs] at hwanted
      cases hwanted
    · rw [wantedStep, if_neg hs] at hwanted
      exact (hkept hwanted).mono (fun e he => he) (fun e he => he) (fun m hm => hm) rfl
  | parserClose subId =>
    by_cases hs : subId = s
    · rw [wantedStep, if_pos hs] at hwanted
      cases hwanted
    · rw [wantedStep, if_neg hs] at hwanted
      exact (hkept hwanted).mono (fun e he => he) (fun e he => he) (fun m hm => hm) rfl
  | authResponse relay event =>
    show Kept s url (st.authResponse relay event)
    rw [ProxySystem.authResponse]
    split
    · exact (hkept hwanted).send _
    · exact hkept hwanted
  | takeEnvelope =>
    rw [ProxySystem.step]
    split
    · exact hkept hwanted
    · next e rest hport => exact (hkept hwanted).takeEnvelope hlinked hport
  | takeCommand =>
    rw [ProxySystem.step]
    split
    · exact hkept hwanted
    · next subId rest hcommands =>
      have hsame : Kept s url { st with commands := rest } :=
        (hkept hwanted).mono (fun e he => he) (fun e he => he) (fun m hm => hm) rfl
      rw [ProxySystem.close]
      split
      · exact hsame.send _
      · exact hsame
  | opened => exact (hkept hwanted).onopen hlinked
  | wsClosed i => exact (hkept hwanted).onLink (Or.inl ⟨fun m hm => hm, fun hheld => hheld⟩)
  | wake =>
    show Kept s url (ProxySystem.openSocket _)
    refine Kept.openSocket ?_
    refine hlinked.onLink st.current ?_ (Or.inr (Or.inl rfl))
    exact (hlinked.ok st.current).down (by simp)
  | timer =>
    rw [ProxySystem.step, ProxySystem.reconnect]
    split
    · exact Kept.openSocket hlinked
    · exact hkept hwanted
  | serverReceive i =>
    by_cases hi : i = st.current
    · subst hi
      exact (hkept hwanted).receive hwanted hrejoined
    · have hlink : (st.onLink i (ProxyLink.receive isUrl)).link = st.link := by
        rw [ProxySystem.onLink_link, if_neg hi]
      exact (hkept hwanted).mono (by simp [ProxySystem.step]) (by simp [ProxySystem.step])
        (by rw [ProxySystem.step, hlink]; exact fun _ hm => hm) (by rw [ProxySystem.step, hlink])
  | sessionEnded i =>
    exact (hkept hwanted).onLink (Or.inr (ProxySession.Held.of_none rfl))
  | relayOpened i relay =>
    exact (hkept hwanted).onLink (Or.inl ⟨fun m hm => hm, fun hheld => hheld.relayOpened relay⟩)
  | relayClosing i relay =>
    exact (hkept hwanted).onLink
      (Or.inl ⟨fun m hm => hm, fun hheld => hheld.relayDown relay (Or.inl rfl)⟩)
  | relayClosed i relay =>
    exact (hkept hwanted).onLink
      (Or.inl ⟨fun m hm => hm, fun hheld => hheld.relayDown relay (Or.inr rfl)⟩)

/-- **Subscriptions survive reconnects**, in every run in which a socket to the
relay is only made for an envelope with the `REQ`: however often the web socket or
the sockets of the relays went down, in a quiescent state the socket in use got
the `REQ` of every subscription that is wanted. -/
theorem subscription_survives (isUrl : String → Bool) (s url : String) (acts : List ProxyAction)
    (h : Run.Along (ProxyWatch.step isUrl s url) (Rejoined isUrl s url) .start acts) :
    InUse s url (Run.exec (ProxyWatch.step isUrl s url) .start acts) := by
  have hkeep : ∀ w a, Surviving s url w → Rejoined isUrl s url w a →
      Surviving s url (ProxyWatch.step isUrl s url w a) := fun w a hw ha => hw.step a ha
  have hsurviving := Run.Along.exec hkeep (.start s url) h
  intro hquiet hwanted hopen socket hlook hstate
  obtain ⟨hcache, -, hpending, hlinks⟩ := hquiet
  obtain ⟨hto, -, -⟩ := hlinks _ (le_refl _)
  rcases hsurviving.kept hwanted with (⟨e, he, -⟩ | ⟨e, he, -⟩ | ⟨m, hm, -⟩) | hheld
  · rw [hcache] at he
    cases he
  · rw [hpending] at he
    cases he
  · rw [show (Run.exec (ProxyWatch.step isUrl s url) .start acts).system.link.toServer = [] from hto]
      at hm
    cases hm
  · exact (hheld socket hlook).2 hstate

/-- The socket to the relay goes down, and the subscription is asked for again. -/
def askedAgain : List ProxyAction :=
  oneRequest ++ [.relayOpened 0 "wss://r", .relayClosed 0 "wss://r",
    .post ⟨["wss://r"], [.req "s" "\x7b\x7d"]⟩, .takeEnvelope, .serverReceive 0,
    .relayOpened 0 "wss://r"]

/-- The socket to the relay goes down, and another subscription is asked for. -/
def relayDropped : List ProxyAction :=
  oneRequest ++ [.relayOpened 0 "wss://r", .relayClosed 0 "wss://r",
    .post ⟨["wss://r"], [.req "t" "\x7b\x7d"]⟩, .takeEnvelope, .serverReceive 0,
    .relayOpened 0 "wss://r"]

/-- The web socket to the proxy goes down and is opened again, and another
subscription is asked for. -/
def clientDropped : List ProxyAction :=
  oneRequest ++ [.relayOpened 0 "wss://r", .wsClosed 0, .sessionEnded 0, .timer, .opened,
    .post ⟨["wss://r"], [.req "t" "\x7b\x7d"]⟩, .takeEnvelope, .serverReceive 1,
    .relayOpened 1 "wss://r"]

theorem rejoined_of_asked {isUrl : String → Bool} {s url : String} {w : ProxyWatch} {i : ℕ}
    (relays : List String) (frames : List ProxyFrame) (rest : List ClientMessage)
    (hto : w.system.link.toServer = .envelope relays frames :: rest)
    (hasked : askedIn s frames = true)
    (hreach : w.system.link.session.reaches isUrl url relays = true) :
    Rejoined isUrl s url w (.serverReceive i) := by
  intro _ _ relays' frames' rest' hto' _
  rw [hto] at hto'
  cases hto'
  rw [if_pos hasked]
  exact fun _ => hreach

/-- A subscription that is asked for again survives. -/
theorem subscription_survives_askedAgain :
    InUse "s" "wss://r" (Run.exec (ProxyWatch.step (fun _ => true) "s" "wss://r") .start
      askedAgain) := by
  refine subscription_survives (fun _ => true) "s" "wss://r" askedAgain ?_
  refine ⟨trivial, trivial, trivial, ?_, trivial, trivial, trivial, trivial, ?_, trivial, trivial⟩
  · exact rejoined_of_asked ["wss://r"] [.req "s" "\x7b\x7d"] [] (by decide) (by decide)
      (by decide)
  · exact rejoined_of_asked ["wss://r"] [.req "s" "\x7b\x7d"] [] (by decide) (by decide)
      (by decide)

/-- **Forgotten subscriptions.**  After either socket went down, the next envelope
brings up a socket to the relay that never gets the first `REQ`. -/
theorem subscription_is_forgotten :
    ¬ InUse "s" "wss://r" (Run.exec (ProxyWatch.step (fun _ => true) "s" "wss://r") .start
        relayDropped) ∧
      ¬ InUse "s" "wss://r" (Run.exec (ProxyWatch.step (fun _ => true) "s" "wss://r") .start
        clientDropped) := by
  constructor
  · intro h
    have hasked := h (quiescent_of_one (by decide) (by decide)) (by decide)
      (by decide) ⟨.opened, [.req "t" "\x7b\x7d"]⟩ (by decide) rfl
    exact absurd hasked (by decide)
  · intro h
    have hquiet : Quiescent (Run.exec (ProxyWatch.step (fun _ => true) "s" "wss://r") .start
        clientDropped).system := by
      refine ⟨by decide, by decide, by decide, fun i hi => ?_⟩
      have hi : i ≤ 1 := hi
      interval_cases i
      · exact ⟨by decide, by decide, fun _ => by decide⟩
      · exact ⟨by decide, by decide, by decide⟩
    have hasked := h hquiet (by decide) (by decide)
      ⟨.opened, [.req "t" "\x7b\x7d"]⟩ (by decide) rfl
    exact absurd hasked (by decide)

end Nipworker
